import OffsideRule.Toml.Scalar

/-! The grammar of TOML documents: keys, values in one another, tables and lines. -/

namespace OffsideRule.Toml

def isBareKey (c : Char) : Bool :=
  c.isAlphanum || c = '_' || c = '-'

/-- One name of a key: bare, or a string of one line. -/
def keyName : Parser String
  | [] => refuse .keyPart []
  | c :: rest =>
    if c = '"' || c = '\'' then do
      let (name, rest) ← lineString c rest
      return (String.ofList name, rest)
    else
      let name := (c :: rest).takeWhile isBareKey
      if name.isEmpty then refuse .keyPart (c :: rest)
      else .ok (String.ofList name, (c :: rest).drop name.length)

/-- Names divided by dots, with blanks around them. -/
def key : Parser Key := fun s => do
  let (name, rest) ← keyName s
  loop (fun k s =>
    match skipSpace s with
    | '.' :: rest => do
      let (name, rest) ← keyName (skipSpace rest)
      return (.yield ⟨k.way ++ [k.last], name⟩, rest)
    | rest => .ok (.done k, rest)) ⟨[], name⟩ rest

/-- A key with its value. -/
def pair (value : Parser Value) : Parser (Key × Value) := fun s => do
  let (k, rest) ← key s
  match rest with
  | '=' :: rest =>
    let (v, rest) ← value (skipSpace rest)
    return ((k, v), rest)
  | rest => refuse .equals rest

/-- The rest of an array. A comma may stand behind the last item. -/
def array (value : Parser Value) : Parser (List Value) :=
  loop (fun items s => do
    match ← skipLines s with
    | (_, ']' :: rest) => return (.done items, rest)
    | (_, s) =>
      let (v, rest) ← value s
      match ← skipLines rest with
      | (_, ']' :: rest) => return (.done (items ++ [v]), rest)
      | (_, ',' :: rest) => return (.yield (items ++ [v]), rest)
      | (_, rest) => refuse .unclosedArray rest) []

/-- Refuses what is in conflict with the document before `rest`. -/
def settle {α : Type} (x : Except Conflict α) (rest : Text) : Except Refusal α :=
  x.mapError fun c => .malformed (.conflict c) rest.length

/-- The rest of an inline table. No comma stands behind the last pair. -/
def inlineTable (value : Parser Value) : Parser Trees := fun s =>
  match skipSpace s with
  | '}' :: rest => .ok ([], rest)
  | s => loop (fun entries s => do
    let ((k, v), rest) ← pair value (skipSpace s)
    let entries ← settle (entries.insert k v) rest
    match skipSpace rest with
    | '}' :: rest => return (.done entries, rest)
    | ',' :: rest => return (.yield entries, rest)
    | rest => refuse .unclosedTable rest) [] s

/-- A value, in so many calls. The calls around an item of an array are two more than those around
the array, and three more for an inline table. -/
def value (limits : Limits) : (fuel depth : Nat) → Parser Value
  | 0, _, _ => .error .tooDeep
  | fuel + 1, depth, s =>
    if limits.reads depth s then
      match s with
      | '[' :: rest => do
        let (items, rest) ← array (value limits fuel (depth + 2)) rest
        return (.array items, rest)
      | '{' :: rest => do
        let (entries, rest) ← inlineTable (value limits fuel (depth + 3)) rest
        return (.table (Tree.toEntries entries), rest)
      | s => scalar s
    else .error .tooDeep

/-- What a header or a key with its value does to a document. -/
structure Progress where
  /-- Number of headers so far. -/
  part : Nat
  /-- The names of the last header. -/
  header : List String
  root : Trees

/-- A header, from behind its opening bracket. -/
def header (p : Progress) : Parser Progress
  | '[' :: rest => do
    let (k, rest) ← key (skipSpace rest)
    let root ← settle (p.root.extend k) rest
    match rest with
    | ']' :: ']' :: rest => return (⟨p.part + 1, k.names, root⟩, rest)
    | rest => refuse .arrayEnd rest
  | s => do
    let (k, rest) ← key (skipSpace s)
    let root ← settle (p.root.declare (p.part + 1) k) rest
    match rest with
    | ']' :: rest => return (⟨p.part + 1, k.names, root⟩, rest)
    | rest => refuse .tableEnd rest

/-- A key with its value, below the last header. -/
def assignment (limits : Limits) (p : Progress) : Parser Progress := fun s => do
  let ((k, v), rest) ← pair (value limits (s.length + 1) 0) s
  return ({ p with root := ← settle (p.root.assign p.part p.header k v) rest }, rest)

/-- A header or an assignment. -/
def statement (limits : Limits) (p : Progress) : Parser Progress
  | [] => refuse .statement []
  | c :: rest =>
    if c = '[' then header p rest
    else if isBareKey c || c = '"' || c = '\'' then assignment limits p (c :: rest)
    else refuse .statement (c :: rest)

/-- The end of a line, with or without a comment. -/
def lineEnd (p : Progress) : Parser (ForInStep Progress) := fun s => do
  match ← comment (skipSpace s) with
  | (_, []) => return (.done p, [])
  | (_, '\n' :: rest) => return (.yield p, rest)
  | (_, rest) => refuse .lineEnd rest

/-- A line with a statement or nothing, and maybe a comment. -/
def line (limits : Limits) (p : Progress) : Parser (ForInStep Progress) := fun s => do
  let s := skipSpace s
  let (p, rest) ← match s with
    | [] | '\n' :: _ | '#' :: _ => pure (p, s)
    | s => statement limits p s
  lineEnd p rest

/-- The table a document describes. -/
def parse (limits : Limits) (s : Text) : Except Refusal Table := do
  let (p, _) ← loop (line limits) ⟨0, [], []⟩ s
  return Tree.toEntries p.root

end OffsideRule.Toml
