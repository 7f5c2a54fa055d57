import OffsideRule.Toml.Value

/-! The tables of a document while it is read. Every header begins a new part of the document. A
table that a header declared, or that dotted keys built up, is closed to the keys of all other parts,
and a value to all further keys. -/

namespace OffsideRule.Toml

inductive Tree
  | value (v : Value)
  /-- `owner` is the part of the document that declared the table or built it by dotted keys. -/
  | table (owner : Option Nat) (entries : List (String × Tree))
  /-- An array of tables: the finished ones, and the one that headers and keys lead into. -/
  | tables (finished : List (List (String × Tree))) (current : List (String × Tree))

abbrev Trees := List (String × Tree)

namespace Tree

mutual

def toValue : Tree → Value
  | value v => v
  | table _ entries => .table (toEntries entries)
  | tables finished current => .array (toTables finished ++ [.table (toEntries current)])

def toEntries : Trees → Table
  | [] => []
  | (name, t) :: more => (name, t.toValue) :: toEntries more

def toTables : List Trees → List Value
  | [] => []
  | entries :: more => .table (toEntries entries) :: toTables more

end

end Tree

/-- Why a header or a key cannot stand in a document. -/
inductive Conflict
  | declaredTwice (names : List String)
  | immutable (names : List String)
  | redefined (names : List String)
  | overwritten
  | duplicate (name : String)
  deriving DecidableEq, Repr

/-- Names in parentheses, with a comma behind a name that is alone. -/
def namesShown (names : List String) : String :=
  "(" ++ ", ".intercalate (names.map quoted) ++ (if names.length = 1 then ",)" else ")")

def Conflict.message : Conflict → String
  | declaredTwice names => "Cannot declare " ++ namesShown names ++ " twice"
  | immutable names => "Cannot mutate immutable namespace " ++ namesShown names
  | redefined names => "Cannot redefine namespace " ++ namesShown names
  | overwritten => "Cannot overwrite a value"
  | duplicate name => "Duplicate inline table key " ++ quoted name

/-- The conflict with a value that stands where a table is needed. A closed one is spoken of by the
names that lead into it. -/
def Value.conflict (v : Value) (closed : Conflict) : Conflict :=
  if v.isClosed then closed else .overwritten

/-- A key is the names on the way and the name at its end. -/
structure Key where
  way : List String
  last : String
  deriving DecidableEq, Repr

def Key.names (k : Key) : List String :=
  k.way ++ [k.last]

namespace Trees

/-- The trees with another one under a name; a new name comes last. -/
def put (name : String) (t : Tree) : Trees → Trees
  | [] => [(name, t)]
  | (key, old) :: more => if key = name then (key, t) :: more else (key, old) :: put name t more

/-- Applies `f` to the table that names lead to. Missing tables are made, and of an array of tables
the current one is taken. -/
def inside (closed : Conflict) (f : Trees → Except Conflict Trees) :
    List String → Trees → Except Conflict Trees
  | [], entries => f entries
  | name :: more, entries =>
    match entries.lookup name with
    | none => do return put name (.table none (← inside closed f more [])) entries
    | some (.table owner old) => do
      return put name (.table owner (← inside closed f more old)) entries
    | some (.tables finished current) => do
      return put name (.tables finished (← inside closed f more current)) entries
    | some (.value v) => .error (v.conflict closed)

/-- Declares a table, as a header does. -/
def declare (part : Nat) (k : Key) (root : Trees) : Except Conflict Trees :=
  let twice := .declaredTwice k.names
  inside twice (fun entries =>
    match entries.lookup k.last with
    | none => .ok (put k.last (.table (some part) []) entries)
    | some (.table none old) => .ok (put k.last (.table (some part) old) entries)
    | some (.value v) => .error (v.conflict twice)
    | some _ => .error twice) k.way root

/-- Begins the next table of an array of tables, as a doubled header does. -/
def extend (k : Key) (root : Trees) : Except Conflict Trees :=
  let closed := .immutable k.names
  inside closed (fun entries =>
    match entries.lookup k.last with
    | none => .ok (put k.last (.tables [] []) entries)
    | some (.tables finished current) => .ok (put k.last (.tables (finished ++ [current]) []) entries)
    | some (.table _ _) => .error .overwritten
    | some (.value v) => .error (v.conflict closed)) k.way root

/-- Gives the last name its value in the table that the names on the way lead to, from the table
that `passed` names. The tables on the way must be free or belong to the same part. -/
def assignFrom (part : Nat) (last : String) (v : Value) (closed : Conflict) :
    (passed way : List String) → Trees → Except Conflict Trees
  | _, [], entries =>
    if (entries.lookup last).isSome then .error .overwritten else .ok (put last (.value v) entries)
  | passed, name :: more, entries =>
    let passed := passed ++ [name]
    match entries.lookup name with
    | none => do
      return put name (.table (some part) (← assignFrom part last v closed passed more [])) entries
    | some (.table owner old) =>
      if owner = none || owner = some part then do
        return put name (.table (some part) (← assignFrom part last v closed passed more old)) entries
      else .error (.redefined passed)
    | some (.tables _ _) => .error (.redefined passed)
    | some (.value v) => .error (v.conflict closed)

/-- Gives a key its value, below the last header. -/
def assign (part : Nat) (header : List String) (k : Key) (v : Value) (root : Trees) :
    Except Conflict Trees :=
  let closed := .immutable (header ++ k.way)
  inside closed (assignFrom part k.last v closed header k.way) header root

/-- Gives a key its value in an inline table. -/
def insert (k : Key) (v : Value) (entries : Trees) : Except Conflict Trees :=
  let closed := .immutable k.names
  inside closed (fun entries =>
    match entries.lookup k.last with
    | none => .ok (put k.last (.value v) entries)
    | some (.value old) => .error (if old.isClosed then closed else .duplicate k.last)
    | some _ => .error (.duplicate k.last)) k.way entries

end Trees

end OffsideRule.Toml
