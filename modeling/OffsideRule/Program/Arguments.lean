import OffsideRule.Text.Digit
import OffsideRule.Text.Quoted

/-! The command line: its options and the one file to read. Options may be abbreviated, joined and
placed anywhere before a double dash. -/

namespace OffsideRule.Program

inductive Format
  | tokens
  | braces
  | json
  deriving DecidableEq, Repr

namespace Format

def all : List Format := [tokens, braces, json]

def name : Format → String
  | tokens => "tokens"
  | braces => "braces"
  | json => "json"

def ofName? (s : String) : Option Format :=
  all.find? (·.name == s)

end Format

inductive Flag
  | help | output | format | keyword | noCloseTopLevel | config | watch | debug | verbose
  deriving DecidableEq, Repr

namespace Flag

/-- All ways to write the flags, in the order in which they are documented. -/
def spellings : List (String × Flag) :=
  [("-h", help), ("--help", help), ("-o", output), ("--output", output), ("-f", format),
   ("--format", format), ("-k", keyword), ("--keyword", keyword),
   ("--no-close-top-level", noCloseTopLevel), ("--config", config), ("--watch", watch),
   ("--debug", debug), ("-v", verbose), ("--verbose", verbose)]

/-- The flag under all its spellings, for messages. -/
def name (f : Flag) : String :=
  "/".intercalate ((spellings.filter (·.2 = f)).map (·.1))

def takesValue : Flag → Bool
  | output | format | keyword | config => true
  | _ => false

end Flag

/-- What is wrong with a command line. -/
inductive Misuse
  | ambiguous (word : String) (matching : List String)
  | expectedValue (flag : Flag)
  | uselessValue (flag : Flag) (value : String)
  | invalidFormat (value : String)
  | noInput
  | unrecognized (words : List String)
  deriving DecidableEq, Repr

def Misuse.message : Misuse → String
  | ambiguous word matching =>
    "ambiguous option: " ++ word ++ " could match " ++ ", ".intercalate matching
  | expectedValue flag => "argument " ++ flag.name ++ ": expected one argument"
  | uselessValue flag value =>
    "argument " ++ flag.name ++ ": ignored explicit argument " ++ quoted value
  | invalidFormat value =>
    "argument " ++ Flag.format.name ++ ": invalid choice: " ++ quoted value ++ " (choose from " ++
      ", ".intercalate (Format.all.map fun f => quoted f.name) ++ ")"
  | noInput => "the following arguments are required: input"
  | unrecognized words => "unrecognized arguments: " ++ " ".intercalate words

/-- What a word of the command line is. -/
inductive Word
  | plain (text : String)
  /-- A flag as it is spelled, and the value joined to it. -/
  | option (flag : Flag) (short : Bool) (value : Option String)
  | unknown (text : String)
  /-- The double dash that ends the flags. -/
  | dashes
  deriving DecidableEq, Repr

namespace Word

/-- Decimal digits, or a decimal fraction whose whole part may be missing. -/
def isDecimalNumber (s : List Char) : Bool :=
  let whole := s.takeWhile isDecimal
  match s.drop whole.length with
  | [] => !whole.isEmpty
  | '.' :: fraction => !fraction.isEmpty && fraction.all isDecimal
  | _ => false

/-- A decimal number behind a dash. One line feed at the end is passed over. -/
def isNegativeNumber (s : List Char) : Bool :=
  match s with
  | '-' :: rest => isDecimalNumber (if rest.getLast? = some '\n' then rest.dropLast else rest)
  | _ => false

/-- The text before the first equals sign, and the text after it if there is one. -/
def splitAtEquals (s : List Char) : List Char × Option String :=
  let front := s.takeWhile (· ≠ '=')
  match s.drop front.length with
  | [] => (front, none)
  | _ :: value => (front, some (String.ofList value))

/-- Flags of which a word with two dashes is an abbreviation. -/
def abbreviated (front : List Char) : List (String × Flag) :=
  Flag.spellings.filter fun (spelling, _) => front.isPrefixOf spelling.toList

/-- A word that begins with a dash and spells no flag exactly. -/
def classifyDashed (word : String) (s : List Char) : Except Misuse Word :=
  let (front, value) := splitAtEquals s
  let short := s.take 2 != ['-', '-']
  match value, Flag.spellings.lookup (String.ofList front) with
  | some _, some flag => .ok (.option flag short value)
  | _, _ =>
    let candidates := abbreviated (if short then s.take 2 else front)
    match candidates with
    | _ :: _ :: _ => .error (.ambiguous word (candidates.map (·.1)))
    | [(_, flag)] =>
      .ok (.option flag short (if short then some (String.ofList (s.drop 2)) else value))
    | [] => .ok (if isNegativeNumber s || s.contains ' ' then .plain word else .unknown word)

def classify (word : String) : Except Misuse Word :=
  match word.toList with
  | '-' :: rest =>
    match Flag.spellings.lookup word with
    | some flag => .ok (.option flag (rest.head? ≠ some '-') none)
    | none => if rest.isEmpty then .ok (.plain word) else classifyDashed word ('-' :: rest)
  | _ => .ok (.plain word)

/-- Classifies the words up to the first double dash; behind it all are plain. -/
def classifyAll : List String → Except Misuse (List Word)
  | [] => .ok []
  | word :: more =>
    if word = "--" then .ok (.dashes :: more.map .plain)
    else do return (← classify word) :: (← classifyAll more)

end Word

/-- The command line as it was given. A flag that takes a value may be left blank. A blank output
or configuration is none. -/
structure Arguments where
  input : String
  output : Option String := none
  /-- The last format asked for, `some none` if it was left blank. -/
  format : Option (Option Format) := none
  /-- One entry for each keyword flag, `none` for a blank one. -/
  keywords : List (Option String) := []
  noCloseTopLevel : Bool := false
  config : Option String := none
  watch : Bool := false
  debug : Bool := false
  verbose : Bool := false
  deriving DecidableEq, Repr

/-- Why no arguments come out of a command line: help was asked for, or it was misused. -/
inductive Stop
  | help
  | misuse (m : Misuse)
  deriving DecidableEq, Repr

namespace Arguments

/-- A command line partly read: the input if it was there, and what nobody asked for. -/
structure Draft where
  given : Arguments
  hasInput : Bool
  extras : List String
  deriving DecidableEq, Repr

def Draft.empty : Draft := ⟨{ input := "" }, false, []⟩

def Draft.addExtra (d : Draft) (word : String) : Draft :=
  { d with extras := d.extras ++ [word] }

def Draft.setInput (d : Draft) (word : String) : Draft :=
  { d with given := { d.given with input := word }, hasInput := true }

/-- The effect of a flag with its value. A flag that takes a value and has none is blank. -/
def Draft.apply (d : Draft) (flag : Flag) (value : Option String) : Except Stop Draft :=
  let set (a : Arguments) : Except Stop Draft := .ok { d with given := a }
  match flag with
  | .help => .error .help
  | .output => set { d.given with output := value }
  | .format =>
    match value with
    | none => set { d.given with format := some none }
    | some name =>
      match Format.ofName? name with
      | some f => set { d.given with format := some (some f) }
      | none => .error (.misuse (.invalidFormat name))
  | .keyword => set { d.given with keywords := d.given.keywords ++ [value] }
  | .noCloseTopLevel => set { d.given with noCloseTopLevel := true }
  | .config => set { d.given with config := value }
  | .watch => set { d.given with watch := true }
  | .debug => set { d.given with debug := true }
  | .verbose => set { d.given with verbose := true }

/-- The flags that one word stands for, and the value of the last one, absent if the next word is
to be taken. -/
structure Joined where
  before : List Flag
  last : Flag
  value : Option String
  deriving DecidableEq, Repr

/-- Takes short flags off the text joined to a short flag, as long as they take no value. -/
def joinShort (flag : Flag) : List Char → Except Misuse Joined
  | [] => .ok ⟨[], flag, none⟩
  | c :: rest =>
    if flag.takesValue then .ok ⟨[], flag, some (String.ofList (c :: rest))⟩
    else match Flag.spellings.lookup (String.ofList ['-', c]) with
      | none => .error (.uselessValue flag (String.ofList (c :: rest)))
      | some next => do
        let joined ← joinShort next rest
        return { joined with before := flag :: joined.before }

/-- Resolves the value joined to a flag. -/
def join (flag : Flag) (short : Bool) : Option String → Except Misuse Joined
  | none => .ok ⟨[], flag, none⟩
  | some value =>
    if flag.takesValue then .ok ⟨[], flag, some value⟩
    else if short && value ≠ "" then joinShort flag value.toList
    else .error (.uselessValue flag value)

/-- The value of a flag to which a text is joined. A double dash leaves the flag blank. -/
def joinedValue (text : String) : Option String :=
  if text = "--" then none else some text

/-- Applies the flags of one word. -/
def Draft.applyJoined (d : Draft) (j : Joined) (value : Option String) : Except Stop Draft := do
  let d ← j.before.foldlM (fun d flag => d.apply flag none) d
  d.apply j.last value

/-- Reads the words from left to right. -/
def read : Draft → List Word → Except Stop Draft
  | d, [] => .ok d
  | d, .unknown text :: more => read (d.addExtra text) more
  | d, .plain text :: more =>
    if d.hasInput then read (d.addExtra text) more
    else match more with
      | .dashes :: more => read (d.setInput text) more
      | more => read (d.setInput text) more
  | d, .dashes :: more =>
    if d.hasInput then read (d.addExtra "--") more
    else match more with
      | .plain text :: more => read (d.setInput text) more
      | more => read (d.addExtra "--") more
  | d, .option flag short value :: more =>
    match join flag short value with
    | .error m => .error (.misuse m)
    | .ok j =>
      match j.value, j.last.takesValue, more with
      | some text, _, more => do read (← d.applyJoined j (joinedValue text)) more
      | none, false, more => do read (← d.applyJoined j none) more
      | none, true, .plain text :: more => do read (← d.applyJoined j (some text)) more
      | none, true, _ => .error (.misuse (.expectedValue j.last))
termination_by _ words => words.length

def parse (words : List String) : Except Stop Arguments := do
  let words ← (Word.classifyAll words).mapError Stop.misuse
  let d ← read .empty words
  if !d.hasInput then throw (.misuse .noInput)
  if d.extras ≠ [] then throw (.misuse (.unrecognized d.extras))
  return d.given

end Arguments

end OffsideRule.Program
