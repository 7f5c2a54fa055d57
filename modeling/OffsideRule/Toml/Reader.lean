import OffsideRule.Position
import OffsideRule.Toml.Tree

/-! Reading a document from its front, piece by piece. A reader takes what it reads off a text and
returns the rest, or says what is wrong and where. -/

namespace OffsideRule.Toml

/-- What is wrong with a document. -/
inductive Flaw
  | statement
  | lineEnd
  | tableEnd
  | arrayEnd
  | equals
  | keyPart
  | unclosedArray
  | unclosedTable
  | unclosed (mark : Text)
  | unterminated
  | invalidCharacter (c : Char)
  | illegalCharacter (c : Char)
  | backslash
  | hexValue
  | noScalarValue
  | moment
  | value
  | conflict (c : Conflict)
  deriving DecidableEq, Repr

def Flaw.message : Flaw → String
  | statement => "Invalid statement"
  | lineEnd => "Expected newline or end of document after a statement"
  | tableEnd => "Expected ']' at the end of a table declaration"
  | arrayEnd => "Expected ']]' at the end of an array declaration"
  | equals => "Expected '=' after a key in a key/value pair"
  | keyPart => "Invalid initial character for a key part"
  | unclosedArray => "Unclosed array"
  | unclosedTable => "Unclosed inline table"
  | unclosed mark => "Expected " ++ String.ofList (Text.quoted mark)
  | unterminated => "Unterminated string"
  | invalidCharacter c => "Found invalid character " ++ String.ofList (Text.quoted [c])
  | illegalCharacter c => "Illegal character " ++ String.ofList (Text.quoted [c])
  | backslash => "Unescaped '\\' in a string"
  | hexValue => "Invalid hex value"
  | noScalarValue => "Escaped character is not a Unicode scalar value"
  | moment => "Invalid date or datetime"
  | value => "Invalid value"
  | conflict c => c.message

/-- Why a text is not read as a document. -/
inductive Refusal
  /-- The place of the flaw is given by the number of characters from there to the end. -/
  | malformed (flaw : Flaw) (left : Nat)
  /-- A decimal integer has more digits than are read. -/
  | tooManyDigits (count : Nat)
  /-- Values lie too deep in one another. -/
  | tooDeep
  deriving DecidableEq, Repr

/-- The place of a flaw in a text. -/
def placeShown (s : Text) (left : Nat) : String :=
  if left = 0 then "end of document"
  else
    let p := Position.origin.advance (s.take (s.length - left))
    "line " ++ toString p.line ++ ", column " ++ toString p.column

/-- What is wrong with a text, and where. -/
def Flaw.report (f : Flaw) (s : Text) (left : Nat) : String :=
  f.message ++ " (at " ++ placeShown s left ++ ")"

/-- The message about a decimal integer that is too long. -/
def tooManyDigitsMessage (count : Nat) : String :=
  "Exceeds the limit (" ++ toString maxDigits ++ " digits) for integer string conversion: value " ++
    "has " ++ toString count ++ " digits; use sys.set_int_max_str_digits() to increase the limit"

/-- Reads something off the front of a text, if it stands there, and returns the rest. -/
abbrev Reader (α : Type) := Text → Option (α × Text)

/-- A reader that tells why it refuses a text. -/
abbrev Parser (α : Type) := Text → Except Refusal (α × Text)

/-- Refuses a text for a flaw that lies in front of `rest`. -/
def refuse {α : Type} (flaw : Flaw) (rest : Text) : Except Refusal α :=
  .error (.malformed flaw rest.length)

/-- Takes one turn after the other, until one of them is the last. There are at most `turns` of
them. -/
def repeated {α : Type} (turn : α → Parser (ForInStep α)) : (turns : Nat) → α → Parser α
  | 0, _, _ => .error .tooDeep
  | turns + 1, a, s => do
    match ← turn a s with
    | (.yield a, rest) => repeated turn turns a rest
    | (.done a, rest) => return (a, rest)

/-- Takes turns as long as there is text, of which every turn but the last takes some. -/
def loop {α : Type} (turn : α → Parser (ForInStep α)) (a : α) : Parser α :=
  fun s => repeated turn (s.length + 1) a s

def isSpace (c : Char) : Bool :=
  c = ' ' || c = '\t'

def isBlank (c : Char) : Bool :=
  isSpace c || c = '\n'

def skipSpace (s : Text) : Text :=
  s.dropWhile isSpace

/-- Control characters other than the tab stand nowhere in a line. -/
def isControl (c : Char) : Bool :=
  (c.toNat < 32 && c ≠ '\t') || c.toNat = 127

/-- Control characters other than the tab and the line feed stand nowhere in a document. -/
def isInnerControl (c : Char) : Bool :=
  isControl c && c ≠ '\n'

/-- Refuses a text that holds one of the forbidden characters. -/
def checkFree (forbidden : Char → Bool) (body rest : Text) : Except Refusal Unit :=
  match body.dropWhile (!forbidden ·) with
  | [] => .ok ()
  | c :: more => refuse (.invalidCharacter c) (c :: more ++ rest)

/-- The text in front of the first place where the mark stands. -/
def before? (mark : Text) : Text → Option Text
  | [] => none
  | c :: rest =>
    if mark.isPrefixOf (c :: rest) then some [] else (before? mark rest).map (c :: ·)

/-- Skips a comment, if there is one, up to the end of its line. -/
def comment : Parser Unit
  | '#' :: rest => do
    let body := rest.takeWhile (· ≠ '\n')
    checkFree isControl body (rest.drop body.length)
    return ((), rest.drop body.length)
  | s => .ok ((), s)

/-- Skips blanks, line ends and comments. -/
def skipLines : Parser Unit :=
  loop (fun _ s =>
    match s.dropWhile isBlank with
    | '#' :: rest => do
      let (_, rest) ← comment ('#' :: rest)
      return (.yield (), rest)
    | rest => .ok (.done (), rest)) ()

def hexValue? (c : Char) : Option Nat :=
  if '0' ≤ c && c ≤ '9' then some (c.toNat - '0'.toNat)
  else if 'a' ≤ c && c ≤ 'f' then some (c.toNat - 'a'.toNat + 10)
  else if 'A' ≤ c && c ≤ 'F' then some (c.toNat - 'A'.toNat + 10)
  else none

/-- The digit of a base that a character is. -/
def digit? (base : Nat) (c : Char) : Option Nat :=
  (hexValue? c).filter (· < base)

/-- The number that digits of a base stand for. -/
def ofDigits (base : Nat) (digits : List Nat) : Nat :=
  digits.foldl (fun n d => n * base + d) 0

/-- Digits of a base, between which single underscores may stand. -/
def digits (base : Nat) : Reader (List Nat)
  | [] => none
  | c :: rest =>
    match digit? base c, rest with
    | none, _ => none
    | some d, '_' :: more =>
      match digits base more with
      | some (ds, rest) => some (d :: ds, rest)
      | none => some ([d], '_' :: more)
    | some d, more =>
      match digits base more with
      | some (ds, rest) => some (d :: ds, rest)
      | none => some ([d], more)

end OffsideRule.Toml
