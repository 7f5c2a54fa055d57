import OffsideRule.Toml.Reader

/-! Values that hold no others: strings, numbers, dates and times. -/

namespace OffsideRule.Toml

section Strings

/-- A string in single quotes, or in three of them, from behind its opening mark. It is taken as it
stands. -/
def literalString (mark : Text) (forbidden : Char → Bool) : Parser Text := fun s =>
  match before? mark s with
  | none => refuse (.unclosed mark) []
  | some body => do
    checkFree forbidden body (s.drop body.length)
    return (body, s.drop (body.length + mark.length))

/-- A character given by the hexadecimal digits of its code point. -/
def codePoint (width : Nat) : Parser Text := fun s =>
  match (s.take width).mapM (digit? 16) with
  | none => refuse .hexValue s
  | some ds =>
    let n := ofDigits 16 ds
    if ds.length < width then refuse .hexValue s
    else if n.isValidChar then .ok ([Char.ofNat n], s.drop width)
    else refuse .noScalarValue (s.drop width)

def escapes : List (Char × Char) :=
  [('b', '\x08'), ('t', '\t'), ('n', '\n'), ('f', '\x0c'), ('r', '\r'), ('"', '"'), ('\\', '\\')]

/-- The text that a backslash and what follows it stand for. -/
def escaped : Parser Text
  | [] => refuse .backslash []
  | 'u' :: rest => codePoint 4 rest
  | 'U' :: rest => codePoint 8 rest
  | c :: rest =>
    match escapes.lookup c with
    | some d => .ok ([d], rest)
    | none => refuse .backslash rest

/-- In a string of several lines a backslash at the end of a line also takes the line end and all
blanks and line ends behind it. -/
def escapedInLines : Parser Text
  | '\n' :: rest => .ok ([], rest.dropWhile isBlank)
  | c :: rest =>
    if isSpace c then
      match skipSpace rest with
      | [] => .ok ([], [])
      | '\n' :: rest => .ok ([], rest.dropWhile isBlank)
      | rest => refuse .backslash rest
    else escaped (c :: rest)
  | [] => escaped []

/-- What a string in double quotes holds, from behind its opening mark. The mark that ends it and
the characters in it that are read so far, the last one first, are given. -/
def basicTurn (mark : Text) (forbidden : Char → Bool) (escaped : Parser Text) (read : Text) :
    Parser (ForInStep Text)
  | [] => refuse .unterminated []
  | '\\' :: rest => do
    let (t, rest) ← escaped rest
    return (.yield (t.reverse ++ read), rest)
  | c :: rest =>
    if mark.isPrefixOf (c :: rest) then .ok (.done read, (c :: rest).drop mark.length)
    else if forbidden c then refuse (.illegalCharacter c) (c :: rest)
    else .ok (.yield (c :: read), rest)

/-- A string in double quotes, from behind its opening mark. Backslashes escape. -/
def basicString (mark : Text) (forbidden : Char → Bool) (escaped : Parser Text) : Parser Text :=
  fun s => do
    let (read, rest) ← loop (basicTurn mark forbidden escaped) [] s
    return (read.reverse, rest)

/-- A string of one line, from behind its opening mark. -/
def lineString (quote : Char) : Parser Text :=
  if quote = '"' then basicString ['"'] isControl escaped else literalString ['\''] isControl

/-- A string of several lines, from behind its opening mark. A line end that comes first does not
count, and up to two quotes before the closing mark do. -/
def linesString (quote : Char) : Parser Text := fun s => do
  let s := if s.head? = some '\n' then s.tail else s
  let mark := List.replicate 3 quote
  let (t, rest) ← if quote = '"' then basicString mark isInnerControl escapedInLines s
    else literalString mark isInnerControl s
  let more := (rest.take 2).takeWhile (· = quote)
  return (t ++ more, rest.drop more.length)

/-- A string of one or several lines, with its opening mark. -/
def string : Reader (Parser Text)
  | c :: rest =>
    if c = '"' || c = '\'' then
      if [c, c].isPrefixOf rest then some (linesString c, rest.drop 2) else some (lineString c, rest)
    else none
  | [] => none

end Strings

section Numbers

/-- A number without a base: its parts as they are written. -/
structure Numeral where
  negative : Bool
  whole : List Nat
  fraction : List Nat
  exponent : Option Int
  deriving DecidableEq, Repr

/-- A sign, if there is one, and whether it is negative. -/
def sign : Text → Bool × Text
  | '+' :: rest => (false, rest)
  | '-' :: rest => (true, rest)
  | s => (false, s)

def signed (negative : Bool) (n : Nat) : Int :=
  if negative then -n else n

/-- Decimal digits without a leading zero. -/
def whole : Reader (List Nat)
  | '0' :: rest => some ([0], rest)
  | s => digits 10 s

/-- The digits behind a point, if there are any. -/
def fraction : Text → List Nat × Text
  | '.' :: rest => (digits 10 rest).getD ([], '.' :: rest)
  | s => ([], s)

/-- An exponent, if there is one. -/
def exponent : Text → Option Int × Text
  | [] => (none, [])
  | c :: s =>
    if c = 'e' || c = 'E' then
      let (negative, first) := sign s
      match digits 10 first with
      | some (ds, rest) => (some (signed negative (ofDigits 10 ds)), rest)
      | none => (none, c :: s)
    else (none, c :: s)

def numeral : Reader Numeral := fun s => do
  let (negative, s) := sign s
  let (whole, s) ← whole s
  let (fraction, s) := fraction s
  let (exponent, s) := exponent s
  return (⟨negative, whole, fraction, exponent⟩, s)

/-- The value of a numeral. It is a float if it has a fraction or an exponent. -/
def Numeral.value (n : Numeral) : Except Refusal Value :=
  if n.fraction.isEmpty && n.exponent.isNone then
    if maxDigits < n.whole.length then .error (.tooManyDigits n.whole.length)
    else .ok (.integer (signed n.negative (ofDigits 10 n.whole)))
  else
    .ok (.float (.ofDecimal n.negative (ofDigits 10 (n.whole ++ n.fraction))
      (n.exponent.getD 0 - n.fraction.length)))

/-- An integer in a base, from behind the mark of the base. -/
def magnitude (base : Nat) : Reader Nat := fun s =>
  (digits base s).map fun (ds, rest) => (ofDigits base ds, rest)

/-- An integer with its base. -/
def based : Reader Nat
  | '0' :: 'x' :: rest => magnitude 16 rest
  | '0' :: 'o' :: rest => magnitude 8 rest
  | '0' :: 'b' :: rest => magnitude 2 rest
  | _ => none

/-- A float that no digits write. -/
def specialFloat : Reader Double := fun s =>
  match sign s with
  | (negative, 'i' :: 'n' :: 'f' :: rest) => some (.infinite negative, rest)
  | (_, 'n' :: 'a' :: 'n' :: rest) => some (.notANumber, rest)
  | _ => none

end Numbers

section Moments

def expect (c : Char) : Reader Unit
  | [] => none
  | d :: rest => if d = c then some ((), rest) else none

/-- Two decimal digits. -/
def twoDigits : Reader Nat
  | c :: d :: rest => do return (10 * (← digit? 10 c) + (← digit? 10 d), rest)
  | _ => none

/-- The millionths of a second behind a point, if there are any. Further digits do not count. -/
def micros : Text → Nat × Text
  | '.' :: rest =>
    let ds := (rest.takeWhile fun c => (digit? 10 c).isSome).filterMap (digit? 10)
    if ds.isEmpty then (0, '.' :: rest)
    else (ofDigits 10 ((ds ++ List.replicate 6 0).take 6), rest.drop ds.length)
  | s => (0, s)

def clock : Reader Clock := fun s => do
  let (hour, s) ← twoDigits s
  let (_, s) ← expect ':' s
  let (minute, s) ← twoDigits s
  let (_, s) ← expect ':' s
  let (second, s) ← twoDigits s
  if h : hour < 24 ∧ minute < 60 ∧ second < 60 then
    let (micro, s) := micros s
    return (⟨⟨hour, h.1⟩, ⟨minute, h.2.1⟩, ⟨second, h.2.2⟩,
      ⟨micro % 1000000, Nat.mod_lt _ (by decide)⟩⟩, s)
  else none

/-- A year, a month and a day, which need not be in the calendar. -/
def date : Reader (Nat × Nat × Nat) := fun s => do
  let (century, s) ← twoDigits s
  let (year, s) ← twoDigits s
  let (_, s) ← expect '-' s
  let (month, s) ← twoDigits s
  let (_, s) ← expect '-' s
  let (day, s) ← twoDigits s
  if 1 ≤ month && month ≤ 12 && 1 ≤ day && day ≤ 31 then
    return ((100 * century + year, month, day), s)
  else none

/-- Hours and minutes, in minutes. -/
def minutes : Reader Int := fun s => do
  let (hour, s) ← twoDigits s
  let (_, s) ← expect ':' s
  let (minute, s) ← twoDigits s
  if hour < 24 && minute < 60 then return (hour * 60 + minute, s) else none

/-- An offset from universal time in minutes, if there is one. -/
def offset (s : Text) : Option Int × Text :=
  match s with
  | 'Z' :: rest | 'z' :: rest => (some 0, rest)
  | '+' :: rest => (minutes rest).elim (none, s) fun (n, rest) => (some n, rest)
  | '-' :: rest => (minutes rest).elim (none, s) fun (n, rest) => (some (-n), rest)
  | s => (none, s)

/-- The time of day behind a date, with its offset, if there is one. -/
def timeOfDay : Reader (Clock × Option Int)
  | c :: rest => do
    if c ≠ 'T' && c ≠ 't' && c ≠ ' ' then none
    let (time, rest) ← clock rest
    let (offset, rest) := offset rest
    return ((time, offset), rest)
  | [] => none

/-- A date, with or without a time of day, or a time of day alone. A date that is not in the
calendar is no value. -/
def moment : Reader (Option Value) := fun s =>
  match date s with
  | some ((year, month, day), rest) =>
    let date? := Date.of? year month day
    match timeOfDay rest with
    | some ((time, offset), rest) => some (date?.map (.dateTime · time offset), rest)
    | none => some (date?.map .date, rest)
  | none => (clock s).map fun (time, rest) => (some (.time time), rest)

end Moments

/-- A value that holds no others. -/
def scalar : Parser Value := fun s => do
  if let some (read, rest) := string s then
    let (t, rest) ← read rest
    return (.string (String.ofList t), rest)
  match s with
  | 't' :: 'r' :: 'u' :: 'e' :: rest => return (.boolean true, rest)
  | 'f' :: 'a' :: 'l' :: 's' :: 'e' :: rest => return (.boolean false, rest)
  | s =>
    if let some (v?, rest) := moment s then
      return (← v?.elim (refuse .moment s) .ok, rest)
    if let some (n, rest) := based s then
      return (.integer n, rest)
    if let some (n, rest) := numeral s then
      return (← n.value, rest)
    if let some (x, rest) := specialFloat s then
      return (.float x, rest)
    refuse .value s

end OffsideRule.Toml
