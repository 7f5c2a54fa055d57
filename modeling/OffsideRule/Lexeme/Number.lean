import OffsideRule.Kind
import OffsideRule.Lexeme.Class

/-! Number literals: hexadecimal integers, and decimal digits with an optional fraction and an
optional exponent. A part that lacks its digits is left to the next token. -/

namespace OffsideRule

def digitsLength (s : Text) : Nat :=
  runLength isDigit s

/-- Length of a hexadecimal literal, zero if the text does not start with one. -/
def hexLength : Text → Nat
  | '0' :: x :: rest =>
    let digits := runLength isHexDigit rest
    if (x = 'x' || x = 'X') && 0 < digits then digits + 2 else 0
  | _ => 0

/-- Length of a decimal point and its digits, zero if either is missing. -/
def fractionLength : Text → Nat
  | '.' :: rest => if 0 < digitsLength rest then digitsLength rest + 1 else 0
  | _ => 0

def signLength : Text → Nat
  | c :: _ => if c = '+' || c = '-' then 1 else 0
  | [] => 0

/-- Length of an exponent with its sign and digits, zero if the digits are missing. -/
def exponentLength : Text → Nat
  | c :: rest =>
    let sign := signLength rest
    let digits := digitsLength (rest.drop sign)
    if (c = 'e' || c = 'E') && 0 < digits then 1 + sign + digits else 0
  | [] => 0

/-- Kind and length of the number at the front of a text that starts with a digit. -/
def numberExtent (s : Text) : Kind × Nat :=
  if 0 < hexLength s then (.integer, hexLength s)
  else
    let whole := digitsLength s
    let fraction := fractionLength (s.drop whole)
    let exponent := exponentLength (s.drop (whole + fraction))
    (if 0 < fraction + exponent then .float else .integer, whole + fraction + exponent)

theorem numberExtent_pos {c : Char} (h : isDigit c = true) (rest : Text) :
    0 < (numberExtent (c :: rest)).2 := by
  have := runLength_pos h rest
  simp only [numberExtent, digitsLength] at this ⊢
  split
  · assumption
  · simp only; omega

end OffsideRule
