import OffsideRule.Text.Basic
import OffsideRule.Text.Digit
import OffsideRule.Text.Letter

/-! The character classes of the lexical grammar, and the length of a run of one class at the front
of a text. -/

namespace OffsideRule

/-- Characters that operators are made of. -/
def isSymbol (c : Char) : Bool :=
  "!#$%&*+./<=>?@\\^|-~:".toList.contains c

def isNameStart (c : Char) : Bool :=
  isLetter c || c = '_'

def isNameChar (c : Char) : Bool :=
  isLetter c || isNumber c || c = '_' || c = '\''

/-- Horizontal blanks. A carriage return joins them unless a line feed follows it. -/
def isBlank (c : Char) : Bool :=
  c = ' ' || c = '\t' || c = '\x0c' || c = '\x0b'

def isHexDigit (c : Char) : Bool :=
  "0123456789abcdefABCDEF".toList.contains c

theorem isNameChar_of_isNameStart {c : Char} (h : isNameStart c = true) :
    isNameChar c = true := by
  simp only [isNameStart, isNameChar, Bool.or_eq_true] at h ⊢
  rcases h with h | h <;> simp [h]

/-- The classes of the character at some place in a text, `none` being the end of the text. -/
structure Traits where
  symbol : Bool
  nameStart : Bool
  nameChar : Bool
  deriving DecidableEq, Repr

/-- No operator and no name begins at the end of a text, and no character there ends a name. -/
def Traits.at : Option Char → Traits
  | none => ⟨false, false, true⟩
  | some c => ⟨isSymbol c, isNameStart c, isNameChar c⟩

/-- Number of characters at the front of `s` that satisfy `p`. -/
def runLength (p : Char → Bool) (s : Text) : Nat :=
  (s.takeWhile p).length

theorem runLength_pos {p : Char → Bool} {c : Char} (h : p c = true) (rest : Text) :
    0 < runLength p (c :: rest) := by
  simp [runLength, h]

/-- How far a literal or comment reaches, and whether its closing delimiter was found. -/
structure Extent where
  length : Nat
  closed : Bool
  deriving DecidableEq, Repr

/-- The same extent behind `n` more characters. -/
def Extent.after (n : Nat) (e : Extent) : Extent :=
  { e with length := n + e.length }

@[simp] theorem Extent.after_zero (e : Extent) : e.after 0 = e := by
  simp [after]

theorem Extent.after_after (m n : Nat) (e : Extent) : (e.after n).after m = e.after (m + n) := by
  simp only [after, Nat.add_assoc]

end OffsideRule
