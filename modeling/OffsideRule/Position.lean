import OffsideRule.Text.Basic

/-! Positions in a text: a line and a column counted from one, and an offset counted from zero.
Only the line feed begins a new line. -/

namespace OffsideRule

structure Position where
  line : Nat
  column : Nat
  offset : Nat
  deriving DecidableEq, Repr

namespace Position

def origin : Position :=
  ⟨1, 1, 0⟩

/-- The position behind one more character. -/
def next (p : Position) (c : Char) : Position :=
  if c = '\n' then ⟨p.line + 1, 1, p.offset + 1⟩ else ⟨p.line, p.column + 1, p.offset + 1⟩

/-- The position behind a piece of text. -/
def advance (p : Position) (s : Text) : Position :=
  s.foldl next p

@[simp] theorem advance_nil (p : Position) : p.advance [] = p := rfl

theorem advance_append (p : Position) (s t : Text) :
    p.advance (s ++ t) = (p.advance s).advance t :=
  List.foldl_append

end Position

end OffsideRule
