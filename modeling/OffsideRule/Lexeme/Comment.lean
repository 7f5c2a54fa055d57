import OffsideRule.Lexeme.Class

/-! Blanks and comments. A line comment is a run of two or more dashes that no other symbol
follows, with the rest of its line; block comments nest. -/

namespace OffsideRule

/-- Length of the blanks at the front. A carriage return that ends a line is not among them. -/
def blankLength : Text → Nat
  | [] => 0
  | '\r' :: '\n' :: _ => 0
  | c :: rest => if isBlank c || c = '\r' then blankLength rest + 1 else 0

theorem blankLength_pos {c : Char} {rest : Text} (hc : isBlank c = true ∨ c = '\r')
    (h : ∀ more, c = '\r' → rest = '\n' :: more → False) : 0 < blankLength (c :: rest) := by
  unfold blankLength
  split
  · contradiction
  · next heq => cases heq; exact (h _ rfl rfl).elim
  · next heq => cases heq; simp [hc]

def startsLineComment (s : Text) : Bool :=
  let dashes := runLength (· == '-') s
  2 ≤ dashes && !(s.drop dashes).head?.any isSymbol

/-- Length of the text before the end of the line. -/
def lineLength : Text → Nat
  | [] => 0
  | '\n' :: _ => 0
  | '\r' :: '\n' :: _ => 0
  | _ :: rest => lineLength rest + 1

theorem lineLength_pos {s : Text} (h : startsLineComment s = true) : 0 < lineLength s := by
  match s with
  | [] => simp [startsLineComment, runLength] at h
  | c :: rest =>
    by_cases hc : c = '-'
    · subst hc; simp [lineLength]
    · simp [startsLineComment, runLength, hc] at h

/-- What follows the opening of a block comment that stands inside `outer` others, to the end of
the outermost. -/
def commentBody : (outer : Nat) → Text → Extent
  | _, [] => ⟨0, false⟩
  | outer, '{' :: '-' :: rest => (commentBody (outer + 1) rest).after 2
  | 0, '-' :: '}' :: _ => ⟨2, true⟩
  | outer + 1, '-' :: '}' :: rest => (commentBody outer rest).after 2
  | outer, _ :: rest => (commentBody outer rest).after 1

end OffsideRule
