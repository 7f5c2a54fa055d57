/-! Character classes as tables. A class is a list of inclusive code point ranges in ascending
order, so the search stops at the first range that begins past the character. -/

namespace OffsideRule

/-- Whether `n` lies in one of the ranges of an ascending table. -/
def inRanges (n : Nat) : List (Nat × Nat) → Bool
  | [] => false
  | (lo, hi) :: rest => if n < lo then false else n ≤ hi || inRanges n rest

end OffsideRule
