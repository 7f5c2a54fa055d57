/-! Text is the list of its characters, so that lengths and offsets count characters. A slice
may name its ends from the front or, with a negative index, from the back. -/

namespace OffsideRule

abbrev Text := List Char

namespace Text

/-- The offset an index stands for in a text of length `n`: a negative index counts from the end,
and an index outside the text stands for the nearer end. -/
def clamp (n : Nat) (i : Int) : Nat :=
  if i < 0 then (n + i).toNat else min i.toNat n

/-- The characters from index `a` up to index `b`. -/
def slice (s : Text) (a b : Int) : Text :=
  let first := clamp s.length a
  (s.drop first).take (clamp s.length b - first)

theorem clamp_natCast (n i : Nat) : clamp n i = min i n := by
  rw [clamp, if_neg (by omega), Int.toNat_natCast]

/-- Between two offsets of a text a slice is what stands there. -/
theorem slice_natCast {s : Text} {a b : Nat} (hab : a ≤ b) (hb : b ≤ s.length) :
    s.slice a b = (s.drop a).take (b - a) := by
  simp only [slice, clamp_natCast]
  rw [Nat.min_eq_left hb, Nat.min_eq_left (Nat.le_trans hab hb)]

theorem slice_self (s : Text) (a : Int) : s.slice a a = [] := by
  rw [slice, Nat.sub_self, List.take_zero]

theorem slice_length (s : Text) : s.slice 0 s.length = s := by
  have hzero : clamp s.length 0 = 0 := by simp [clamp]
  rw [slice, hzero, clamp_natCast, Nat.min_self, Nat.sub_zero, List.drop_zero, List.take_length]

theorem slice_append {s : Text} {a b c : Nat} (hab : a ≤ b) (hbc : b ≤ c) (hc : c ≤ s.length) :
    s.slice a b ++ s.slice b c = s.slice a c := by
  have hdrop : s.drop b = (s.drop a).drop (b - a) := by
    rw [List.drop_drop, Nat.add_sub_cancel' hab]
  rw [slice_natCast hab (Nat.le_trans hbc hc), slice_natCast hbc hc,
    slice_natCast (Nat.le_trans hab hbc) hc, hdrop, ← List.take_add]
  congr 1
  omega

/-- A slice of a slice is a slice of the whole. -/
theorem slice_slice {s : Text} {a b x y : Nat} (hb : b ≤ s.length) (hxy : x ≤ y) (hy : a + y ≤ b) :
    (s.slice a b).slice x y = s.slice (a + x : Nat) (a + y : Nat) := by
  have hlength : y ≤ (s.slice a b).length := by
    rw [slice_natCast (by omega) hb, List.length_take, List.length_drop]
    omega
  rw [slice_natCast hxy hlength, slice_natCast (by omega) hb, slice_natCast (by omega) (by omega),
    List.drop_take, List.drop_drop, List.take_take, Nat.min_eq_left (by omega)]
  congr 1
  omega

/-- Number of line feeds. -/
def lineFeeds (s : Text) : Nat :=
  s.count '\n'

end Text

/-- Pads on the right to at least `width` characters. -/
def padRight (width : Nat) (s : String) : String :=
  s ++ String.ofList (List.replicate (width - s.length) ' ')

/-- Pads on the left to at least `width` characters. -/
def padLeft (width : Nat) (s : String) : String :=
  String.ofList (List.replicate (width - s.length) ' ') ++ s

end OffsideRule
