import Mathlib.Computability.Language
import OffsideRule.Proofs.Recognition

/-! Numerals. The language of numerals is regular: hexadecimal digits behind their mark, or digits
with an optional fraction and an optional exponent. The scanner takes the longest numeral at the
front of a text. Each part of a numeral begins with a character that no part before it can hold, so
a part that is taken up to its last digit never stands in the way of the next one. -/

namespace OffsideRule

namespace Numeral

/-- Nonempty words of characters of one class. -/
def runs (p : Char → Bool) : Language Char :=
  {w | w ≠ [] ∧ ∀ c ∈ w, p c = true}

def digits : Language Char :=
  runs isDigit

def fraction : Language Char :=
  {['.']} * digits

def exponent : Language Char :=
  ({['e']} + {['E']}) * (1 + ({['+']} + {['-']})) * digits

def hexadecimal : Language Char :=
  {['0']} * ({['x']} + {['X']}) * runs isHexDigit

def decimal : Language Char :=
  digits * (1 + fraction) * (1 + exponent)

/-- What may follow the digits of a numeral: a fraction, an exponent, or both. -/
def parts : Language Char :=
  fraction * (1 + exponent) + exponent

/-- The decimal numerals that contain a fraction or an exponent. -/
def parted : Language Char :=
  digits * parts

end Numeral

def numerals : Language Char :=
  Numeral.hexadecimal + Numeral.decimal

/-- `w` is the longest front of `s` in a language. -/
structure IsLongest (l : Language Char) (s w : Text) : Prop where
  front : w <+: s
  mem : w ∈ l
  length_le : ∀ v, v <+: s → v ∈ l → v.length ≤ w.length

namespace Numeral

open Language

variable {s t w : Text} {p : Char → Bool}

theorem mem_word {v : Text} : w ∈ ({v} : Language Char) ↔ w = v :=
  Iff.rfl

theorem mem_fraction : w ∈ fraction ↔ ∃ ds ∈ digits, w = '.' :: ds := by
  simp only [fraction, mem_mul, mem_word]
  constructor
  · rintro ⟨_, rfl, ds, hds, rfl⟩
    exact ⟨ds, hds, rfl⟩
  · rintro ⟨ds, hds, rfl⟩
    exact ⟨_, rfl, ds, hds, rfl⟩

theorem mem_exponent : w ∈ exponent ↔ ∃ e sign ds, (e = 'e' ∨ e = 'E') ∧
    (sign = [] ∨ sign = ['+'] ∨ sign = ['-']) ∧ ds ∈ digits ∧ w = e :: (sign ++ ds) := by
  simp only [exponent, mem_mul, mem_add, mem_one, mem_word]
  constructor
  · rintro ⟨_, ⟨_, rfl | rfl, sign, hsign, rfl⟩, ds, hds, rfl⟩
    · exact ⟨'e', sign, ds, Or.inl rfl, hsign, hds, rfl⟩
    · exact ⟨'E', sign, ds, Or.inr rfl, hsign, hds, rfl⟩
  · rintro ⟨e, sign, ds, he, hsign, hds, rfl⟩
    exact ⟨_, ⟨[e], by simpa using he, sign, hsign, rfl⟩, ds, hds, rfl⟩

theorem mem_hexadecimal : w ∈ hexadecimal ↔ ∃ x ds, (x = 'x' ∨ x = 'X') ∧ ds ∈ runs isHexDigit ∧
    w = '0' :: x :: ds := by
  simp only [hexadecimal, mem_mul, mem_add, mem_word]
  constructor
  · rintro ⟨_, ⟨_, rfl, _, rfl | rfl, rfl⟩, ds, hds, rfl⟩
    · exact ⟨'x', ds, Or.inl rfl, hds, rfl⟩
    · exact ⟨'X', ds, Or.inr rfl, hds, rfl⟩
  · rintro ⟨x, ds, hx, hds, rfl⟩
    exact ⟨_, ⟨_, rfl, [x], by simpa using hx, rfl⟩, ds, hds, rfl⟩

/-- Decimal numerals are digits alone or contain a part. -/
theorem decimal_eq : decimal = digits + parted := by
  calc decimal = digits * ((1 + fraction) * (1 + exponent)) := mul_assoc _ _ _
    _ = digits * (1 + parts) := by rw [add_mul, one_mul, add_assoc, add_comm exponent, parts]
    _ = digits + parted := by rw [mul_add, mul_one, parted]

section Scanners

/-- Length of the fraction and the exponent at the front. -/
def partsLength (s : Text) : Nat :=
  fractionLength s + exponentLength (s.drop (fractionLength s))

theorem take_runLength_mem (h : 0 < runLength p s) : s.take (runLength p s) ∈ runs p := by
  refine ⟨fun hnil => ?_, fun c hc => of_mem_take_runLength hc⟩
  have hlength := congrArg List.length hnil
  rw [List.length_take_of_le (runLength_le_length p s), List.length_nil] at hlength
  omega

theorem runLength_of_runs (h : w ∈ runs p) (t : Text) :
    runLength p (w ++ t) = w.length + runLength p t :=
  runLength_append h.2 t

theorem runLength_of_not {c : Char} (h : p c = false) (t : Text) : runLength p (c :: t) = 0 := by
  simp [runLength, h]

/-- A fraction is taken with all digits behind it, and it is no digit that it begins with. -/
theorem fractionLength_of_fraction (h : w ∈ fraction) (t : Text) :
    fractionLength (w ++ t) = w.length + digitsLength t ∧ digitsLength (w ++ t) = 0 := by
  obtain ⟨ds, hds, rfl⟩ := mem_fraction.mp h
  have hlength : digitsLength (ds ++ t) = ds.length + digitsLength t := runLength_of_runs hds t
  have hpos := List.length_pos_iff.mpr hds.1
  constructor
  · rw [List.cons_append, fractionLength_cons, if_pos ⟨rfl, by omega⟩, hlength, List.length_cons]
    omega
  · exact runLength_of_not (by decide +kernel) _

theorem signLength_of_sign {sign ds : Text} (h : sign = [] ∨ sign = ['+'] ∨ sign = ['-'])
    (hds : ds ∈ digits) : signLength (sign ++ (ds ++ t)) = sign.length := by
  rcases h with rfl | rfl | rfl
  · obtain ⟨c, more, rfl⟩ := List.exists_cons_of_ne_nil hds.1
    have hdigit : isDigit c = true := hds.2 c List.mem_cons_self
    have hc : ¬ (c = '+' ∨ c = '-') := by
      rintro (rfl | rfl)
      · exact absurd hdigit (by decide +kernel)
      · exact absurd hdigit (by decide +kernel)
    simp [signLength, hc]
  · rfl
  · rfl

/-- An exponent is taken with all digits behind it, and it begins neither with a digit nor with a
decimal point. -/
theorem exponentLength_of_exponent (h : w ∈ exponent) (t : Text) :
    exponentLength (w ++ t) = w.length + digitsLength t ∧ fractionLength (w ++ t) = 0 ∧
      digitsLength (w ++ t) = 0 := by
  obtain ⟨e, sign, ds, he, hsign, hds, rfl⟩ := mem_exponent.mp h
  have hlength : digitsLength (ds ++ t) = ds.length + digitsLength t := runLength_of_runs hds t
  have hpos := List.length_pos_iff.mpr hds.1
  refine ⟨?_, ?_, ?_⟩
  · rw [List.cons_append, List.append_assoc, exponentLength_cons, signLength_of_sign hsign hds,
      List.drop_left, if_pos ⟨he, by omega⟩, hlength, List.length_cons, List.length_append]
    omega
  · rcases he with rfl | rfl <;> simp [fractionLength_cons]
  · rcases he with rfl | rfl
    · exact runLength_of_not (by decide +kernel) _
    · exact runLength_of_not (by decide +kernel) _

/-- A hexadecimal numeral is taken with all digits behind it. -/
theorem hexLength_of_hexadecimal (h : w ∈ hexadecimal) (t : Text) :
    w.length ≤ hexLength (w ++ t) ∧ 0 < hexLength (w ++ t) := by
  obtain ⟨x, ds, hx, hds, rfl⟩ := mem_hexadecimal.mp h
  have hlength := runLength_of_runs hds t
  have hpos := List.length_pos_iff.mpr hds.1
  rw [List.cons_append, List.cons_append, hexLength_cons_cons, if_pos ⟨⟨rfl, hx⟩, by omega⟩, hlength,
    List.length_cons, List.length_cons]
  exact ⟨by omega, by omega⟩

theorem take_fractionLength_mem (h : 0 < fractionLength s) :
    s.take (fractionLength s) ∈ fraction := by
  cases s with
  | nil => contradiction
  | cons c more =>
    rw [fractionLength_cons] at h ⊢
    split at h
    · next hc =>
      rw [if_pos hc, List.take_succ_cons, hc.1]
      exact mem_fraction.mpr ⟨_, take_runLength_mem hc.2, rfl⟩
    · contradiction

theorem take_signLength (s : Text) :
    s.take (signLength s) = [] ∨ s.take (signLength s) = ['+'] ∨ s.take (signLength s) = ['-'] := by
  cases s with
  | nil => exact Or.inl rfl
  | cons c more =>
    simp only [signLength]
    split
    · next hc => simpa using hc
    · exact Or.inl rfl

theorem take_exponentLength_mem (h : 0 < exponentLength s) :
    s.take (exponentLength s) ∈ exponent := by
  cases s with
  | nil => contradiction
  | cons c more =>
    rw [exponentLength_cons] at h ⊢
    split at h
    · next hc =>
      rw [if_pos hc, Nat.add_assoc, Nat.add_comm 1, List.take_succ_cons, List.take_add]
      exact mem_exponent.mpr ⟨c, _, _, hc.1, take_signLength more, take_runLength_mem hc.2, rfl⟩
    · contradiction

theorem take_hexLength_mem (h : 0 < hexLength s) : s.take (hexLength s) ∈ hexadecimal := by
  match s with
  | [] => contradiction
  | [c] =>
    rw [hexLength_singleton] at h
    contradiction
  | c :: x :: more =>
    rw [hexLength_cons_cons] at h ⊢
    split at h
    · next hc =>
      rw [if_pos hc, List.take_succ_cons, List.take_succ_cons, hc.1.1]
      exact mem_hexadecimal.mpr ⟨x, _, hc.1.2, take_runLength_mem hc.2, rfl⟩
    · contradiction

theorem take_partsLength_mem (h : 0 < partsLength s) : s.take (partsLength s) ∈ parts := by
  rw [partsLength, List.take_add]
  rw [partsLength] at h
  have hexponent : 0 < exponentLength (s.drop (fractionLength s)) →
      (s.drop (fractionLength s)).take (exponentLength (s.drop (fractionLength s))) ∈ exponent :=
    take_exponentLength_mem
  rcases Nat.eq_zero_or_pos (fractionLength s) with hzero | hpos
  · rw [hzero] at h hexponent ⊢
    exact Or.inr (hexponent (by omega))
  · refine Or.inl (append_mem_mul (take_fractionLength_mem hpos) ?_)
    rcases Nat.eq_zero_or_pos (exponentLength (s.drop (fractionLength s))) with hnone | hsome
    · rw [hnone]
      exact Or.inl rfl
    · exact Or.inr (hexponent hsome)

/-- Parts are taken whole, and they begin with no digit. -/
theorem partsLength_of_parts (h : w ∈ parts) (t : Text) :
    w.length ≤ partsLength (w ++ t) ∧ digitsLength (w ++ t) = 0 := by
  rw [partsLength]
  rcases h with h | h
  · obtain ⟨f, hf, e, he | he, rfl⟩ := mem_mul.mp h
    · rw [(mem_one e).mp he, List.append_nil]
      obtain ⟨hfraction, hdigits⟩ := fractionLength_of_fraction hf t
      exact ⟨by omega, hdigits⟩
    · obtain ⟨hfraction, hdigits⟩ := fractionLength_of_fraction hf (e ++ t)
      obtain ⟨hexponent, -, hnone⟩ := exponentLength_of_exponent he t
      rw [hnone, Nat.add_zero] at hfraction
      rw [List.append_assoc, hfraction, List.drop_left, hexponent, List.length_append]
      exact ⟨by omega, hdigits⟩
  · obtain ⟨hexponent, hfraction, hdigits⟩ := exponentLength_of_exponent h t
    rw [hfraction, List.drop_zero, hexponent]
    exact ⟨by omega, hdigits⟩

theorem ne_nil_of_parts (h : w ∈ parts) : w ≠ [] := by
  rcases h with h | h
  · obtain ⟨f, hf, e, -, rfl⟩ := mem_mul.mp h
    obtain ⟨ds, -, rfl⟩ := mem_fraction.mp hf
    exact List.cons_ne_nil _ _
  · obtain ⟨e, sign, ds, -, -, -, rfl⟩ := mem_exponent.mp h
    exact List.cons_ne_nil _ _

/-- Length of the decimal numeral at the front. -/
def decimalLength (s : Text) : Nat :=
  digitsLength s + partsLength (s.drop (digitsLength s))

/-- The digits of a numeral with parts end where the parts begin. -/
theorem decimalLength_of_parted (h : w ∈ parted) (t : Text) :
    w.length ≤ decimalLength (w ++ t) ∧ digitsLength (w ++ t) < decimalLength (w ++ t) := by
  obtain ⟨whole, hwhole, part, hpart, rfl⟩ := mem_mul.mp h
  obtain ⟨hparts, hnone⟩ := partsLength_of_parts hpart t
  have hdigits : digitsLength (whole ++ (part ++ t)) = whole.length + digitsLength (part ++ t) :=
    runLength_of_runs hwhole (part ++ t)
  rw [hnone, Nat.add_zero] at hdigits
  have hpos := List.length_pos_iff.mpr (ne_nil_of_parts hpart)
  rw [decimalLength, List.append_assoc, hdigits, List.drop_left, List.length_append]
  exact ⟨by omega, by omega⟩

theorem length_le_decimalLength (h : w ∈ decimal) (t : Text) :
    w.length ≤ decimalLength (w ++ t) := by
  rw [decimal_eq] at h
  rcases h with h | h
  · have hdigits : digitsLength (w ++ t) = w.length + digitsLength t := runLength_of_runs h t
    rw [decimalLength]
    omega
  · exact (decimalLength_of_parted h t).1

theorem take_decimalLength_mem_parted (h : 0 < digitsLength s)
    (hparts : digitsLength s < decimalLength s) : s.take (decimalLength s) ∈ parted := by
  rw [decimalLength] at hparts ⊢
  rw [List.take_add]
  exact append_mem_mul (take_runLength_mem h) (take_partsLength_mem (by omega))

theorem take_decimalLength_mem (h : 0 < digitsLength s) : s.take (decimalLength s) ∈ decimal := by
  rw [decimal_eq]
  by_cases hparts : digitsLength s < decimalLength s
  · exact Or.inr (take_decimalLength_mem_parted h hparts)
  · have hdigits : decimalLength s = digitsLength s := by
      rw [decimalLength] at hparts ⊢
      omega
    rw [hdigits]
    exact Or.inl (take_runLength_mem h)

/-- Where a hexadecimal numeral stands, its first digit is all there is of a decimal one. -/
theorem decimalLength_of_hexLength (h : 0 < hexLength s) : decimalLength s = 1 := by
  obtain ⟨x, ds, hx, -, htake⟩ := mem_hexadecimal.mp (take_hexLength_mem h)
  obtain ⟨t, ht⟩ := List.take_prefix (hexLength s) s
  rw [htake] at ht
  have hzero : isDigit '0' = true := by decide +kernel
  have hmark : isDigit x = false := by
    rcases hx with rfl | rfl
    · decide +kernel
    · decide +kernel
  have hdigits : digitsLength s = 1 := by
    rw [← ht]
    simp [digitsLength, runLength, hzero, hmark]
  have hpoint : ¬ x = '.' := by
    rcases hx with rfl | rfl <;> decide
  have hexponent : ¬ (x = 'e' ∨ x = 'E') := by
    rcases hx with rfl | rfl <;> decide
  rw [decimalLength, hdigits, ← ht]
  simp [partsLength, fractionLength_cons, exponentLength_cons, hpoint, hexponent]

end Scanners

theorem numberExtent_of_hexLength (h : 0 < hexLength s) :
    numberExtent s = (.integer, hexLength s) := by
  rw [numberExtent, if_pos h]

theorem numberExtent_of_decimal (h : ¬ 0 < hexLength s) :
    numberExtent s =
      (if digitsLength s < decimalLength s then .float else .integer, decimalLength s) := by
  simp only [numberExtent, if_neg h, decimalLength, partsLength, List.drop_drop, Nat.add_assoc,
    Nat.lt_add_right_iff_pos]

/-- The scanner takes the longest numeral. -/
theorem isLongest_numberExtent (h : 0 < digitsLength s) :
    IsLongest numerals s (s.take (numberExtent s).2) := by
  have hle := numberExtent_le_length s
  by_cases hhex : 0 < hexLength s
  · rw [numberExtent_of_hexLength hhex] at hle ⊢
    refine ⟨List.take_prefix _ _, Or.inl (take_hexLength_mem hhex), ?_⟩
    rintro v ⟨t, rfl⟩ hv
    rw [List.length_take_of_le hle]
    rcases hv with hv | hv
    · exact (hexLength_of_hexadecimal hv t).1
    · have hlength := length_le_decimalLength hv t
      rw [decimalLength_of_hexLength hhex] at hlength
      simp only
      omega
  · rw [numberExtent_of_decimal hhex] at hle ⊢
    refine ⟨List.take_prefix _ _, Or.inr (take_decimalLength_mem h), ?_⟩
    rintro v ⟨t, rfl⟩ hv
    rw [List.length_take_of_le hle]
    rcases hv with hv | hv
    · exact absurd (hexLength_of_hexadecimal hv t).2 hhex
    · exact length_le_decimalLength hv t

/-- The scanner tells by its parts what kind of numeral it takes. -/
theorem numberExtent_eq_float_iff (h : 0 < digitsLength s) :
    (numberExtent s).1 = .float ↔
      s.take (numberExtent s).2 ∉ hexadecimal ∧ s.take (numberExtent s).2 ∈ parted := by
  by_cases hhex : 0 < hexLength s
  · rw [numberExtent_of_hexLength hhex]
    simp [take_hexLength_mem hhex]
  · rw [numberExtent_of_decimal hhex]
    have hsplit := List.take_append_drop (decimalLength s) s
    have hhexadecimal : s.take (decimalLength s) ∉ hexadecimal := by
      intro hmem
      have hpos := (hexLength_of_hexadecimal hmem (s.drop (decimalLength s))).2
      rw [hsplit] at hpos
      exact hhex hpos
    constructor
    · intro hkind
      refine ⟨hhexadecimal, take_decimalLength_mem_parted h ?_⟩
      by_contra hparts
      simp [hparts] at hkind
    · rintro ⟨-, hparted⟩
      have hparts := (decimalLength_of_parted hparted (s.drop (decimalLength s))).2
      rw [hsplit] at hparts
      simp [hparts]

end Numeral

/-- At each digit at which a token begins, a source is read as the longest numeral that stands
there. It is a floating-point number if it is not hexadecimal and contains a fraction or an
exponent, and an integer otherwise. -/
theorem numbers_longest {source : Text} {p : Nat} {c : Char} (hp : Boundary source p)
    (hc : source[p]? = some c) (hdigit : isDigit c = true) :
    ∃ kind w, (∀ kind' w', (Pass.run (.start source)).Emits (Cursor.ofOffset source p).position
        kind' w' ↔ kind' = kind ∧ w' = w) ∧
      IsLongest numerals (source.drop p) w ∧
      (kind = .float ↔ w ∉ Numeral.hexadecimal ∧ w ∈ Numeral.parted) ∧
      (kind = .float ∨ kind = .integer) := by
  obtain ⟨front, hfront⟩ := hp.reads_ofOffset
  have hrest : source.drop p = c :: source.drop (p + 1) := Cursor.rest_ofOffset hc
  have hdigits : 0 < digitsLength (source.drop p) := by
    rw [hrest]
    exact runLength_pos hdigit _
  have hread : Lexeme.read (Cursor.ofOffset source p).rest =
      .ok ⟨(numberExtent (source.drop p)).1, (numberExtent (source.drop p)).2⟩ := by
    rw [Cursor.rest_ofOffset hc, hrest]
    exact Lexeme.read_of_heads (.number hdigit)
  refine ⟨_, _, fun kind w => ?_, Numeral.isLongest_numberExtent hdigits,
    Numeral.numberExtent_eq_float_iff hdigits, (Lexeme.numberExtent_kind _).symm⟩
  rw [hfront.emits_iff (by simp [Cursor.rest_ofOffset hc]), hread]
  constructor
  · rintro ⟨_, hlx, hkind, hw⟩
    cases hlx
    exact ⟨hkind, hw⟩
  · rintro ⟨hkind, hw⟩
    exact ⟨_, rfl, hkind, hw⟩

/-- A numeral with a fraction, whose exponent lacks its digits. -/
def openExponent : Text :=
  "10.5e-x".toList

/-- The numeral ends before the exponent. -/
theorem numbers_longest_openExponent :
    Boundary openExponent 0 ∧ openExponent[0]? = some '1' ∧ isDigit '1' = true ∧
      (Pass.run (.start openExponent)).Emits .origin .float "10.5".toList ∧
      IsLongest numerals openExponent "10.5".toList ∧
      "10.5".toList ∉ Numeral.hexadecimal ∧ "10.5".toList ∈ Numeral.parted := by
  have hboundary : Boundary openExponent 0 :=
    Or.inl ⟨⟨.float, "10.5".toList, .origin, ⟨1, 5, 4⟩⟩, by decide +kernel, rfl⟩
  have hdigit : isDigit '1' = true := by decide +kernel
  have hemits : (Pass.run (.start openExponent)).Emits .origin .float "10.5".toList := by
    decide +kernel
  obtain ⟨kind, w, hunique, hlongest, hfloat, -⟩ := numbers_longest hboundary rfl hdigit
  obtain ⟨rfl, rfl⟩ := (hunique _ _).mp hemits
  exact ⟨hboundary, rfl, hdigit, hemits, hlongest, hfloat.mp rfl⟩

end OffsideRule
