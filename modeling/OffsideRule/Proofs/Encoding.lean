import Mathlib.Tactic.SplitIfs
import OffsideRule.Text.Utf8

/-! What a text is encoded to is decoded to that text. One lemma for each length of a character
follows the decoder from the first byte to the last. -/

namespace OffsideRule.Utf8

theorem toList_loop (b : ByteArray) (n : Nat) (taken : List UInt8) :
    ByteArray.toList.loop b n taken = taken.reverse ++ b.data.toList.drop n := by
  induction n, taken using ByteArray.toList.loop.induct b with
  | case1 n taken h ih =>
    rw [ByteArray.toList.loop, if_pos h, ih, List.drop_eq_getElem_cons (i := n) (by simpa using h)]
    simp [ByteArray.get!, h]
  | case2 n taken h =>
    rw [ByteArray.toList.loop, if_neg h, List.drop_eq_nil_of_le (by simpa using h), List.append_nil]

theorem encode_eq (s : String) : encode s = s.toList.flatMap String.utf8EncodeChar := by
  rw [encode, String.toUTF8_eq_toByteArray, ← String.utf8Encode_toList, List.utf8Encode,
    ByteArray.toList, toList_loop]
  simp

section Begin

variable {b : UInt8}

theorem begin?_two (h : 0xc2 ≤ b.toNat) (h' : b.toNat < 0xe0) :
    begin? b = some ⟨b, 1, 1, 0x80, 0xbf, b.toNat - 0xc0⟩ := by
  simp only [begin?, Bool.and_eq_true, decide_eq_true_eq]
  rw [if_pos (by omega)]

theorem begin?_three (h : 0xe0 ≤ b.toNat) (h' : b.toNat < 0xf0) :
    begin? b = some ⟨b, 1, 2, if b.toNat = 0xe0 then 0xa0 else 0x80,
      if b.toNat = 0xed then 0x9f else 0xbf, b.toNat - 0xe0⟩ := by
  simp only [begin?, Bool.and_eq_true, decide_eq_true_eq]
  rw [if_neg (by omega)]
  split_ifs <;> first | rfl | omega

theorem begin?_four (h : 0xf0 ≤ b.toNat) (h' : b.toNat < 0xf5) :
    begin? b = some ⟨b, 1, 3, if b.toNat = 0xf0 then 0x90 else 0x80,
      if b.toNat = 0xf4 then 0x8f else 0xbf, b.toNat - 0xf0⟩ := by
  simp only [begin?, Bool.and_eq_true, decide_eq_true_eq]
  rw [if_neg (by omega), if_neg (by omega), if_neg (by omega), if_neg (by omega)]
  split_ifs <;> first | rfl | omega

end Begin

section Decode

variable {n : Nat} {b : UInt8} {p : Pending} {rest : Bytes}

theorem decodeFrom_begin (h : 0x80 ≤ b.toNat) (hb : begin? b = some p) :
    decodeFrom n none (b :: rest) = decodeFrom (n + 1) (some p) rest := by
  rw [decodeFrom, if_neg (by omega)]
  simp only [hb]

theorem decodeFrom_more (h : p.low ≤ b.toNat) (h' : b.toNat ≤ p.high) (howed : p.owed ≠ 1) :
    decodeFrom n (some p) (b :: rest) = decodeFrom (n + 1) (some (p.take b)) rest := by
  have haccepts : p.accepts b = true := by simp [Pending.accepts, h, h']
  simp [decodeFrom, haccepts, howed]

theorem decodeFrom_last (h : p.low ≤ b.toNat) (h' : b.toNat ≤ p.high) (howed : p.owed = 1) :
    decodeFrom n (some p) (b :: rest) =
      (decodeFrom (n + 1) none rest).map (Char.ofNat (p.take b).value :: ·) := by
  have haccepts : p.accepts b = true := by simp [Pending.accepts, h, h']
  simp [decodeFrom, haccepts, howed]

theorem toNat_ofNat_of_lt {k : Nat} (h : k < 256) : (UInt8.ofNat k).toNat = k := by
  rw [UInt8.toNat_ofNat', Nat.mod_eq_of_lt h]

variable {a x y z : Nat}

theorem decodeFrom_two (h : 2 ≤ a) (h' : a < 32) (hx : x < 64) :
    decodeFrom n none (UInt8.ofNat (a + 192) :: UInt8.ofNat (x + 128) :: rest) =
      (decodeFrom (n + 2) none rest).map (Char.ofNat (a * 64 + x) :: ·) := by
  have ha := toNat_ofNat_of_lt (k := a + 192) (by omega)
  have hx' := toNat_ofNat_of_lt (k := x + 128) (by omega)
  rw [decodeFrom_begin (by omega) (begin?_two (by omega) (by omega)),
    decodeFrom_last (by dsimp only; omega) (by dsimp only; omega) rfl]
  simp only [Pending.take, ha, hx', Nat.add_sub_cancel]

theorem decodeFrom_three (h : a < 16) (hx : x < 64) (hy : y < 64) (hlow : a = 0 → 32 ≤ x)
    (hhigh : a = 13 → x < 32) :
    decodeFrom n none
        (UInt8.ofNat (a + 224) :: UInt8.ofNat (x + 128) :: UInt8.ofNat (y + 128) :: rest) =
      (decodeFrom (n + 3) none rest).map (Char.ofNat ((a * 64 + x) * 64 + y) :: ·) := by
  have ha := toNat_ofNat_of_lt (k := a + 224) (by omega)
  have hx' := toNat_ofNat_of_lt (k := x + 128) (by omega)
  have hy' := toNat_ofNat_of_lt (k := y + 128) (by omega)
  rw [decodeFrom_begin (by omega) (begin?_three (by omega) (by omega)),
    decodeFrom_more (by dsimp only; split_ifs <;> omega) (by dsimp only; split_ifs <;> omega)
      (by simp),
    decodeFrom_last (by simp only [Pending.take]; omega) (by simp only [Pending.take]; omega) rfl]
  simp only [Pending.take, ha, hx', hy', Nat.add_sub_cancel]

theorem decodeFrom_four (h : a < 5) (hx : x < 64) (hy : y < 64) (hz : z < 64)
    (hlow : a = 0 → 16 ≤ x) (hhigh : a = 4 → x < 16) :
    decodeFrom n none (UInt8.ofNat (a + 240) :: UInt8.ofNat (x + 128) :: UInt8.ofNat (y + 128) ::
        UInt8.ofNat (z + 128) :: rest) =
      (decodeFrom (n + 4) none rest).map
        (Char.ofNat (((a * 64 + x) * 64 + y) * 64 + z) :: ·) := by
  have ha := toNat_ofNat_of_lt (k := a + 240) (by omega)
  have hx' := toNat_ofNat_of_lt (k := x + 128) (by omega)
  have hy' := toNat_ofNat_of_lt (k := y + 128) (by omega)
  have hz' := toNat_ofNat_of_lt (k := z + 128) (by omega)
  rw [decodeFrom_begin (by omega) (begin?_four (by omega) (by omega)),
    decodeFrom_more (by dsimp only; split_ifs <;> omega) (by dsimp only; split_ifs <;> omega)
      (by simp),
    decodeFrom_more (by simp only [Pending.take]; omega) (by simp only [Pending.take]; omega)
      (by simp [Pending.take]),
    decodeFrom_last (by simp only [Pending.take]; omega) (by simp only [Pending.take]; omega) rfl]
  simp only [Pending.take, ha, hx', hy', hz', Nat.add_sub_cancel]

theorem decodeFrom_utf8EncodeChar (c : Char) (n : Nat) (rest : Bytes) :
    ∃ m, decodeFrom n none (String.utf8EncodeChar c ++ rest) =
      (decodeFrom m none rest).map (c :: ·) := by
  have hvalid : c.val.toNat < 0xd800 ∨ 0xdfff < c.val.toNat ∧ c.val.toNat < 0x110000 := c.valid
  have hofNat : Char.ofNat c.val.toNat = c := Char.ofNat_toNat c
  rw [String.utf8EncodeChar]
  generalize c.val.toNat = v at hvalid hofNat ⊢
  split_ifs with hone htwo hthree
  · refine ⟨n + 1, ?_⟩
    rw [List.singleton_append, decodeFrom, toNat_ofNat_of_lt (by omega), if_pos (by omega), hofNat]
  · have hv : v / 64 % 32 * 64 + v % 64 = v := by omega
    refine ⟨n + 2, Eq.trans (decodeFrom_two (a := v / 64 % 32) (x := v % 64) ?_ ?_ ?_) ?_⟩
    · omega
    · omega
    · omega
    · rw [hv, hofNat]; rfl
  · have hv : (v / 4096 % 16 * 64 + v / 64 % 64) * 64 + v % 64 = v := by omega
    refine ⟨n + 3, Eq.trans (decodeFrom_three (a := v / 4096 % 16) (x := v / 64 % 64) (y := v % 64)
      ?_ ?_ ?_ ?_ ?_) ?_⟩
    · omega
    · omega
    · omega
    · omega
    · omega
    · rw [hv, hofNat]; rfl
  · have hv : ((v / 262144 % 8 * 64 + v / 4096 % 64) * 64 + v / 64 % 64) * 64 + v % 64 = v := by
      omega
    refine ⟨n + 4, Eq.trans (decodeFrom_four (a := v / 262144 % 8) (x := v / 4096 % 64)
      (y := v / 64 % 64) (z := v % 64) ?_ ?_ ?_ ?_ ?_ ?_) ?_⟩
    · omega
    · omega
    · omega
    · omega
    · omega
    · omega
    · rw [hv, hofNat]; rfl

end Decode

theorem decodeFrom_encode (text : Text) (n : Nat) :
    decodeFrom n none (text.flatMap String.utf8EncodeChar) = .ok text := by
  induction text generalizing n with
  | nil => rfl
  | cons c text ih =>
    obtain ⟨m, hm⟩ := decodeFrom_utf8EncodeChar c n (text.flatMap String.utf8EncodeChar)
    rw [List.flatMap_cons, hm, ih, Except.map]

theorem decode_encode (s : String) : decode (encode s) = .ok s.toList := by
  rw [decode, encode_eq, decodeFrom_encode]

end OffsideRule.Utf8
