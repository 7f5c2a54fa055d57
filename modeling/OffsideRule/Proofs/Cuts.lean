import OffsideRule.Lexeme

/-! Texts that are cut off. Behind what it accepts a scanner looks at a few characters more, and
these can only end the lexeme, so it accepts the same in a text that is cut off anywhere behind. The
one exception is a cut between the two characters of a line end, which leaves a carriage return
that looks like a blank. -/

namespace OffsideRule

theorem runLength_le_length (p : Char → Bool) (s : Text) : runLength p s ≤ s.length :=
  (s.takeWhile_prefix p).length_le

theorem runLength_take (p : Char → Bool) (s : Text) (m : Nat) :
    runLength p (s.take m) = min m (runLength p s) := by
  rw [runLength, ← List.take_takeWhile, List.length_take]
  rfl

theorem runLength_take_of_le {p : Char → Bool} {s : Text} {m : Nat} (h : runLength p s ≤ m) :
    runLength p (s.take m) = runLength p s := by
  rw [runLength_take, Nat.min_eq_right h]

/-- A run keeps its text. -/
theorem take_runLength_take {p : Char → Bool} {s : Text} {m : Nat} (h : runLength p s ≤ m) :
    (s.take m).take (runLength p (s.take m)) = s.take (runLength p s) := by
  rw [runLength_take_of_le h, List.take_take, Nat.min_eq_left h]

theorem of_mem_take_runLength {p : Char → Bool} {s : Text} {c : Char}
    (h : c ∈ s.take (runLength p s)) : p c = true := by
  rw [runLength, ← List.prefix_iff_eq_take.mp (s.takeWhile_prefix p)] at h
  exact List.all_eq_true.mp List.all_takeWhile c h

/-- A run begins with all characters of its class that stand in front. -/
theorem runLength_append {p : Char → Bool} {w : Text} (h : ∀ c ∈ w, p c = true) (s : Text) :
    runLength p (w ++ s) = w.length + runLength p s := by
  rw [runLength, List.takeWhile_append_of_pos h, List.length_append]
  rfl

section Number

variable {s : Text} {m : Nat}

theorem hexLength_cons_cons (c x : Char) (rest : Text) :
    hexLength (c :: x :: rest) =
      if (c = '0' ∧ (x = 'x' ∨ x = 'X')) ∧ 0 < runLength isHexDigit rest then
        runLength isHexDigit rest + 2
      else 0 := by
  unfold hexLength
  split
  · next heq =>
    cases heq
    simp
  · next hne =>
    have hc : c ≠ '0' := fun hc => hne x rest (by rw [hc])
    simp [hc]

theorem hexLength_singleton (c : Char) : hexLength [c] = 0 := by
  simp [hexLength]

theorem hexLength_le_length (s : Text) : hexLength s ≤ s.length := by
  match s with
  | [] => exact Nat.zero_le _
  | [c] => simp [hexLength_singleton]
  | c :: x :: rest =>
    have := runLength_le_length isHexDigit rest
    rw [hexLength_cons_cons, List.length_cons, List.length_cons]
    split <;> omega

theorem hexLength_take (h : hexLength s ≤ m) : hexLength (s.take m) = hexLength s := by
  match s, m with
  | [], _ => rw [List.take_nil]
  | _ :: _, 0 => exact (Nat.le_zero.mp h).symm
  | [c], m + 1 => rw [List.take_succ_cons, List.take_nil]
  | c :: x :: rest, 1 =>
    rw [List.take_succ_cons, List.take_zero, hexLength_singleton]
    rw [hexLength_cons_cons] at h ⊢
    split at h
    · omega
    · next hc => rw [if_neg hc]
  | c :: x :: rest, m + 2 =>
    rw [List.take_succ_cons, List.take_succ_cons]
    rw [hexLength_cons_cons] at h ⊢
    rw [hexLength_cons_cons, runLength_take]
    split at h
    · next hc =>
      have hmin : min m (runLength isHexDigit rest) = runLength isHexDigit rest := by omega
      rw [hmin]
    · next hc =>
      rw [if_neg hc, if_neg]
      intro hcut
      exact hc ⟨hcut.1, by omega⟩

theorem fractionLength_cons (c : Char) (rest : Text) :
    fractionLength (c :: rest) =
      if c = '.' ∧ 0 < digitsLength rest then digitsLength rest + 1 else 0 := by
  unfold fractionLength
  split
  · next heq =>
    cases heq
    simp
  · next hne =>
    have hc : c ≠ '.' := fun hc => hne rest (by rw [hc])
    simp [hc]

theorem fractionLength_le_length (s : Text) : fractionLength s ≤ s.length := by
  cases s with
  | nil => exact Nat.le_refl 0
  | cons c rest =>
    have : digitsLength rest ≤ rest.length := runLength_le_length isDigit rest
    rw [fractionLength_cons, List.length_cons]
    split <;> omega

theorem digitsLength_take (s : Text) (m : Nat) :
    digitsLength (s.take m) = min m (digitsLength s) :=
  runLength_take isDigit s m

theorem fractionLength_take (h : fractionLength s ≤ m) :
    fractionLength (s.take m) = fractionLength s := by
  match s, m with
  | [], _ => rw [List.take_nil]
  | _ :: _, 0 => exact (Nat.le_zero.mp h).symm
  | c :: rest, m + 1 =>
    rw [List.take_succ_cons]
    rw [fractionLength_cons] at h ⊢
    rw [fractionLength_cons, digitsLength_take]
    split at h
    · next hc =>
      have hmin : min m (digitsLength rest) = digitsLength rest := by omega
      rw [hmin]
    · next hc =>
      rw [if_neg hc, if_neg]
      intro hcut
      exact hc ⟨hcut.1, by omega⟩

theorem signLength_le_length (s : Text) : signLength s ≤ s.length := by
  unfold signLength
  split
  · rw [List.length_cons]
    split <;> omega
  · exact Nat.le_refl 0

/-- The sign is cut off only with all that is behind it. -/
theorem signLength_take (s : Text) (m : Nat) : signLength (s.take m) = min m (signLength s) := by
  match s, m with
  | [], _ => simp [signLength]
  | _ :: _, 0 => simp [signLength]
  | c :: rest, m + 1 =>
    rw [List.take_succ_cons]
    simp only [signLength]
    split <;> omega

theorem exponentLength_cons (c : Char) (rest : Text) :
    exponentLength (c :: rest) =
      if (c = 'e' ∨ c = 'E') ∧ 0 < digitsLength (rest.drop (signLength rest)) then
        1 + signLength rest + digitsLength (rest.drop (signLength rest))
      else 0 := by
  simp [exponentLength]

theorem exponentLength_le_length (s : Text) : exponentLength s ≤ s.length := by
  cases s with
  | nil => exact Nat.le_refl 0
  | cons c rest =>
    have hdigits : digitsLength (rest.drop (signLength rest)) ≤ _ := runLength_le_length isDigit _
    have hsign := signLength_le_length rest
    rw [List.length_drop] at hdigits
    rw [exponentLength_cons, List.length_cons]
    split <;> omega

theorem exponentLength_take (h : exponentLength s ≤ m) :
    exponentLength (s.take m) = exponentLength s := by
  match s, m with
  | [], _ => rw [List.take_nil]
  | _ :: _, 0 => exact (Nat.le_zero.mp h).symm
  | c :: rest, m + 1 =>
    rw [List.take_succ_cons]
    rw [exponentLength_cons] at h ⊢
    rw [exponentLength_cons, signLength_take, List.drop_take, digitsLength_take]
    split at h
    · next hc =>
      have hsign : min m (signLength rest) = signLength rest := by omega
      have hdigits : min (m - signLength rest) (digitsLength (rest.drop (signLength rest))) =
          digitsLength (rest.drop (signLength rest)) := by omega
      rw [hsign, hdigits]
    · next hc =>
      rw [if_neg hc, if_neg]
      rintro ⟨he, hdigits⟩
      have hsign : min m (signLength rest) = signLength rest := by omega
      rw [hsign] at hdigits
      exact hc ⟨he, by omega⟩

theorem numberExtent_le_length (s : Text) : (numberExtent s).2 ≤ s.length := by
  have hwhole : digitsLength s ≤ s.length := runLength_le_length isDigit s
  have hfraction := fractionLength_le_length (s.drop (digitsLength s))
  have hexponent := exponentLength_le_length
    (s.drop (digitsLength s + fractionLength (s.drop (digitsLength s))))
  rw [List.length_drop] at hfraction hexponent
  simp only [numberExtent]
  split
  · exact hexLength_le_length s
  · simp only
    omega

theorem numberExtent_take (h : (numberExtent s).2 ≤ m) :
    numberExtent (s.take m) = numberExtent s := by
  simp only [numberExtent] at h ⊢
  split at h
  · next hhex => rw [hexLength_take h, if_pos hhex, if_pos hhex]
  · next hhex =>
    simp only at h
    have hwhole : min m (digitsLength s) = digitsLength s := by omega
    rw [hexLength_take (by omega), digitsLength_take, hwhole, List.drop_take,
      fractionLength_take (by omega), List.drop_take, exponentLength_take (by omega)]

end Number

section Delimited

variable {s : Text} {m : Nat}

theorem commentBody_le_length (outer : Nat) (s : Text) :
    (commentBody outer s).length ≤ s.length := by
  fun_induction commentBody outer s with
  | case1 => exact Nat.le_refl 0
  | case2 outer rest ih => simp only [Extent.after, List.length_cons]; omega
  | case3 rest => simp
  | case4 outer rest ih => simp only [Extent.after, List.length_cons]; omega
  | case5 outer c rest _ _ _ ih => simp only [Extent.after, List.length_cons]; omega

/-- What stands in front of a text that is cut off stood there before. -/
theorem eq_cons_of_take {k : Nat} {c : Char} {more : Text} (h : s.take k = c :: more) :
    ∃ behind, s = c :: behind := by
  obtain ⟨back, hback⟩ := List.take_prefix k s
  exact ⟨more ++ back, by rw [← hback, h, List.cons_append]⟩

theorem commentBody_take {outer : Nat} (hclosed : (commentBody outer s).closed = true)
    (h : (commentBody outer s).length ≤ m) : commentBody outer (s.take m) = commentBody outer s := by
  fun_induction commentBody outer s generalizing m with
  | case1 => contradiction
  | case2 outer rest ih =>
    simp only [Extent.after] at hclosed h
    obtain ⟨k, rfl⟩ : ∃ k, m = k + 2 := ⟨m - 2, by omega⟩
    rw [List.take_succ_cons, List.take_succ_cons, commentBody, ih hclosed (by omega)]
  | case3 rest =>
    obtain ⟨k, rfl⟩ : ∃ k, m = k + 2 := ⟨m - 2, by simp only at h; omega⟩
    rw [List.take_succ_cons, List.take_succ_cons, commentBody]
  | case4 outer rest ih =>
    simp only [Extent.after] at hclosed h
    obtain ⟨k, rfl⟩ : ∃ k, m = k + 2 := ⟨m - 2, by omega⟩
    rw [List.take_succ_cons, List.take_succ_cons, commentBody, ih hclosed (by omega)]
  | case5 outer c rest hopen hclose hinner ih =>
    simp only [Extent.after] at hclosed h
    obtain ⟨k, rfl⟩ : ∃ k, m = k + 1 := ⟨m - 1, by omega⟩
    rw [List.take_succ_cons, commentBody, ih hclosed (by omega)]
    · intro more hc hmore
      obtain ⟨behind, hbehind⟩ := eq_cons_of_take hmore
      exact hopen behind hc hbehind
    · intro more houter hc hmore
      obtain ⟨behind, hbehind⟩ := eq_cons_of_take hmore
      exact hclose behind houter hc hbehind
    · intro inner more houter hc hmore
      obtain ⟨behind, hbehind⟩ := eq_cons_of_take hmore
      exact hinner inner behind houter hc hbehind

theorem stringBody_le_length (s : Text) : (stringBody s).length ≤ s.length := by
  fun_induction stringBody s with
  | case1 => simp
  | case2 => simp
  | case3 => simp
  | case4 c rest ih => simp only [Extent.after, List.length_cons]; omega
  | case5 rest => simp
  | case6 c rest _ _ _ _ ih => simp only [Extent.after, List.length_cons]; omega

/-- A character that neither ends the string nor escapes the next one is passed over. -/
theorem stringBody_of_plain {c : Char} (hfeed : c ≠ '\n') (hescape : c ≠ '\\') (hquote : c ≠ '"') :
    stringBody (c :: s) = (stringBody s).after 1 := by
  rw [stringBody]
  · exact hfeed
  · exact fun hc _ => hescape hc
  · exact fun _ _ hc _ => hescape hc
  · exact hquote

/-- A character is no escape if it is one neither at the end nor before another character. -/
theorem ne_escape {c : Char} (hlast : c = '\\' → s = [] → False)
    (hescape : ∀ x more, c = '\\' → s = x :: more → False) : c ≠ '\\' := by
  intro hc
  cases s with
  | nil => exact hlast hc rfl
  | cons x more => exact hescape x more hc rfl

theorem stringBody_take (hclosed : (stringBody s).closed = true)
    (h : (stringBody s).length ≤ m) : stringBody (s.take m) = stringBody s := by
  fun_induction stringBody s generalizing m with
  | case1 => contradiction
  | case2 => contradiction
  | case3 => contradiction
  | case4 c rest ih =>
    simp only [Extent.after] at hclosed h
    obtain ⟨k, rfl⟩ : ∃ k, m = k + 2 := ⟨m - 2, by omega⟩
    rw [List.take_succ_cons, List.take_succ_cons, stringBody, ih hclosed (by omega)]
  | case5 rest =>
    obtain ⟨k, rfl⟩ : ∃ k, m = k + 1 := ⟨m - 1, by simp only at h; omega⟩
    rw [List.take_succ_cons, stringBody]
  | case6 c rest hfeed hlast hescape hquote ih =>
    simp only [Extent.after] at hclosed h
    obtain ⟨k, rfl⟩ : ∃ k, m = k + 1 := ⟨m - 1, by omega⟩
    rw [List.take_succ_cons, stringBody_of_plain hfeed (ne_escape hlast hescape) hquote,
      ih hclosed (by omega)]

theorem closingQuote_le_length (s : Text) : (closingQuote s).length ≤ s.length := by
  unfold closingQuote
  split <;> simp

theorem exists_of_closingQuote (hclosed : (closingQuote s).closed = true) :
    ∃ more, s = '\'' :: more := by
  unfold closingQuote at hclosed
  split at hclosed
  · exact ⟨_, rfl⟩
  · contradiction

theorem closingQuote_take (hclosed : (closingQuote s).closed = true)
    (h : (closingQuote s).length ≤ m) : closingQuote (s.take m) = closingQuote s := by
  obtain ⟨more, rfl⟩ := exists_of_closingQuote hclosed
  obtain ⟨k, rfl⟩ : ∃ k, m = k + 1 := ⟨m - 1, by simp only [closingQuote] at h; omega⟩
  rfl

theorem characterBody_le_length (s : Text) : (characterBody s).length ≤ s.length := by
  unfold characterBody
  split
  · next rest =>
    have hrun := runLength_le_length isQuotable rest
    have hquote := closingQuote_le_length (rest.drop (runLength isQuotable rest))
    rw [List.length_drop] at hquote
    simp only [Extent.after, List.length_cons]
    omega
  · next c rest _ =>
    split
    · have hquote := closingQuote_le_length rest
      simp only [Extent.after, List.length_cons]
      omega
    · exact closingQuote_le_length (c :: rest)
  · exact Nat.le_refl 0

theorem characterBody_take (hclosed : (characterBody s).closed = true)
    (h : (characterBody s).length ≤ m) : characterBody (s.take m) = characterBody s := by
  unfold characterBody at hclosed h
  split at hclosed
  · next rest =>
    simp only [Extent.after] at hclosed h
    obtain ⟨k, rfl⟩ : ∃ k, m = k + 1 := ⟨m - 1, by omega⟩
    have hrun : min k (runLength isQuotable rest) = runLength isQuotable rest := by omega
    have hquote := closingQuote_take (m := k - runLength isQuotable rest) hclosed (by omega)
    simp only [List.take_succ_cons, characterBody, runLength_take, hrun, List.drop_take, hquote]
  · next c rest hescape =>
    split at hclosed
    · next hquotable =>
      simp only [hquotable, if_true, Extent.after] at hclosed h
      obtain ⟨k, rfl⟩ : ∃ k, m = k + 1 := ⟨m - 1, by omega⟩
      rw [List.take_succ_cons, characterBody, characterBody, if_pos hquotable, if_pos hquotable,
        closingQuote_take hclosed (by omega)]
      · exact hescape
      · exact hescape
    · next hquotable =>
      simp only [hquotable, Bool.false_eq_true, if_false] at h
      have hquote := closingQuote_take hclosed h
      obtain ⟨more, hmore⟩ := exists_of_closingQuote hclosed
      obtain ⟨k, rfl⟩ : ∃ k, m = k + 1 := ⟨m - 1, by simp only [hmore, closingQuote] at h; omega⟩
      rw [List.take_succ_cons] at hquote ⊢
      rw [characterBody, characterBody, if_neg hquotable, if_neg hquotable, hquote]
      · exact hescape
      · exact hescape
  · contradiction

end Delimited

section Line

variable {s : Text} {m : Nat}

theorem blankLength_le_length (s : Text) : blankLength s ≤ s.length := by
  fun_induction blankLength s with
  | case1 => exact Nat.le_refl 0
  | case2 => exact Nat.zero_le _
  | case3 c rest _ hblank ih => rw [List.length_cons]; omega
  | case4 c rest _ hblank => exact Nat.zero_le _

theorem lineLength_le_length (s : Text) : lineLength s ≤ s.length := by
  fun_induction lineLength s with
  | case1 => exact Nat.le_refl 0
  | case2 => exact Nat.zero_le _
  | case3 => exact Nat.zero_le _
  | case4 c rest _ _ ih => rw [List.length_cons]; omega

/-- A cut behind `n` characters parts the carriage return and the line feed at the front. -/
def PartsLineEnd (s : Text) (n : Nat) : Prop :=
  n = 1 ∧ ∃ more, s = '\r' :: '\n' :: more

theorem blankLength_take (h : blankLength s ≤ m)
    (hcut : ¬ PartsLineEnd (s.drop (blankLength s)) (m - blankLength s)) :
    blankLength (s.take m) = blankLength s := by
  fun_induction blankLength s generalizing m with
  | case1 => rw [List.take_nil, blankLength]
  | case2 rest =>
    rcases m with _ | _ | k
    · rfl
    · exact absurd ⟨rfl, rest, rfl⟩ hcut
    · rfl
  | case3 c rest hend hblank ih =>
    obtain ⟨k, rfl⟩ : ∃ k, m = k + 1 := ⟨m - 1, by omega⟩
    have hcut' : ¬ PartsLineEnd (rest.drop (blankLength rest)) (k - blankLength rest) := by
      rwa [List.drop_succ_cons, Nat.add_sub_add_right] at hcut
    rw [List.take_succ_cons, blankLength, if_pos hblank, ih (by omega) hcut']
    intro more hc hmore
    obtain ⟨behind, hbehind⟩ := eq_cons_of_take hmore
    exact hend behind hc hbehind
  | case4 c rest hend hblank =>
    cases m with
    | zero => rfl
    | succ k =>
      rw [List.take_succ_cons, blankLength, if_neg hblank]
      intro more hc hmore
      obtain ⟨behind, hbehind⟩ := eq_cons_of_take hmore
      exact hend behind hc hbehind

theorem lineLength_take (h : lineLength s ≤ m)
    (hcut : ¬ PartsLineEnd (s.drop (lineLength s)) (m - lineLength s)) :
    lineLength (s.take m) = lineLength s := by
  fun_induction lineLength s generalizing m with
  | case1 => rw [List.take_nil, lineLength]
  | case2 rest =>
    cases m <;> rfl
  | case3 rest =>
    rcases m with _ | _ | k
    · rfl
    · exact absurd ⟨rfl, rest, rfl⟩ hcut
    · rfl
  | case4 c rest hfeed hend ih =>
    obtain ⟨k, rfl⟩ : ∃ k, m = k + 1 := ⟨m - 1, by omega⟩
    have hcut' : ¬ PartsLineEnd (rest.drop (lineLength rest)) (k - lineLength rest) := by
      rwa [List.drop_succ_cons, Nat.add_sub_add_right] at hcut
    rw [List.take_succ_cons, lineLength, ih (by omega) hcut']
    · exact hfeed
    · intro more hc hmore
      obtain ⟨behind, hbehind⟩ := eq_cons_of_take hmore
      exact hend behind hc hbehind

/-- Symbols do not end a line. -/
theorem runLength_isSymbol_le_lineLength (s : Text) : runLength isSymbol s ≤ lineLength s := by
  fun_induction lineLength s with
  | case1 => exact Nat.le_refl 0
  | case2 rest =>
    have : isSymbol '\n' = false := by decide
    simp [runLength, this]
  | case3 rest =>
    have : isSymbol '\r' = false := by decide
    simp [runLength, this]
  | case4 c rest _ _ ih =>
    unfold runLength at ih ⊢
    rw [List.takeWhile_cons]
    split
    · rw [List.length_cons]
      omega
    · exact Nat.zero_le _

/-- Dashes are symbols, so a run of symbols begins with the dashes at the front. -/
theorem runLength_isSymbol_eq (s : Text) :
    runLength isSymbol s =
      runLength (· == '-') s + runLength isSymbol (s.drop (runLength (· == '-') s)) := by
  induction s with
  | nil => rfl
  | cons c rest ih =>
    by_cases hc : c = '-'
    · have hsymbol : isSymbol '-' = true := by decide
      simp only [runLength] at ih ⊢
      subst hc
      simp [hsymbol]
      omega
    · simp [runLength, hc]

theorem runLength_eq_zero_iff (p : Char → Bool) (s : Text) :
    runLength p s = 0 ↔ s.head?.any p = false := by
  cases s with
  | nil => simp [runLength]
  | cons c rest => cases hc : p c <;> simp [runLength, hc]

/-- A line comment starts exactly where the run of symbols consists of two or more dashes. -/
theorem startsLineComment_iff (s : Text) :
    startsLineComment s = true ↔
      2 ≤ runLength (· == '-') s ∧ runLength isSymbol s = runLength (· == '-') s := by
  have hzero := runLength_eq_zero_iff isSymbol (s.drop (runLength (· == '-') s))
  have hsymbols := runLength_isSymbol_eq s
  simp only [startsLineComment, Bool.and_eq_true, decide_eq_true_eq, Bool.not_eq_true', ← hzero]
  omega

/-- A cut behind the symbols at the front does not change whether they start a line comment. -/
theorem startsLineComment_take (h : runLength isSymbol s ≤ m) :
    startsLineComment (s.take m) = startsLineComment s := by
  have hsymbols := runLength_isSymbol_eq s
  have hmin : min m (runLength isSymbol s) = runLength isSymbol s := by omega
  have hdashes : min m (runLength (· == '-') s) = runLength (· == '-') s := by omega
  rw [Bool.eq_iff_iff, startsLineComment_iff, startsLineComment_iff, runLength_take, runLength_take,
    hmin, hdashes]

end Line

end OffsideRule
