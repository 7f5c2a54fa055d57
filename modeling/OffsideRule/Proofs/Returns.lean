import Mathlib.Data.List.TakeWhile
import OffsideRule.Proofs.Lexemes

/-! Texts with the other line end. If a carriage return is put before every line feed, a scanner
stops at the pair where it stopped at the line feed alone, and what it accepts without a line feed
it accepts unchanged. So the same lexemes are read, and the wider line ends are all that moves. -/

namespace OffsideRule

namespace Text

/-- Puts a carriage return before every line feed. -/
def addReturns (s : Text) : Text :=
  s.flatMap fun c => if c = '\n' then ['\r', '\n'] else [c]

@[simp] theorem addReturns_nil : addReturns [] = [] := rfl

theorem addReturns_lineFeed (rest : Text) :
    addReturns ('\n' :: rest) = '\r' :: '\n' :: addReturns rest := rfl

theorem addReturns_cons {c : Char} (hc : c ≠ '\n') (rest : Text) :
    addReturns (c :: rest) = c :: addReturns rest := by
  rw [addReturns, List.flatMap_cons, if_neg hc]
  rfl

theorem addReturns_append (s t : Text) : (s ++ t).addReturns = s.addReturns ++ t.addReturns :=
  List.flatMap_append

theorem addReturns_of_not_mem {s : Text} (h : '\n' ∉ s) : s.addReturns = s := by
  induction s with
  | nil => rfl
  | cons c rest ih =>
    rw [List.mem_cons, not_or] at h
    rw [addReturns_cons (Ne.symm h.1), ih h.2]

/-- Each line feed makes the text longer by one. -/
theorem length_addReturns (s : Text) : s.addReturns.length = s.length + lineFeeds s := by
  induction s with
  | nil => rfl
  | cons c rest ih =>
    by_cases hc : c = '\n'
    · subst hc
      rw [addReturns_lineFeed, List.length_cons, List.length_cons, List.length_cons, ih, lineFeeds,
        lineFeeds, List.count_cons_self]
      omega
    · rw [addReturns_cons hc, List.length_cons, List.length_cons, ih, lineFeeds, lineFeeds,
        List.count_cons_of_ne hc]
      omega

/-- What comes first and is no line end came first before. -/
theorem eq_cons_of_addReturns {s more : Text} {c : Char} (hc : c ≠ '\r')
    (h : s.addReturns = c :: more) : ∃ behind, s = c :: behind := by
  cases s with
  | nil => contradiction
  | cons d rest =>
    by_cases hd : d = '\n'
    · subst hd
      rw [addReturns_lineFeed, List.cons_eq_cons] at h
      exact absurd h.1.symm hc
    · rw [addReturns_cons hd, List.cons_eq_cons] at h
      exact ⟨rest, by rw [h.1]⟩

theorem take_addReturns {s : Text} {n : Nat} (h : '\n' ∉ s.take n) :
    s.addReturns.take n = s.take n := by
  induction s generalizing n with
  | nil => rfl
  | cons c rest ih =>
    cases n with
    | zero => rfl
    | succ n =>
      rw [List.take_succ_cons, List.mem_cons, not_or] at h
      rw [addReturns_cons (Ne.symm h.1), List.take_succ_cons, List.take_succ_cons, ih h.2]

theorem drop_addReturns {s : Text} {n : Nat} (h : '\n' ∉ s.take n) :
    s.addReturns.drop n = addReturns (s.drop n) := by
  induction s generalizing n with
  | nil => rw [addReturns_nil, List.drop_nil, addReturns_nil]
  | cons c rest ih =>
    cases n with
    | zero => rfl
    | succ n =>
      rw [List.take_succ_cons, List.mem_cons, not_or] at h
      rw [addReturns_cons (Ne.symm h.1), List.drop_succ_cons, List.drop_succ_cons, ih h.2]

theorem not_mem_take_of_le {s : Text} {c : Char} {n m : Nat} (h : c ∉ s.take m) (hle : n ≤ m) :
    c ∉ s.take n := by
  rw [← Nat.min_eq_left hle, ← List.take_take]
  exact fun hmem => h (List.mem_of_mem_take hmem)

end Text

section Number

variable {p : Char → Bool}

/-- A run that ends at both characters of a line end. -/
theorem runLength_addReturns (hreturn : p '\r' = false) (hfeed : p '\n' = false) (s : Text) :
    runLength p s.addReturns = runLength p s := by
  induction s with
  | nil => rfl
  | cons c rest ih =>
    by_cases hc : c = '\n'
    · subst hc
      simp [Text.addReturns_lineFeed, runLength, hreturn, hfeed]
    · simp only [runLength] at ih ⊢
      rw [Text.addReturns_cons hc, List.takeWhile_cons, List.takeWhile_cons]
      cases p c with
      | true => simp [ih]
      | false => rfl

/-- A run that ends in front of another character than a line feed. -/
theorem runLength_addReturns_of_drop (hfeed : p '\n' = false) {s more : Text} {q : Char}
    (hq : q ≠ '\n') (h : s.drop (runLength p s) = q :: more) :
    runLength p s.addReturns = runLength p s := by
  induction s with
  | nil => contradiction
  | cons c rest ih =>
    simp only [runLength] at h ih ⊢
    cases hc : p c with
    | true =>
      have hne : c ≠ '\n' := by
        rintro rfl
        rw [hfeed] at hc
        contradiction
      rw [List.takeWhile_cons_of_pos hc, List.length_cons, List.drop_succ_cons] at h
      rw [Text.addReturns_cons hne, List.takeWhile_cons_of_pos hc, List.takeWhile_cons_of_pos hc,
        List.length_cons, List.length_cons, ih h]
    | false =>
      rw [List.takeWhile_cons_of_neg (by simp [hc]), List.length_nil, List.drop_zero,
        List.cons_eq_cons] at h
      rw [Text.addReturns_cons (h.1 ▸ hq), List.takeWhile_cons_of_neg (by simp [hc]),
        List.takeWhile_cons_of_neg (by simp [hc])]

theorem hexLength_addReturns (s : Text) : hexLength s.addReturns = hexLength s := by
  match s with
  | [] => rfl
  | [c] =>
    by_cases hc : c = '\n'
    · subst hc
      rfl
    · rw [Text.addReturns_cons hc, Text.addReturns_nil]
  | c :: x :: rest =>
    by_cases hc : c = '\n'
    · subst hc
      rfl
    · by_cases hx : x = '\n'
      · subst hx
        rw [Text.addReturns_cons hc, Text.addReturns_lineFeed, hexLength_cons_cons,
          hexLength_cons_cons]
        simp
      · rw [Text.addReturns_cons hc, Text.addReturns_cons hx, hexLength_cons_cons,
          hexLength_cons_cons, runLength_addReturns (by decide) (by decide)]

theorem digitsLength_addReturns (s : Text) : digitsLength s.addReturns = digitsLength s :=
  runLength_addReturns (by decide) (by decide) s

theorem fractionLength_addReturns (s : Text) :
    fractionLength s.addReturns = fractionLength s := by
  cases s with
  | nil => rfl
  | cons c rest =>
    by_cases hc : c = '\n'
    · subst hc
      rfl
    · rw [Text.addReturns_cons hc, fractionLength_cons, fractionLength_cons, digitsLength_addReturns]

theorem signLength_addReturns (s : Text) : signLength s.addReturns = signLength s := by
  cases s with
  | nil => rfl
  | cons c rest =>
    by_cases hc : c = '\n'
    · subst hc
      rfl
    · rw [Text.addReturns_cons hc, signLength, signLength]

theorem not_mem_take_signLength (s : Text) : '\n' ∉ s.take (signLength s) := by
  unfold signLength
  split
  · next c rest =>
    split
    · next hc =>
      rw [List.take_succ_cons, List.take_zero, List.mem_singleton]
      rintro rfl
      simp at hc
    · simp
  · simp

theorem exponentLength_addReturns (s : Text) :
    exponentLength s.addReturns = exponentLength s := by
  cases s with
  | nil => rfl
  | cons c rest =>
    by_cases hc : c = '\n'
    · subst hc
      rfl
    · rw [Text.addReturns_cons hc, exponentLength_cons, exponentLength_cons, signLength_addReturns,
        Text.drop_addReturns (not_mem_take_signLength rest), digitsLength_addReturns]

theorem numberExtent_addReturns {s : Text} (h : '\n' ∉ s.take (numberExtent s).2) :
    numberExtent s.addReturns = numberExtent s := by
  simp only [numberExtent] at h ⊢
  rw [hexLength_addReturns]
  split at h
  · next hhex => rw [if_pos hhex, if_pos hhex]
  · next hhex =>
    simp only at h
    have hwhole : '\n' ∉ s.take (digitsLength s) := Text.not_mem_take_of_le h (by omega)
    have hfraction : '\n' ∉ s.take (digitsLength s + fractionLength (s.drop (digitsLength s))) :=
      Text.not_mem_take_of_le h (by omega)
    rw [if_neg hhex, if_neg hhex, digitsLength_addReturns, Text.drop_addReturns hwhole,
      fractionLength_addReturns, Text.drop_addReturns hfraction, exponentLength_addReturns]

end Number

section Delimited

variable {s : Text}

theorem commentBody_addReturns {outer : Nat} (hclosed : (commentBody outer s).closed = true)
    (h : '\n' ∉ s.take (commentBody outer s).length) :
    commentBody outer s.addReturns = commentBody outer s := by
  fun_induction commentBody outer s with
  | case1 => contradiction
  | case2 outer rest ih =>
    simp only [Extent.after, Nat.add_comm 2, List.take_succ_cons, List.mem_cons, not_or] at hclosed h
    rw [Text.addReturns_cons (by decide), Text.addReturns_cons (by decide), commentBody,
      ih hclosed h.2.2]
  | case3 rest =>
    rw [Text.addReturns_cons (by decide), Text.addReturns_cons (by decide), commentBody]
  | case4 outer rest ih =>
    simp only [Extent.after, Nat.add_comm 2, List.take_succ_cons, List.mem_cons, not_or] at hclosed h
    rw [Text.addReturns_cons (by decide), Text.addReturns_cons (by decide), commentBody,
      ih hclosed h.2.2]
  | case5 outer c rest hopen hclose hinner ih =>
    simp only [Extent.after, Nat.add_comm 1, List.take_succ_cons, List.mem_cons, not_or] at hclosed h
    rw [Text.addReturns_cons (Ne.symm h.1), commentBody, ih hclosed h.2]
    · intro more hc hmore
      obtain ⟨behind, hbehind⟩ := Text.eq_cons_of_addReturns (by decide) hmore
      exact hopen behind hc hbehind
    · intro more houter hc hmore
      obtain ⟨behind, hbehind⟩ := Text.eq_cons_of_addReturns (by decide) hmore
      exact hclose behind houter hc hbehind
    · intro inner more houter hc hmore
      obtain ⟨behind, hbehind⟩ := Text.eq_cons_of_addReturns (by decide) hmore
      exact hinner inner behind houter hc hbehind

theorem stringBody_addReturns (hclosed : (stringBody s).closed = true)
    (h : '\n' ∉ s.take (stringBody s).length) : stringBody s.addReturns = stringBody s := by
  fun_induction stringBody s with
  | case1 => contradiction
  | case2 => contradiction
  | case3 => contradiction
  | case4 c rest ih =>
    simp only [Extent.after, Nat.add_comm 2, List.take_succ_cons, List.mem_cons, not_or] at hclosed h
    rw [Text.addReturns_cons (by decide), Text.addReturns_cons (Ne.symm h.2.1), stringBody,
      ih hclosed h.2.2]
  | case5 rest => rw [Text.addReturns_cons (by decide), stringBody]
  | case6 c rest hfeed hlast hescape hquote ih =>
    simp only [Extent.after, Nat.add_comm 1, List.take_succ_cons, List.mem_cons, not_or] at hclosed h
    rw [Text.addReturns_cons (Ne.symm h.1),
      stringBody_of_plain hfeed (ne_escape hlast hescape) hquote, ih hclosed h.2]

theorem closingQuote_addReturns (s : Text) : closingQuote s.addReturns = closingQuote s := by
  cases s with
  | nil => rfl
  | cons c rest =>
    by_cases hc : c = '\n'
    · subst hc
      rfl
    · rw [Text.addReturns_cons hc]
      unfold closingQuote
      split <;> split <;> simp_all

theorem characterBody_addReturns (hclosed : (characterBody s).closed = true)
    (h : '\n' ∉ s.take (characterBody s).length) :
    characterBody s.addReturns = characterBody s := by
  unfold characterBody at hclosed h
  split at hclosed
  · next rest =>
    simp only [Extent.after] at hclosed h
    rw [Nat.add_right_comm, List.take_succ_cons, List.mem_cons, not_or] at h
    obtain ⟨more, hmore⟩ := exists_of_closingQuote hclosed
    have hrun := runLength_addReturns_of_drop (by decide) (by decide) hmore
    have hdrop := Text.drop_addReturns (Text.not_mem_take_of_le h.2 (Nat.le_add_right _ _))
    rw [Text.addReturns_cons (by decide)]
    simp only [characterBody, hrun, hdrop, closingQuote_addReturns]
  · next c rest hescape =>
    split at hclosed
    · next hquotable =>
      have hc : c ≠ '\n' := by
        rintro rfl
        contradiction
      rw [Text.addReturns_cons hc, characterBody, characterBody, if_pos hquotable,
        if_pos hquotable, closingQuote_addReturns]
      · exact hescape
      · exact hescape
    · next hquotable =>
      obtain ⟨more, hmore⟩ := exists_of_closingQuote hclosed
      cases hmore
      have hquote := closingQuote_addReturns ('\'' :: rest)
      rw [Text.addReturns_cons (by decide)] at hquote ⊢
      rw [characterBody, characterBody, if_neg hquotable, if_neg hquotable, hquote]
      · exact hescape
      · exact hescape
  · contradiction

end Delimited

section Line

variable {s : Text}

/-- Blanks end at a line end, with a carriage return or without. -/
theorem blankLength_addReturns (h : '\r' ∉ s) : blankLength s.addReturns = blankLength s := by
  induction s with
  | nil => rfl
  | cons c rest ih =>
    rw [List.mem_cons, not_or] at h
    by_cases hc : c = '\n'
    · subst hc
      rfl
    · have hend (rest : Text) : ∀ more, c = '\r' → rest = '\n' :: more → False :=
        fun _ hreturn _ => h.1 hreturn.symm
      rw [Text.addReturns_cons hc, blankLength, blankLength, ih h.2]
      · exact hend rest
      · exact hend _

theorem lineLength_addReturns (h : '\r' ∉ s) : lineLength s.addReturns = lineLength s := by
  induction s with
  | nil => rfl
  | cons c rest ih =>
    rw [List.mem_cons, not_or] at h
    by_cases hc : c = '\n'
    · subst hc
      rfl
    · have hend (rest : Text) : ∀ more, c = '\r' → rest = '\n' :: more → False :=
        fun _ hreturn _ => h.1 hreturn.symm
      rw [Text.addReturns_cons hc, lineLength, lineLength, ih h.2]
      · exact hc
      · exact hend rest
      · exact hc
      · exact hend _

theorem startsLineComment_addReturns (s : Text) :
    startsLineComment s.addReturns = startsLineComment s := by
  rw [Bool.eq_iff_iff, startsLineComment_iff, startsLineComment_iff,
    runLength_addReturns (by decide) (by decide), runLength_addReturns (by decide) (by decide)]

end Line

namespace Lexeme.Heads

variable {s : Text} {lx : Lexeme}

/-- A lexeme without a line feed is read again. -/
theorem addReturns (h : Heads s lx) (hreturn : '\r' ∉ s) (hkind : lx.kind ≠ .newline)
    (hfeed : '\n' ∉ s.take lx.length) : Heads s.addReturns lx := by
  cases h with
  | lineFeed rest => exact absurd rfl hkind
  | returnLineFeed rest => exact absurd rfl hkind
  | @blockComment rest hclosed =>
    simp only [Nat.add_comm 2, List.take_succ_cons, List.mem_cons, not_or] at hfeed
    have hbody := commentBody_addReturns hclosed hfeed.2.2
    rw [Text.addReturns_cons (by decide), Text.addReturns_cons (by decide)]
    rw [← hbody] at hclosed ⊢
    exact .blockComment hclosed
  | @blank c rest hblank hend =>
    have hc : c ≠ '\n' := by
      rintro rfl
      simp [isBlank] at hblank
    rw [← blankLength_addReturns hreturn, Text.addReturns_cons hc]
    refine .blank hblank fun more hc' => ?_
    exact absurd (List.mem_cons.mpr (Or.inl hc'.symm)) hreturn
  | lineComment hline =>
    rw [← lineLength_addReturns hreturn]
    exact .lineComment ((startsLineComment_addReturns s).trans hline)
  | @punctuation c rest kind hpunctuation hcomment =>
    have hc : c ≠ '\n' := by
      rintro rfl
      contradiction
    rw [Text.addReturns_cons hc]
    refine .punctuation hpunctuation fun more hopen hmore => ?_
    obtain ⟨behind, hbehind⟩ := Text.eq_cons_of_addReturns (by decide) hmore
    exact hcomment behind hopen hbehind
  | @string rest hclosed =>
    simp only [Nat.add_comm 1, List.take_succ_cons, List.mem_cons, not_or] at hfeed
    have hbody := stringBody_addReturns hclosed hfeed.2
    rw [Text.addReturns_cons (by decide)]
    rw [← hbody] at hclosed ⊢
    exact .string hclosed
  | @character rest hclosed =>
    simp only [Nat.add_comm 1, List.take_succ_cons, List.mem_cons, not_or] at hfeed
    have hbody := characterBody_addReturns hclosed hfeed.2
    rw [Text.addReturns_cons (by decide)]
    rw [← hbody] at hclosed ⊢
    exact .character hclosed
  | @number c rest hdigit =>
    have hc : c ≠ '\n' := by
      rintro rfl
      contradiction
    rw [← numberExtent_addReturns hfeed, Text.addReturns_cons hc]
    exact .number hdigit
  | @name c rest hdigit hname =>
    have hc : c ≠ '\n' := by
      rintro rfl
      contradiction
    have hrun := runLength_addReturns (p := isNameChar) (by decide) (by decide) (c :: rest)
    have htake := Text.take_addReturns hfeed
    rw [← htake, ← hrun, Text.addReturns_cons hc]
    exact .name hdigit hname
  | @symbols c rest hdigit hname hsymbol hline =>
    have hc : c ≠ '\n' := by
      rintro rfl
      contradiction
    have hrun := runLength_addReturns (p := isSymbol) (by decide) (by decide) (c :: rest)
    have htake := Text.take_addReturns hfeed
    rw [← startsLineComment_addReturns, Text.addReturns_cons hc] at hline
    rw [← htake, ← hrun, Text.addReturns_cons hc]
    exact .symbols hdigit hname hsymbol hline

end Lexeme.Heads

end OffsideRule
