import OffsideRule.Proofs.Balance

/-! The delimiters that belong together. A reader of the output who keeps, for each open block, what
stands before the delimiter that opened it holds the opening delimiter of the innermost block when a
closing one comes: the output between the two is balanced. -/

namespace OffsideRule.Layout

/-- For each open block of an output, newest first, the output before the delimiter that opened it;
the innermost block comes first. -/
def entries (c : Config) : List Token → List (List Token)
  | [] => []
  | t :: older =>
    if t.isOpening c then older :: entries c older
    else if t.isClosing c then (entries c older).tail
    else entries c older

section Entries

variable {c : Config} {t : Token} {older output later : List Token}

theorem entries_real (ht : t.virtual = false) : entries c (t :: older) = entries c older := by
  simp [entries, Token.isOpening, Token.isClosing, ht]

theorem entries_open : entries c (.before c.openKind t :: older) = older :: entries c older := by
  rw [entries, if_pos (isOpening_before c t)]

theorem entries_close (hc : c.Distinct) :
    entries c (.before c.closeKind t :: older) = (entries c older).tail := by
  simp [entries, Token.isOpening, Token.isClosing, Token.before, hc.open_ne_close.symm]

theorem entries_separator (hc : c.Distinct) :
    entries c (.before c.separatorKind t :: older) = entries c older := by
  simp [entries, Token.isOpening, Token.isClosing, Token.before, hc.open_ne_separator.symm,
    hc.separator_ne_close]

theorem entries_append_real (hlater : ∀ t ∈ later, t.virtual = false) :
    entries c (later ++ output) = entries c output := by
  induction later with
  | nil => rfl
  | cons t later ih =>
    rw [List.cons_append, entries_real (hlater t (by simp)), ih fun t ht => hlater t (by simp [ht])]

theorem entries_closes (hc : c.Distinct) (t : Token) (n : Nat) :
    entries c (List.replicate n (.before c.closeKind t) ++ output) = (entries c output).drop n := by
  induction n with
  | zero => rfl
  | succ n ih => rw [List.replicate_succ, List.cons_append, entries_close hc, ih, List.tail_drop]

/-- There is an entry for each open column. -/
theorem length_entries (c : Config) (output : List Token) :
    (entries c output).length = (openColumns c output.reverse).length := by
  induction output with
  | nil => rfl
  | cons t older ih =>
    rw [openColumns_reverse_cons, entries, track]
    split
    · rw [List.length_cons, List.length_cons, ih]
    · split
      · rw [List.length_tail, List.length_tail, ih]
      · exact ih

/-- An output lies `depth` blocks deep in the block that was opened behind `before`: so many of the
blocks opened in it are open, and nowhere were more closed than opened. -/
def Inside (c : Config) (before : List Token) (depth : Nat) (output : List Token) : Prop :=
  ∃ d inner, output = inner ++ d :: before ∧ d.isOpening c = true ∧
    (∀ front, front <+: inner.reverse →
      front.countP (·.isClosing c) ≤ front.countP (·.isOpening c)) ∧
    inner.countP (·.isOpening c) = inner.countP (·.isClosing c) + depth

/-- One token more, which does not close the block. -/
theorem Inside.cons {before : List Token} {depth depth' : Nat} (h : Inside c before depth older)
    (hdepth : (if t.isOpening c then 1 else 0) + depth =
      (if t.isClosing c then 1 else 0) + depth') : Inside c before depth' (t :: older) := by
  obtain ⟨d, inner, rfl, hd, hfronts, hinner⟩ := h
  have hwhole : (t :: inner).countP (·.isOpening c) =
      (t :: inner).countP (·.isClosing c) + depth' := by
    rw [List.countP_cons, List.countP_cons]
    omega
  refine ⟨d, t :: inner, rfl, hd, fun front hfront => ?_, hwhole⟩
  rw [List.reverse_cons, List.prefix_concat_iff] at hfront
  rcases hfront with rfl | hfront
  · rw [← List.reverse_cons, List.countP_reverse, List.countP_reverse]
    omega
  · exact hfronts front hfront

/-- Each entry is that of a block the output lies in, as deep as there are entries before it. -/
theorem inside_of_entries (hc : c.Distinct) {inside outside : List (List Token)}
    {before : List Token} (h : entries c output = inside ++ before :: outside) :
    Inside c before inside.length output := by
  induction output generalizing inside with
  | nil => simp [entries] at h
  | cons t older ih =>
    rw [entries] at h
    by_cases hopening : t.isOpening c = true
    · rw [if_pos hopening] at h
      cases inside with
      | nil =>
        obtain ⟨rfl, -⟩ := List.cons_eq_cons.mp h
        exact ⟨t, [], rfl, hopening, by simp, rfl⟩
      | cons entry inside =>
        obtain ⟨-, hold⟩ := List.cons_eq_cons.mp h
        apply (ih hold).cons
        rw [if_pos hopening, if_neg (not_isClosing_of_isOpening hc hopening), List.length_cons]
        omega
    · rw [if_neg hopening] at h
      by_cases hclosing : t.isClosing c = true
      · rw [if_pos hclosing] at h
        cases hentries : entries c older with
        | nil => simp [hentries] at h
        | cons entry rest =>
          have hold : entries c older = (entry :: inside) ++ before :: outside := by
            rw [hentries, List.cons_append, ← h, hentries, List.tail_cons]
          apply (ih hold).cons
          rw [if_neg hopening, if_pos hclosing, List.length_cons]
          omega
      · rw [if_neg hclosing] at h
        apply (ih h).cons
        rw [if_neg hopening, if_neg hclosing]

/-- Behind the delimiter that opened the innermost block the output is balanced. -/
theorem balanced_of_entries (hc : c.Distinct) {outside : List (List Token)} {before : List Token}
    (h : entries c output = before :: outside) :
    ∃ d inner, output = inner ++ d :: before ∧ d.isOpening c = true ∧
      Balanced c inner.reverse := by
  have hnone : entries c output = [] ++ before :: outside := h
  obtain ⟨d, inner, houtput, hd, hfronts, hinner⟩ := inside_of_entries hc hnone
  refine ⟨d, inner, houtput, hd, hfronts, ?_⟩
  rw [List.countP_reverse, List.countP_reverse, hinner]
  rfl

end Entries

section Unique

variable {c : Config} {mid inner inner' before before' : List Token} {d d' : Token}

theorem not_balanced_of_opening (hc : c.Distinct) (hd : d.isOpening c = true)
    (hinner : Balanced c inner) : ¬ Balanced c (mid ++ d :: inner) := by
  intro h
  have hmid := h.nested mid (List.prefix_append _ _)
  have hwhole := h.complete
  have hopens : (d :: inner).countP (·.isOpening c) = inner.countP (·.isOpening c) + 1 :=
    List.countP_cons_of_pos hd
  have hcloses : (d :: inner).countP (·.isClosing c) = inner.countP (·.isClosing c) :=
    List.countP_cons_of_neg (not_isClosing_of_isOpening hc hd)
  rw [List.countP_append, List.countP_append, hopens, hcloses, hinner.complete] at hwhole
  omega

/-- Only one opening delimiter is left behind which tokens are balanced up to their end. -/
theorem opening_unique (hc : c.Distinct) (hd : d.isOpening c = true) (hd' : d'.isOpening c = true)
    (hinner : Balanced c inner) (hinner' : Balanced c inner')
    (h : before ++ d :: inner = before' ++ d' :: inner') : before = before' := by
  rcases List.append_eq_append_iff.mp h with ⟨mid, hmid, hrest⟩ | ⟨mid, hmid, hrest⟩
  · cases mid with
    | nil => rw [hmid, List.append_nil]
    | cons v mid =>
      obtain ⟨-, hsplit⟩ := List.cons_eq_cons.mp hrest
      exact absurd (hsplit ▸ hinner) (not_balanced_of_opening hc hd' hinner')
  · cases mid with
    | nil => rw [hmid, List.append_nil]
    | cons v mid =>
      obtain ⟨-, hsplit⟩ := List.cons_eq_cons.mp hrest
      exact absurd (hsplit ▸ hinner') (not_balanced_of_opening hc hd hinner)

end Unique

end OffsideRule.Layout
