import OffsideRule.Proofs.Edits

/-! Uniform indentation. Blanks in front of every line move all columns alike, so layout does not
see them. A token that holds a line feed of its own would change its text with the indentation; so
only the ends of lines may hold line feeds here. -/

namespace OffsideRule

namespace Text

/-- Puts `n` blanks behind every line feed. -/
def indentBelow (n : Nat) (s : Text) : Text :=
  s.flatMap fun c => if c = '\n' then '\n' :: List.replicate n ' ' else [c]

/-- Puts `n` blanks in front of every line. -/
def indent (n : Nat) (s : Text) : Text :=
  List.replicate n ' ' ++ s.indentBelow n

variable {n : Nat} {s : Text}

theorem indentBelow_append (s t : Text) :
    (s ++ t).indentBelow n = s.indentBelow n ++ t.indentBelow n :=
  List.flatMap_append

theorem indentBelow_of_not_mem (h : '\n' ∉ s) : s.indentBelow n = s := by
  induction s with
  | nil => rfl
  | cons c rest ih =>
    rw [List.mem_cons, not_or] at h
    rw [indentBelow, List.flatMap_cons, if_neg (Ne.symm h.1), ← indentBelow, ih h.2]
    rfl

theorem indentBelow_newline {w : Text} (h : w = ['\n'] ∨ w = ['\r', '\n']) :
    w.indentBelow n = w ++ List.replicate n ' ' := by
  rcases h with rfl | rfl <;> simp [indentBelow]

theorem indentBelow_feed (s : Text) :
    indentBelow n ('\n' :: s) = '\n' :: (List.replicate n ' ' ++ s.indentBelow n) := rfl

end Text

theorem blankLength_replicate (n : Nat) (s : Text) :
    blankLength (List.replicate n ' ' ++ s) = n + blankLength s := by
  induction n with
  | zero => simp
  | succ n ih =>
    rw [List.replicate_succ, List.cons_append, blankLength_cons, if_neg (by simp),
      if_pos (Or.inl (by decide)), ih]
    omega

namespace Lexeme.Heads

variable {s : Text} {lx : Lexeme}

/-- A lexeme without a line feed is read again where the lines below are indented. -/
theorem indentBelow {w rest : Text} (h : Heads (w ++ rest) lx) (hlength : lx.length = w.length)
    (n : Nat) : Heads (w ++ rest.indentBelow n) lx := by
  by_cases hfeed : '\n' ∈ rest
  · obtain ⟨a, b, rfl, ha⟩ := List.eq_append_cons_of_mem hfeed
    rw [Text.indentBelow_append, Text.indentBelow_of_not_mem ha, Text.indentBelow_feed]
    rw [← List.append_assoc] at h ⊢
    refine h.append_feed ?_ _
    rw [List.length_append, hlength]
    omega
  · rwa [Text.indentBelow_of_not_mem hfeed]

theorem blanks (n : Nat) (s : Text) :
    Heads (List.replicate (n + 1) ' ' ++ s) ⟨.blank, n + 1 + blankLength s⟩ := by
  rw [← blankLength_replicate, List.replicate_succ, List.cons_append]
  exact .blank (Or.inl (by decide)) (by simp)

/-- Where blanks stand at the front, they are the lexeme. -/
theorem eq_blank (h : Heads s lx) (hs : 0 < blankLength s) : lx = ⟨.blank, blankLength s⟩ := by
  cases s with
  | nil => contradiction
  | cons c rest =>
    rw [blankLength_cons] at hs
    split at hs
    · contradiction
    · next hend =>
      split at hs
      · next hblank =>
        have hread : read (c :: rest) = .ok ⟨.blank, blankLength (c :: rest)⟩ := by
          refine read_of_blank hblank ?_
          rintro more hc rfl
          exact hend ⟨hc, rfl⟩
        exact Except.ok.inj ((read_of_heads h).symm.trans hread)
      · contradiction

end Lexeme.Heads

namespace Layout

variable {c : Config} {tokens : List OffsideRule.Token} {s : Text} {p q : Position}

/-- Blanks are no code and end no line. -/
theorem sights_blank (hc : c.Variant) (column : Int) (fresh : Bool) {t : OffsideRule.Token}
    (ht : t.kind = .blank) (more : List OffsideRule.Token) :
    sights c ⟨column, fresh⟩ (t :: more) = sights c ⟨column + t.text.length, fresh⟩ more := by
  have hcode : c.isCode (some .blank) = false := by
    obtain ⟨kinds, close, -, rfl⟩ := hc.shape
    rfl
  have hother : t.kind ≠ c.endOfLine := by simp [ht, hc.kinds.1]
  rw [sights, Spot.behind, if_neg hother, ht, hcode]
  simp

theorem sights_newline (hc : c.Variant) (spot : Spot) {t : OffsideRule.Token}
    (ht : t.kind = .newline) (more : List OffsideRule.Token) :
    sights c spot (t :: more) = sights c .lineStart more := by
  have hkind : t.kind = c.endOfLine := ht.trans hc.kinds.1.symm
  rw [sights, Spot.behind, if_pos hkind, hkind, hc.regular.endOfLine_not_code]
  rfl

/-- Blanks in front of a text move all that stands on its first line. -/
theorem exists_reads_blanks (hc : c.Variant) (h : Reads ⟨p, s⟩ tokens ⟨q, []⟩) (n : Nat)
    (p' : Position) :
    ∃ moved q', Reads ⟨p', List.replicate n ' ' ++ s⟩ moved ⟨q', []⟩ ∧
      ∀ column fresh, sights c ⟨column, fresh⟩ moved = sights c ⟨column + n, fresh⟩ tokens := by
  cases n with
  | zero =>
    obtain ⟨moved, q', hmoved, hcontent⟩ := h.relocate p'
    refine ⟨moved, q', hmoved, fun column fresh => ?_⟩
    rw [(sights_congr hcontent).1]
    simp
  | succ n =>
    have hheads := Lexeme.Heads.blanks n s
    rcases Nat.eq_zero_or_pos (blankLength s) with hzero | hpos
    · obtain ⟨moved, q', hmoved, hcontent⟩ :=
        h.relocate (p'.advance (List.replicate (n + 1) ' '))
      rw [hzero, Nat.add_zero] at hheads
      refine ⟨_, q', .cons hheads List.length_replicate.symm hmoved, fun column fresh => ?_⟩
      rw [sights_blank hc column fresh rfl, (sights_congr hcontent).1, List.length_replicate]
    · -- the blanks join those that stand at the front
      cases h with
      | refl => contradiction
      | @step _ _ lx more hfirst hmore =>
        obtain rfl := hfirst.eq_blank hpos
        have hlength : (s.take (blankLength s)).length = blankLength s :=
          List.length_take_of_le hfirst.length_le
        obtain ⟨moved, q', hmoved, hcontent⟩ :=
          hmore.relocate (p'.advance (List.replicate (n + 1) ' ' ++ s.take (blankLength s)))
        have hsplit : List.replicate (n + 1) ' ' ++ s =
            (List.replicate (n + 1) ' ' ++ s.take (blankLength s)) ++ s.drop (blankLength s) := by
          rw [List.append_assoc, List.take_append_drop]
        rw [hsplit] at hheads ⊢
        refine ⟨_, q', .cons hheads ?_ hmoved, fun column fresh => ?_⟩
        · rw [List.length_append, List.length_replicate, hlength]
        · rw [sights_blank hc column fresh rfl, sights_blank hc _ fresh rfl,
            (sights_congr hcontent).1]
          simp only [Cursor.token, List.length_append, List.length_replicate, Int.natCast_add,
            Int.add_assoc]

/-- If the sights behind a token that ends no line are moved, all are moved from its spot on. -/
theorem sights_moved (hc : c.Variant) {t u : OffsideRule.Token} (ht : t.kind ≠ .newline)
    (hu : u.content = t.content) {more moved : List OffsideRule.Token} {n : Nat}
    (h : ∀ column fresh, sights c ⟨column + n, fresh⟩ moved =
      (sights c ⟨column, fresh⟩ more).map (·.moved (· + n))) (column : Int) (fresh : Bool) :
    sights c ⟨column + n, fresh⟩ (u :: moved) =
      (sights c ⟨column, fresh⟩ (t :: more)).map (·.moved (· + n)) := by
  obtain ⟨hkind, htext⟩ : u.kind = t.kind ∧ u.text = t.text := Prod.mk.inj hu
  have hother : t.kind ≠ c.endOfLine := hc.kinds.1 ▸ ht
  have hmore := h (column + t.text.length) (fresh && !c.isCode (some t.kind))
  rw [sights, sights, Spot.behind, Spot.behind, hkind, htext, if_neg hother, if_neg hother,
    Int.add_right_comm, hmore]
  split
  · rw [List.map_cons]
    rfl
  · rfl

/-- Indented below its first line, a text is seen in moved columns from a moved spot on. -/
theorem exists_reads_indentBelow (hc : c.Variant) (h : Reads ⟨p, s⟩ tokens ⟨q, []⟩)
    (hlines : ∀ t ∈ tokens, t.kind ≠ .newline → '\n' ∉ t.text) (n : Nat) (p' : Position) :
    ∃ moved q', Reads ⟨p', s.indentBelow n⟩ moved ⟨q', []⟩ ∧
      ∀ column fresh, sights c ⟨column + n, fresh⟩ moved =
        (sights c ⟨column, fresh⟩ tokens).map (·.moved (· + n)) := by
  generalize hk : (⟨p, s⟩ : Cursor) = k at h
  generalize hk' : (⟨q, []⟩ : Cursor) = k' at h
  induction h generalizing p s p' with
  | refl k =>
    subst hk
    cases hk'
    exact ⟨[], p', .refl _, fun _ _ => rfl⟩
  | @step k k' lx more hheads hmore ih =>
    subst hk
    have hlength : (s.take lx.length).length = lx.length := List.length_take_of_le hheads.length_le
    have hs : s.take lx.length ++ s.drop lx.length = s := List.take_append_drop _ _
    obtain ⟨below, q₁, hbelow, hsights⟩ := ih (s := s.drop lx.length)
      (fun t ht => hlines t (List.mem_cons_of_mem _ ht)) (p'.advance (s.take lx.length)) rfl hk'
    have hindent : s.indentBelow n =
        Text.indentBelow n (s.take lx.length) ++ Text.indentBelow n (s.drop lx.length) := by
      rw [← Text.indentBelow_append, hs]
    rw [hindent]
    by_cases hkind : lx.kind = .newline
    · obtain ⟨moved, q₂, hmoved, hblanks⟩ :=
        exists_reads_blanks hc hbelow n (p'.advance (s.take lx.length))
      have hnewline : s.take lx.length = ['\n'] ∨ s.take lx.length = ['\r', '\n'] :=
        Cursor.token_newline hheads hkind
      rw [Text.indentBelow_newline hnewline, List.append_assoc]
      refine ⟨_, q₂, .cons (hheads.of_newline_append hkind _) hlength.symm hmoved, fun _ _ => ?_⟩
      rw [sights_newline hc _ hkind, sights_newline hc _ hkind, Spot.lineStart, hblanks, hsights]
    · have hfeed : '\n' ∉ s.take lx.length := hlines (Cursor.token ⟨p, s⟩ lx) (by simp) hkind
      have hfirst : Lexeme.Heads (s.take lx.length ++ s.drop lx.length) lx := hs.symm ▸ hheads
      rw [Text.indentBelow_of_not_mem hfeed]
      exact ⟨_, q₁, .cons (hfirst.indentBelow hlength.symm n) hlength.symm hbelow,
        sights_moved hc hkind rfl hsights⟩

/-- Blanks in front of every line, as many on each, are not seen. -/
theorem lookAlike_of_indent (hc : c.Variant) {source : Text}
    (h : Reads (.start source) tokens ⟨q, []⟩) (hlines : ∀ t ∈ tokens, t.kind ≠ .newline → '\n' ∉ t.text) (n : Nat) :
    LookAlike c (· + n) source (source.indent n) := by
  obtain ⟨below, q₁, hbelow, hsights⟩ := exists_reads_indentBelow hc h hlines n .origin
  obtain ⟨moved, q₂, hmoved, hblanks⟩ := exists_reads_blanks hc hbelow n .origin
  refine lookAlike_of_sights (fun x y hlt => ?_) h hmoved ?_
  · exact Int.add_lt_add_right hlt n
  · rw [Spot.lineStart, hblanks, hsights]

/-- So they change nothing of the structure. -/
theorem resolveText_indent (hc : c.Variant) {source : Text} (h : tokenize source = .ok tokens)
    (hlines : ∀ t ∈ tokens, t.kind ≠ .newline → '\n' ∉ t.text) (n : Nat) :
    ∃ r₁ r₂, resolveText c source = .ok r₁ ∧ resolveText c (source.indent n) = .ok r₂ ∧
      skeleton r₁.tokens = skeleton r₂.tokens ∧ r₁.warnings.length = r₂.warnings.length := by
  obtain ⟨front, k, hreads, hend, rfl⟩ := exists_reads_of_tokenize h
  obtain ⟨p, rest⟩ := k
  obtain rfl : rest = [] := hend
  have hfront : ∀ t ∈ front, t.kind ≠ .newline → '\n' ∉ t.text :=
    fun t ht => hlines t (List.mem_append_left _ ht)
  exact (lookAlike_of_indent hc hreads hfront n).resolveText hc

end Layout

end OffsideRule
