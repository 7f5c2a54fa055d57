import OffsideRule.Proofs.Steps

/-! Anchors of the added delimiters. Each delimiter stands at the start of the first real token
behind it, its anchor. A line puts its delimiters before the end of the line above, so that what
was the anchor of an older delimiter remains the first real token behind it. -/

namespace OffsideRule.Layout

/-- Every added token of an output, newest first, was made for the first real token behind it. For
the newest ones `behind` is this token. -/
def Anchored (behind : Option Token) : List Token → Prop
  | [] => True
  | t :: older =>
    if t.virtual then (∃ kind anchor, behind = some anchor ∧ t = .before kind anchor) ∧
      Anchored behind older
    else Anchored (some t) older

namespace Anchored

variable {behind : Option Token} {t v : Token} {output added later newer older : List Token}

theorem cons_real (ht : t.virtual = false) :
    Anchored behind (t :: output) ↔ Anchored (some t) output := by
  simp [Anchored, ht]

theorem cons_virtual (ht : t.virtual = true) :
    Anchored behind (t :: output) ↔
      (∃ kind anchor, behind = some anchor ∧ t = .before kind anchor) ∧ Anchored behind output := by
  simp [Anchored, ht]

/-- An output that needs nothing behind it may be followed by anything. -/
theorem of_none (h : Anchored none output) : Anchored behind output := by
  cases output with
  | nil => trivial
  | cons t older =>
    cases ht : t.virtual with
    | false =>
      rw [cons_real ht] at h ⊢
      exact h
    | true =>
      obtain ⟨⟨_, _, hnone, _⟩, _⟩ := (cons_virtual ht).mp h
      contradiction

/-- Delimiters for the token behind may be put in. -/
theorem insert (hadded : ∀ u ∈ added, ∃ kind, u = .before kind t) (h : Anchored (some t) output) :
    Anchored (some t) (added ++ output) := by
  induction added with
  | nil => exact h
  | cons u more ih =>
    obtain ⟨kind, hu⟩ := hadded u (by simp)
    have hvirtual : u.virtual = true := by rw [hu]; rfl
    rw [List.cons_append, cons_virtual hvirtual]
    exact ⟨⟨kind, t, rfl, hu⟩, ih fun v hv => hadded v (by simp [hv])⟩

/-- The token behind the older part of an output is the oldest of the real ones put on top. -/
theorem append_real (hlater : ∀ u ∈ later, u.virtual = false) :
    Anchored (some t) (later ++ output) ↔ Anchored (some (later.getLast?.getD t)) output := by
  induction later generalizing t with
  | nil => rfl
  | cons u more ih =>
    rw [List.cons_append, cons_real (hlater u (by simp)), ih fun v hv => hlater v (by simp [hv]),
      List.getLast?_cons]
    rfl

theorem code (h : Anchored behind output) : ∀ u ∈ output, u.virtual = true → u.code = true := by
  induction output generalizing behind with
  | nil => simp
  | cons t older ih =>
    intro u hu hvirtual
    cases ht : t.virtual with
    | false =>
      rcases List.mem_cons.mp hu with rfl | hu
      · simp [ht] at hvirtual
      · exact ih ((cons_real ht).mp h) u hu hvirtual
    | true =>
      obtain ⟨⟨kind, anchor, _, heq⟩, hold⟩ := (cons_virtual ht).mp h
      rcases List.mem_cons.mp hu with rfl | hu
      · rw [heq]
        rfl
      · exact ih hold u hu hvirtual

/-- The first real token behind a delimiter is its anchor. -/
theorem find (h : Anchored behind (newer ++ v :: older)) (hv : v.virtual = true) :
    ∃ kind anchor, (newer.reverse.find? (!·.virtual)).or behind = some anchor ∧
      v = .before kind anchor := by
  induction newer generalizing behind with
  | nil =>
    obtain ⟨hanchor, _⟩ := (cons_virtual hv).mp h
    exact hanchor
  | cons u more ih =>
    rw [List.cons_append] at h
    rw [List.reverse_cons, List.find?_append]
    cases hu : u.virtual with
    | false =>
      obtain ⟨kind, anchor, hanchor, heq⟩ := ih ((cons_real hu).mp h)
      refine ⟨kind, anchor, ?_, heq⟩
      simpa [hu] using hanchor
    | true =>
      obtain ⟨kind, anchor, hanchor, heq⟩ := ih ((cons_virtual hu).mp h).2
      refine ⟨kind, anchor, ?_, heq⟩
      simpa [hu] using hanchor

end Anchored

namespace State

variable {c : Config} {m : Margins} {s s' : State} {t : Token}

/-- With the line that begins with `t`, the delimiters of this line are anchored too. -/
theorem anchored_started (atMargin : Bool) (h : Anchored none s.output) :
    Anchored (some t) (s.started c t atMargin).output := by
  cases atMargin with
  | false =>
    rw [started_false, await_output]
    exact h.of_none
  | true =>
    -- the oldest token of the gap is real, and so it was the anchor of what lies before the gap
    have hlater := gap_later_real c.endOfLine h.code
    have hearlier : Anchored (some (s.anchor c t)) (gap c.endOfLine s.output).earlier := by
      rw [anchor, ← Anchored.append_real hlater, gap_append]
      exact h.of_none
    have hdelimiters : ∀ u ∈ s.delimiters c t, ∃ kind, u = .before kind (s.anchor c t) := by
      intro u hu
      rcases s.mem_delimiters c t hu with rfl | rfl
      · exact ⟨_, rfl⟩
      · exact ⟨_, rfl⟩
    rw [started_true, startLine_output, await_output, delimiters_await, List.append_assoc,
      Anchored.append_real hlater]
    exact hearlier.insert hdelimiters

theorem anchored_proceed (ht : t.virtual = false) (atMargin : Bool) (h : Anchored none s.output) :
    Anchored none (s.proceed c t atMargin).output := by
  have hstarted : Anchored (some t) (s.started c t atMargin).output := anchored_started atMargin h
  rw [proceed, emit_output, Anchored.cons_real ht, closeLet_output]
  split
  · rw [← List.singleton_append]
    exact hstarted.insert fun u hu => ⟨_, List.mem_singleton.mp hu⟩
  · exact hstarted

theorem anchored_step (ht : t.virtual = false) (hstep : Step c m s t s')
    (h : Anchored none s.output) : Anchored none s'.output := by
  cases hstep with
  | idles _ =>
    rw [emit_output, await_output, Anchored.cons_real ht]
    exact h.of_none
  | opens _ _ _ =>
    rw [openBlock_output, Anchored.cons_real ht, ← List.singleton_append]
    exact h.of_none.insert fun u hu => ⟨_, List.mem_singleton.mp hu⟩
  | passes _ _ _ =>
    rw [emit_output, Anchored.cons_real ht]
    exact h.of_none
  | givesUp _ _ _ _ => exact anchored_proceed ht true h
  | proceeds _ _ => exact anchored_proceed ht _ h

theorem anchored_run {tokens : List Token} (hreal : ∀ t ∈ tokens, t.virtual = false)
    (hrun : initial.run c m tokens = .ok s) : Anchored none s.output :=
  run_invariant hrun trivial fun t _ _ ht h hstep => anchored_step (hreal t ht) hstep h

theorem anchored_finish {atEnd : Token} (hreal : atEnd.virtual = false)
    (h : Anchored none s.output) : Anchored none (s.finish c atEnd).output := by
  obtain ⟨added, houtput, hadded⟩ := s.finish_added c atEnd
  rw [houtput, Anchored.cons_real hreal]
  exact h.of_none.insert fun u hu => (hadded u hu).elim (⟨_, ·⟩) (⟨_, ·⟩)

end State

/-- Each token that resolution adds to real ones is followed by a real token, and the first of them
is where it stands. -/
theorem resolve_anchored (c : Config) (m : Margins) (tokens : List Token)
    (hreal : ∀ t ∈ tokens, t.virtual = false)
    (hcode : ∀ t ∈ tokens, t.code = true → -1 ≤ t.column ∧ m.Covers t.line) :
    ∃ r, resolve c m tokens = .ok r ∧
      ∀ before v after, r.tokens = before ++ v :: after → v.virtual = true →
        ∃ anchor, after.find? (!·.virtual) = some anchor ∧ v.start = anchor.start ∧
          v.stop = anchor.start ∧ v.column = anchor.column ∧ v.line = anchor.line ∧
          v.code = true := by
  obtain ⟨s, r, hrun, hresolve, hr⟩ := resolve_run c fun t ht hcodes => (hcode t ht hcodes).2
  have hrun' : Anchored none s.output :=
    State.anchored_run (fun t ht => hreal t ((tokens.takeWhile_sublist _).subset ht)) hrun
  have houtput : Anchored none r.tokens.reverse := by
    rcases hr with ⟨_, rfl⟩ | ⟨atEnd, hfind, rfl⟩
    · rw [Resolution.ofState, List.reverse_reverse]
      exact hrun'
    · rw [Resolution.ofState, List.reverse_reverse]
      exact State.anchored_finish (hreal atEnd (List.mem_of_find?_eq_some hfind)) hrun'
  refine ⟨r, hresolve, fun before v after htokens hvirtual => ?_⟩
  rw [htokens, List.reverse_append, List.reverse_cons, List.append_assoc,
    List.singleton_append] at houtput
  obtain ⟨kind, anchor, hanchor, rfl⟩ := houtput.find hvirtual
  rw [List.reverse_reverse, Option.or_none] at hanchor
  exact ⟨anchor, hanchor, rfl, rfl, rfl, rfl, rfl⟩

/-- The second line closes the block of the first one at the end of this line, and its own block is
empty. -/
def dedented : List Token :=
  [⟨some (.keyword .doK), 0, 2, 0, 0, true, false⟩, ⟨some .variableId, 3, 4, 3, 0, true, false⟩,
    ⟨some .newline, 4, 5, 4, 0, false, false⟩, ⟨some (.keyword .doK), 5, 7, 0, 1, true, false⟩,
    ⟨none, 7, 7, 2, 1, false, false⟩]

theorem resolve_anchored_dedented : ∃ r, resolve .haskell ⟨#[some 0, some 0]⟩ dedented = .ok r ∧
    ∀ before v after, r.tokens = before ++ v :: after → v.virtual = true →
      ∃ anchor, after.find? (!·.virtual) = some anchor ∧ v.start = anchor.start ∧
        v.stop = anchor.start ∧ v.column = anchor.column ∧ v.line = anchor.line ∧
        v.code = true :=
  resolve_anchored .haskell ⟨#[some 0, some 0]⟩ dedented (by decide) (by decide)

end OffsideRule.Layout
