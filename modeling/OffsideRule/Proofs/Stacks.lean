import OffsideRule.Proofs.Sources
import OffsideRule.Proofs.Termination

/-! The stack of open blocks at the moments of a resolution. It is never empty. Between two tokens
it holds the block around the whole source and, above it, the blocks that are open in the output,
each right of the one around it; and an opener that waits has been put out. -/

namespace OffsideRule.Layout

/-- An opener that was taken from the input. -/
structure TookOpener (c : Config) (s : State) (k : Token) : Prop where
  mem : k ∈ s.output
  real : k.virtual = false
  opener : c.isOpener k.kind = true

/-- The openers that a state names were taken from the input. -/
structure NamesOpeners (c : Config) (s : State) : Prop where
  awaited : ∀ k, s.phase = .awaiting k → TookOpener c s k
  warned : ∀ w ∈ s.warnings, ∃ k, TookOpener c s k ∧ w = k.givenUp

/-- What a reader of the output knows of the open blocks and of the openers. -/
structure Stacked (c : Config) (s : State) : Prop where
  columns : s.blocks.columns.reverse = topLevel :: (openColumns c s.output.reverse).reverse
  increasing : (openColumns c s.output.reverse).reverse.Pairwise (· < ·)
  nonneg : ∀ column ∈ openColumns c s.output.reverse, 0 ≤ column
  bracketed : Bracketed c s.output
  openers : NamesOpeners c s

section Openers

variable {c : Config} {m : Margins} {s s' : State} {t k : Token}

theorem Step.phase_eq (hstep : Step c m s t s') (hphase : s'.phase = .awaiting k) :
    s.phase = .awaiting k ∨ k = t ∧ c.isOpener t.kind = true := by
  cases hstep with
  | idles hdormant =>
    rw [State.emit_phase, State.await_phase, hdormant] at hphase
    exact Or.inr (eq_of_awaiting (by simp) hphase)
  | opens _ _ _ =>
    rw [State.openBlock_phase] at hphase
    exact Or.inr (eq_of_awaiting (by simp) hphase)
  | passes _ _ _ => exact Or.inl hphase
  | givesUp _ _ _ _ =>
    rw [State.proceed_phase, State.abandon_phase] at hphase
    exact Or.inr (eq_of_awaiting (by simp) hphase)
  | proceeds hrunning _ =>
    rw [State.proceed_phase, hrunning] at hphase
    exact Or.inr (eq_of_awaiting (by simp) hphase)

theorem Step.mem_warnings {w : Warning} (hstep : Step c m s t s') (hw : w ∈ s'.warnings) :
    w ∈ s.warnings ∨ ∃ opener, s.phase = .awaiting opener ∧ w = opener.givenUp := by
  cases hstep with
  | @givesUp opener hphase _ _ _ =>
    rw [State.proceed_warnings, State.abandon_warnings] at hw
    rcases List.mem_cons.mp hw with rfl | hw
    · exact Or.inr ⟨opener, hphase, rfl⟩
    · exact Or.inl hw
  | idles _ => exact Or.inl (by simpa using hw)
  | opens _ _ _ => exact Or.inl (by simpa using hw)
  | passes _ _ _ => exact Or.inl hw
  | proceeds _ _ => exact Or.inl (by simpa using hw)

/-- What was taken stays in the output. -/
theorem TookOpener.step (hstep : Step c m s t s') (h : TookOpener c s k) : TookOpener c s' k := by
  have hreals : k ∈ s'.reals := by
    rw [hstep.reals_append]
    exact List.mem_append_right _ (List.mem_filter.mpr ⟨h.mem, by simp [h.real]⟩)
  exact ⟨List.mem_of_mem_filter hreals, h.real, h.opener⟩

theorem TookOpener.of_step (ht : t.virtual = false) (hopener : c.isOpener t.kind = true)
    (hstep : Step c m s t s') : TookOpener c s' t := by
  have hreals : t ∈ s'.reals := by
    rw [hstep.reals_cons ht]
    exact List.mem_cons_self
  exact ⟨List.mem_of_mem_filter hreals, ht, hopener⟩

namespace NamesOpeners

theorem initial (c : Config) : NamesOpeners c .initial where
  awaited := by simp [State.initial]
  warned := by simp [State.initial]

theorem step (ht : t.virtual = false) (hstep : Step c m s t s') (h : NamesOpeners c s) :
    NamesOpeners c s' where
  awaited := by
    intro k hphase
    rcases hstep.phase_eq hphase with hphase | ⟨rfl, hopener⟩
    · exact (h.awaited k hphase).step hstep
    · exact .of_step ht hopener hstep
  warned := by
    intro w hw
    rcases hstep.mem_warnings hw with hw | ⟨opener, hphase, rfl⟩
    · obtain ⟨k, hk, rfl⟩ := h.warned w hw
      exact ⟨k, hk.step hstep, rfl⟩
    · exact ⟨opener, (h.awaited opener hphase).step hstep, rfl⟩

theorem run {tokens : List Token} (hreal : ∀ t ∈ tokens, t.virtual = false)
    (hrun : State.initial.run c m tokens = .ok s) : NamesOpeners c s :=
  State.run_invariant hrun (initial c) fun t _ _ ht h hstep => h.step (hreal t ht) hstep

/-- The opener that is given up is the one that waited. -/
theorem abandon {opener : Token} (hphase : s.phase = .awaiting opener) (h : NamesOpeners c s) :
    NamesOpeners c (s.abandon opener) where
  awaited := by simp
  warned := by
    intro w hw
    have hopener := h.awaited opener hphase
    rw [State.abandon_warnings] at hw
    rcases List.mem_cons.mp hw with rfl | hw
    · exact ⟨opener, ⟨hopener.mem, hopener.real, hopener.opener⟩, rfl⟩
    · obtain ⟨k, hk, rfl⟩ := h.warned w hw
      exact ⟨k, ⟨hk.mem, hk.real, hk.opener⟩, rfl⟩

end NamesOpeners

end Openers

/-- What a reader of the output holds and what the state names make up the stack. -/
theorem Tracks.stacked {c : Config} {s : State} (h : Tracks c s) (hnames : NamesOpeners c s) :
    Stacked c s where
  columns := by rw [h.columns, List.reverse_append, List.reverse_singleton, List.singleton_append]
  increasing := by
    have hdescending := h.descending
    rw [h.columns] at hdescending
    exact List.pairwise_reverse.mpr (List.pairwise_append.mp hdescending).1
  nonneg := by
    intro column hcolumn
    have := h.topLevel_lt column hcolumn
    unfold topLevel at this
    omega
  bracketed := h.bracketed
  openers := hnames

section Moments

variable {c : Config} {m : Margins} {tokens : List Token} {s : State} {x : Moment}

theorem Tracks.blocks_ne_nil (h : Tracks c s) : s.blocks.columns ≠ [] := by
  rw [h.columns]
  simp

/-- The rounds of a comparison leave a block: no code lies left of the outermost one. -/
theorem Tracks.left_ne_nil {column : Int} {closed left : List Int} (h : Tracks c s)
    (hcolumn : 0 ≤ column) (hcolumns : s.blocks.columns = closed ++ left)
    (hclosed : ∀ block ∈ closed, column < block) : left ≠ [] := by
  rintro rfl
  have hmem : topLevel ∈ closed := by
    rw [← List.append_nil closed, ← hcolumns, h.columns]
    simp
  have := hclosed topLevel hmem
  unfold topLevel at this
  omega

theorem Along.stacked (hcode : ∀ t ∈ tokens, t.code = true → 0 ≤ t.column)
    (hrun : ∀ xs ys s, tokens = xs ++ ys → State.initial.run c m xs = .ok s →
      Tracks c s ∧ NamesOpeners c s)
    (h : Along c m tokens x) :
    x.blocks.columns ≠ [] ∧ ∀ s todo turn, x = .looking s todo turn → Stacked c s := by
  cases h with
  | @taken xs ys s htokens hs =>
    obtain ⟨htracks, hnames⟩ := hrun xs ys s htokens hs
    refine ⟨htracks.blocks_ne_nil, fun u todo turn hx => ?_⟩
    cases hx
    exact htracks.stacked hnames
  | @givenUp xs ys t opener s htokens hs hphase =>
    obtain ⟨htracks, hnames⟩ := hrun xs (t :: ys) s htokens hs
    have habandon : Tracks c (s.abandon opener) := htracks.of_eq rfl rfl
    refine ⟨habandon.blocks_ne_nil, fun u todo turn hx => ?_⟩
    cases hx
    exact habandon.stacked (hnames.abandon hphase)
  | @compared xs ys later t s u closed turn htokens hs hcodes hcolumns hclosed _ =>
    obtain ⟨htracks, _⟩ := hrun xs (t :: ys) s htokens hs
    have hcolumn : 0 ≤ t.column := hcode t (by simp [htokens]) hcodes
    exact ⟨htracks.left_ne_nil hcolumn hcolumns hclosed, fun u todo turn hx => by cases hx⟩

end Moments

/-- At every moment of the resolution of real tokens, whose code does not lie in a negative column,
some block is open; between two tokens the open blocks are the block around the whole source and
those that the output has opened and not closed, further and further right; and the opener that
waits, like each that was given up, is a token of the output. -/
theorem after_stacked (c : Config) (hc : c.Distinct) (m : Margins) (tokens : List Token)
    (hreal : ∀ t ∈ tokens, t.virtual = false)
    (hcode : ∀ t ∈ tokens, t.code = true → 0 ≤ t.column ∧ m.Covers t.line) (n : Nat) (x : Moment)
    (h : (Moment.first tokens).after c m n = .ok (.going x)) :
    x.blocks.columns ≠ [] ∧ ∀ s todo turn, x = .looking s todo turn → Stacked c s := by
  have hleft : ∀ t ∈ tokens, t.code = true → -1 ≤ t.column ∧ m.Covers t.line := by
    intro t ht hcodes
    obtain ⟨hcolumn, hcovers⟩ := hcode t ht hcodes
    exact ⟨by omega, hcovers⟩
  obtain ⟨_, _, _, hleads, hend, hnext, _⟩ := Moment.leads_resolve c hleft
  have halong : Along c m tokens x := (hleads.ended hend hnext).2 n x h
  refine halong.stacked (fun t ht hcodes => (hcode t ht hcodes).1) fun xs ys s htokens hrun => ?_
  have hxs : ∀ t ∈ xs, t ∈ tokens := fun t ht => htokens ▸ List.mem_append_left ys ht
  exact ⟨(Tracks.initial c).run hc (fun t ht => hreal t (hxs t ht))
      (fun t ht hcodes => (hleft t (hxs t ht) hcodes).1) hrun,
    .run (fun t ht => hreal t (hxs t ht)) hrun⟩

/-- The opener on the second line has just been given up, and the third line is looked at again. -/
theorem after_stacked_again : ∃ s todo,
    (Moment.first unindented).after .haskell ⟨#[some 0, some 3, some 3]⟩ 7 =
      .ok (.going (.looking s todo 2)) ∧ s.blocks.columns ≠ [] ∧ Stacked .haskell s := by
  have h : (Moment.first unindented).after .haskell ⟨#[some 0, some 3, some 3]⟩ 7 =
      .ok (.going (.looking _ _ 2)) := rfl
  obtain ⟨hblocks, hstacked⟩ := after_stacked .haskell ⟨by decide, by decide, by decide⟩ _ unindented
    (by decide) (by decide) 7 _ h
  exact ⟨_, _, h, hblocks, hstacked _ _ _ rfl⟩

end OffsideRule.Layout
