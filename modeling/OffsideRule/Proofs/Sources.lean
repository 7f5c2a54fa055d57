import OffsideRule.Proofs.Balance
import OffsideRule.Proofs.Lines

/-! Runs over laid tokens. No open block lies right of the code token taken last, an awaited opener
is this token itself, and before the first opener no block is open (`Consistent`). So each code
token that an opener waits for either opens the block or, as the first of its line, makes the
opener give up, and tokens that are no code are copied. -/

namespace OffsideRule.Layout

@[simp] theorem lastCode_concat (xs : List Token) (t : Token) :
    lastCode (xs ++ [t]) = if t.code then some t else lastCode xs := by
  unfold lastCode
  rw [List.filter_append]
  split
  · next h => simp [h]
  · next h => simp [h]

theorem lastCode_reverse (output : List Token) :
    lastCode output.reverse = (output.filter (·.code)).head? := by
  rw [lastCode, List.filter_reverse, List.getLast?_reverse]

theorem exists_of_lastCode {xs : List Token} {k : Token} (h : lastCode xs = some k) :
    ∃ front back, xs = front ++ k :: back ∧ k.code = true ∧ ∀ u ∈ back, u.code = false := by
  induction xs using List.reverseRecOn with
  | nil => contradiction
  | append_singleton xs t ih =>
    rw [lastCode_concat] at h
    split at h
    · next hcode =>
      cases h
      exact ⟨xs, [], rfl, hcode, by simp⟩
    · next hcode =>
      obtain ⟨front, back, hxs, hk, hback⟩ := ih h
      refine ⟨front, back ++ [t], by simp [hxs], hk, fun u hu => ?_⟩
      rcases List.mem_append.mp hu with hu | hu
      · exact hback u hu
      · rw [List.mem_singleton.mp hu]
        simpa using hcode

theorem mem_of_lastCode {xs : List Token} {u : Token} (h : lastCode xs = some u) :
    u ∈ xs ∧ u.code = true := by
  obtain ⟨front, back, rfl, hcode, _⟩ := exists_of_lastCode h
  exact ⟨by simp, hcode⟩

namespace Blocks

theorem peek_dedent_le (b : Blocks) {column : Int} (hcolumn : topLevel ≤ column) :
    (b.dedent column).remaining.peek ≤ column := by
  rw [dedent_remaining, peek]
  cases hrest : b.columns.dropWhile (column < ·) with
  | nil => exact hcolumn
  | cons block outer =>
    have hhead := List.head?_dropWhile_not (column < ·) b.columns
    rw [hrest] at hhead
    simpa using hhead

end Blocks

namespace Tracks

variable {c : Config} {s : State} {t : Token}

theorem topLevel_le_peek (h : Tracks c s) : topLevel ≤ s.blocks.peek :=
  h.le_peek topLevel (by rw [h.columns]; simp)

theorem peek_closeLet_le (h : Tracks c s) : (s.closeLet c t).blocks.peek ≤ s.blocks.peek := by
  rw [State.closeLet_blocks]
  split
  · rw [Blocks.pop, Blocks.peek]
    cases htail : s.blocks.columns.tail with
    | nil => exact h.topLevel_le_peek
    | cons block outer =>
      exact h.le_peek block (List.mem_of_mem_tail (by rw [htail]; simp))
  · exact Int.le_refl _

end Tracks

/-- A token that is no code is copied. -/
theorem Step.eq_emit {c : Config} (hc : c.Regular) {m : Margins} {s s' : State} {t : Token}
    (hkind : t.code = c.isCode t.kind) (hcode : t.code = false) (h : Step c m s t s') :
    s' = s.emit t := by
  have hopener : c.isOpener t.kind = false := hc.not_opener (hkind ▸ hcode)
  have hin : (t.kind == some c.inKind) = false := by
    cases hin : t.kind == some c.inKind with
    | false => rfl
    | true =>
      rw [beq_iff_eq] at hin
      rw [← hcode, hkind, hin, hc.code_of_in]
  have hawait : s.await c t = s := by simp [State.await, hopener]
  have hmargin : inMargin m t = .ok false := by simp [inMargin, hcode]
  cases h with
  | idles _ => rw [hawait]
  | opens _ hcode' _ => simp [hcode] at hcode'
  | passes _ _ _ => rfl
  | givesUp _ hcode' _ _ => simp [hcode] at hcode'
  | proceeds _ hin' =>
    rw [hmargin] at hin'
    cases hin'
    rw [State.proceed, State.started_false, hawait, State.closeLet]
    simp [hin]

structure Consistent (c : Config) (taken : List Token) (s : State) : Prop where
  tracks : Tracks c s
  lined : Lined c taken s
  newest : s.codes.head? = lastCode taken
  left : ∀ u, lastCode taken = some u → s.blocks.peek ≤ u.column
  dormant : s.phase = .dormant → s.blocks.peek = topLevel
  awaiting : ∀ opener, s.phase = .awaiting opener →
    lastCode taken = some opener ∧ c.isOpener opener.kind = true

namespace Consistent

variable {c : Config} {m : Margins} {s s' : State} {xs ys : List Token} {t : Token}

theorem initial (c : Config) : Consistent c [] State.initial where
  tracks := .initial c
  lined := .initial c
  newest := rfl
  left := by simp [lastCode]
  dormant := fun _ => rfl
  awaiting := by simp [State.initial]

/-- Code that does not begin its line lies right of all open blocks. -/
theorem peek_lt (hlaid : Laid c m (xs ++ t :: ys)) (h : Consistent c xs s) (hcode : t.code = true)
    (hnot : ¬ BeginsLine (xs ++ t :: ys) t) : s.blocks.peek < t.column := by
  obtain ⟨u, hu, _, hcolumn⟩ := hlaid.lastCode_of_not_beginsLine hcode hnot
  have := h.left u hu
  omega

/-- Whether code is in the margin of its line is whether it begins the line. -/
theorem inMargin_iff (hlaid : Laid c m (xs ++ t :: ys)) (hcode : t.code = true) {atMargin : Bool}
    (hin : inMargin m t = .ok atMargin) :
    atMargin = true ↔ BeginsLine (xs ++ t :: ys) t := by
  rw [hlaid.margin t (by simp) hcode] at hin
  cases hin
  rw [decide_eq_true_iff]

/-- Code that an opener waits for does not pass by. -/
theorem not_passes (hlaid : Laid c m (xs ++ t :: ys)) (h : Consistent c xs s)
    (hcode : t.code = true) (hleft : t.column ≤ s.blocks.peek) : inMargin m t ≠ .ok false := by
  intro hin
  have hnot : ¬ BeginsLine (xs ++ t :: ys) t := by
    rw [← inMargin_iff hlaid hcode hin]
    simp
  have := h.peek_lt hlaid hcode hnot
  omega

theorem topLevel_le (hlaid : Laid c m (xs ++ t :: ys)) : topLevel ≤ t.column := by
  have := hlaid.column_nonneg t (by simp)
  unfold topLevel
  omega

theorem peek_started_le (hlaid : Laid c m (xs ++ t :: ys)) (h : Consistent c xs s)
    (hcode : t.code = true) {atMargin : Bool} (hin : inMargin m t = .ok atMargin) :
    (s.started c t atMargin).blocks.peek ≤ t.column := by
  cases atMargin with
  | true =>
    rw [State.started_true, State.startLine_blocks, State.await_blocks]
    exact s.blocks.peek_dedent_le (topLevel_le hlaid)
  | false =>
    rw [State.started_false, State.await_blocks]
    have hnot : ¬ BeginsLine (xs ++ t :: ys) t := by
      rw [← inMargin_iff hlaid hcode hin]
      simp
    exact Int.le_of_lt (h.peek_lt hlaid hcode hnot)

theorem abandon (h : Consistent c xs s) (opener : Token) : Consistent c xs (s.abandon opener) where
  tracks := h.tracks.of_eq rfl rfl
  lined := h.lined.abandon opener
  newest := h.newest
  left := h.left
  dormant := by simp
  awaiting := by simp

end Consistent

/-- A state that has just taken the code `t`: it is the newest code of the output, no block is open
right of it, and if an opener waits it is `t`. -/
structure TookCode (c : Config) (t : Token) (s : State) : Prop where
  newest : s.codes.head? = some t
  left : s.blocks.peek ≤ t.column
  dormant : s.phase = .dormant → s.blocks.peek = topLevel
  awaiting : ∀ opener, s.phase = .awaiting opener → opener = t ∧ c.isOpener t.kind = true

theorem eq_of_awaiting {c : Config} {t opener : Token} {phase : Phase}
    (hphase : ∀ opener, phase ≠ .awaiting opener)
    (h : (if c.isOpener t.kind then .awaiting t else phase) = Phase.awaiting opener) :
    opener = t ∧ c.isOpener t.kind = true := by
  split at h
  · next hopener =>
    cases h
    exact ⟨rfl, hopener⟩
  · exact absurd h (hphase opener)

namespace Consistent

variable {c : Config} {m : Margins} {s s' : State} {xs ys : List Token} {t : Token}

theorem proceed_code (hc : c.Regular) (hlaid : Laid c m (xs ++ t :: ys)) (h : Consistent c xs s)
    (hcode : t.code = true) (hphase : s.phase = .running) {atMargin : Bool}
    (hin : inMargin m t = .ok atMargin) : TookCode c t (s.proceed c t atMargin) where
  newest := by rw [State.proceed, State.codes_emit, if_pos hcode, List.head?_cons]
  left := by
    have htracks := h.tracks.started hc.toDistinct atMargin fun _ => topLevel_le hlaid
    rw [State.proceed, State.emit_blocks]
    exact Int.le_trans htracks.peek_closeLet_le (h.peek_started_le hlaid hcode hin)
  dormant := by
    rw [State.proceed_phase, hphase]
    split <;> simp
  awaiting := by
    intro opener
    rw [State.proceed_phase, hphase]
    exact eq_of_awaiting (by simp)

theorem step_code (hc : c.Regular) (hlaid : Laid c m (xs ++ t :: ys)) (h : Consistent c xs s)
    (hcode : t.code = true) (hstep : Step c m s t s') : TookCode c t s' := by
  cases hstep with
  | idles hphase =>
    have hpeek := h.dormant hphase
    refine ⟨?_, ?_, ?_, ?_⟩
    · rw [State.codes_emit, if_pos hcode, List.head?_cons]
    · rw [State.emit_blocks, State.await_blocks, hpeek]
      exact topLevel_le hlaid
    · rw [State.emit_blocks, State.await_blocks]
      intro _
      exact hpeek
    · intro opener
      rw [State.emit_phase, State.await_phase, hphase]
      exact eq_of_awaiting (by simp)
  | opens _ _ _ =>
    refine ⟨?_, ?_, ?_, ?_⟩
    · rw [State.codes, State.openBlock_output, List.filter_cons_of_pos hcode, List.head?_cons]
    · rw [State.openBlock_blocks]
      exact Int.le_refl _
    · rw [State.openBlock_phase]
      split <;> simp
    · intro opener
      rw [State.openBlock_phase]
      exact eq_of_awaiting (by simp)
  | passes _ hleft hin => exact absurd hin (h.not_passes hlaid hcode (hleft hcode))
  | givesUp _ _ _ hin => exact (h.abandon _).proceed_code hc hlaid hcode rfl hin
  | proceeds hphase hin => exact h.proceed_code hc hlaid hcode hphase hin

theorem step (hc : c.Regular) (hlaid : Laid c m (xs ++ t :: ys)) (h : Consistent c xs s)
    (hstep : Step c m s t s') : Consistent c (xs ++ [t]) s' := by
  have hmem : t ∈ xs ++ t :: ys := by simp
  have htracks : Tracks c s' :=
    h.tracks.step hc.toDistinct (hlaid.real t hmem) (fun _ => topLevel_le hlaid) hstep
  have hlined : Lined c (xs ++ [t]) s' := h.lined.step hlaid hstep
  cases hcode : t.code with
  | false =>
    have hlast : lastCode (xs ++ [t]) = lastCode xs := by rw [lastCode_concat, hcode]; rfl
    rw [hstep.eq_emit hc (hlaid.code t hmem) hcode] at htracks hlined ⊢
    refine ⟨htracks, hlined, ?_, ?_, h.dormant, ?_⟩
    · rw [State.codes_emit, hcode, hlast]
      exact h.newest
    · rw [hlast]
      exact h.left
    · rw [hlast]
      exact h.awaiting
  | true =>
    have hlast : lastCode (xs ++ [t]) = some t := by rw [lastCode_concat, if_pos hcode]
    have htook := h.step_code hc hlaid hcode hstep
    refine ⟨htracks, hlined, htook.newest.trans hlast.symm, ?_, htook.dormant, ?_⟩
    · intro u hu
      cases hlast.symm.trans hu
      exact htook.left
    · intro opener hphase
      obtain ⟨rfl, hopener⟩ := htook.awaiting opener hphase
      exact ⟨hlast, hopener⟩

theorem run (hc : c.Regular) (hlaid : Laid c m (xs ++ ys))
    (hrun : State.initial.run c m xs = .ok s) : Consistent c xs s := by
  refine State.run_induction (motive := fun xs s => Consistent c xs s) hrun (.initial c) ?_
  intro front t back u u' hxs hu hstep
  rw [hxs, List.append_assoc, List.cons_append] at hlaid
  exact hu.step hc hlaid hstep

end Consistent

/-- The tokens of a source as layout takes them. -/
def placed (c : Config) (source : Text) (tokens : List OffsideRule.Token) : List Token :=
  (place c (rawTokens tokens) source.length).tokens

theorem placed_next (c : Config) (source : Text) (tokens : List OffsideRule.Token) :
    (placed c source tokens).IsChain (Token.Next c) :=
  Placement.run_next c source.length 0 Margins.empty.newLine (rawTokens tokens)

theorem resolveText_of_tokenize (c : Config) {source : Text} {tokens : List OffsideRule.Token}
    (h : tokenize source = .ok tokens) :
    resolveText c source = .ok (layOut c (rawTokens tokens) source.length) := by
  rw [resolveText, h, Except.map]

/-- A source that can be read is laid, run over and finished. -/
theorem resolveText_eq (c : Config) {source : Text} {tokens : List OffsideRule.Token}
    (h : tokenize source = .ok tokens) :
    ∃ m body atEnd s, placed c source tokens = body ++ [atEnd] ∧
      Laid c m body ∧ (atEnd.kind = none ∧ atEnd.code = false ∧ atEnd.virtual = false) ∧
      State.initial.run c m body = .ok s ∧
      resolveText c source =
        .ok (.ofState (s.finish c atEnd) (body ++ [atEnd]).length s.blocks.depth) := by
  obtain ⟨body, atEnd, htokens, hlaid, hend⟩ := laid_place c (ordered_rawTokens h) source.length
  have hbody : ∀ t ∈ body, t.isEnd = false := by
    intro t ht
    cases hkind : t.kind with
    | none => exact absurd hkind (hlaid.kinded t ht)
    | some kind => simp [Token.isEnd, hkind]
  have hresolve := resolve_place c (rawTokens tokens) source.length
  rw [htokens, resolve_append c _ [] hbody (by simp [Token.isEnd, hend.1])] at hresolve
  cases hrun : State.initial.run c (place c (rawTokens tokens) source.length).margins body with
  | error e => rw [hrun] at hresolve; contradiction
  | ok s =>
    rw [hrun, Except.map, Except.ok.injEq] at hresolve
    refine ⟨_, body, atEnd, s, htokens, hlaid, hend, hrun, ?_⟩
    rw [resolveText_of_tokenize c h, hresolve]

namespace State

variable {c : Config} {s : State} {atEnd u : Token} {older : List Token}

theorem emptyBlock_virtual : ∀ v ∈ s.emptyBlock c atEnd, v.virtual = true := by
  intro v hv
  unfold emptyBlock at hv
  split at hv
  · simp only [List.mem_cons, List.not_mem_nil, or_false] at hv
    rcases hv with rfl | rfl <;> rfl
  · contradiction

/-- The end of the input adds no real code. -/
theorem suffix_of_suffix_finish (h : Tracks c s) (hend : atEnd.code = false) (hcode : u.code = true)
    (hreal : u.virtual = false) (hu : u :: older <:+ (s.finish c atEnd).output) :
    u :: older <:+ s.output := by
  rw [finish_output h, ← List.cons_append] at hu
  refine suffix_of_suffix_append (fun hmem => ?_) hu
  rcases List.mem_cons.mp hmem with rfl | hmem
  · simp [hend] at hcode
  · rcases List.mem_append.mp hmem with hmem | hmem
    · rw [List.eq_of_mem_replicate hmem] at hreal
      contradiction
    · simp [emptyBlock_virtual u hmem] at hreal

end State

end OffsideRule.Layout
