import Mathlib.Data.List.Forall2
import OffsideRule.Proofs.Alignment

/-! Similar sources. The structure of a resolved source depends on the kinds of its code, on which
code begins a line, and on the order of its columns. Two runs are followed code token by code
token; tokens that are no code change nothing that matters (`Similar`). -/

namespace OffsideRule.Layout

/-- The code and the delimiters of a stream. -/
def skeleton (tokens : List Token) : List (Option Kind × Bool) :=
  (tokens.filter fun t => t.code || t.virtual).map Token.mark

/-- Layout cannot tell the code token `t₁` of one input from `t₂` of another, where `f` carries the
columns of the first to those of the second. -/
structure Corresponds (f : Int → Int) (input₁ input₂ : List Token) (t₁ t₂ : Token) : Prop where
  kind : t₁.kind = t₂.kind
  begins : BeginsLine input₁ t₁ ↔ BeginsLine input₂ t₂
  column : t₂.column = f t₁.column

instance (f : Int → Int) (input₁ input₂ : List Token) (t₁ t₂ : Token) :
    Decidable (Corresponds f input₁ input₂ t₁ t₂) :=
  decidable_of_iff (t₁.kind = t₂.kind ∧ (BeginsLine input₁ t₁ ↔ BeginsLine input₂ t₂) ∧
    t₂.column = f t₁.column)
    ⟨fun ⟨hkind, hbegins, hcolumn⟩ => ⟨hkind, hbegins, hcolumn⟩,
      fun h => ⟨h.kind, h.begins, h.column⟩⟩

theorem Corresponds.mark {f : Int → Int} {input₁ input₂ : List Token} {t₁ t₂ : Token}
    (h : Corresponds f input₁ input₂ t₁ t₂) (ht₁ : t₁.virtual = false) (ht₂ : t₂.virtual = false) :
    t₁.mark = t₂.mark := by
  rw [Token.mark, Token.mark, h.kind, ht₁, ht₂]

/-- The line of the last code token holds a word that begins a binding. -/
def Binds (c : Config) (tokens : List Token) : Prop :=
  ∃ u ∈ tokens, ∃ v, lastCode tokens = some v ∧ u.kind = some c.letKind ∧ u.line = v.line

section Binds

variable {c : Config} {m : Margins} {xs ys : List Token} {t : Token}

theorem binds_concat (hcode : t.code = true) :
    Binds c (xs ++ [t]) ↔
      t.kind = some c.letKind ∨ ∃ u ∈ xs, u.kind = some c.letKind ∧ u.line = t.line := by
  unfold Binds
  rw [lastCode_concat, if_pos hcode]
  simp only [List.mem_append, List.mem_singleton, Option.some.injEq, exists_eq_left']
  constructor
  · rintro ⟨u, hu | rfl, hkind, hline⟩
    · exact Or.inr ⟨u, hu, hkind, hline⟩
    · exact Or.inl hkind
  · rintro (hkind | ⟨u, hu, hkind, hline⟩)
    · exact ⟨t, Or.inr rfl, hkind, rfl⟩
    · exact ⟨u, Or.inl hu, hkind, hline⟩

theorem binds_concat_of_not_code (hc : c.Regular) (hkind : t.code = c.isCode t.kind)
    (hcode : t.code = false) : Binds c (xs ++ [t]) ↔ Binds c xs := by
  have hlet : t.kind ≠ some c.letKind := by
    intro hlet
    rw [hkind, hlet, hc.code_of_let] at hcode
    contradiction
  unfold Binds
  rw [lastCode_concat, if_neg (by simp [hcode])]
  constructor
  · rintro ⟨u, hu, v, hv, hkind', hline⟩
    rcases List.mem_append.mp hu with hu | hu
    · exact ⟨u, hu, v, hv, hkind', hline⟩
    · rw [List.mem_singleton.mp hu] at hkind'
      exact absurd hkind' hlet
  · rintro ⟨u, hu, rest⟩
    exact ⟨u, List.mem_append_left _ hu, rest⟩

/-- Whether a binding began on the line of `t` is seen from the code before `t`. -/
theorem Laid.let_on_line_iff (hc : c.Regular) (hlaid : Laid c m (xs ++ t :: ys))
    (hcode : t.code = true) :
    (∃ u ∈ xs, u.kind = some c.letKind ∧ u.line = t.line) ↔
      ¬ BeginsLine (xs ++ t :: ys) t ∧ Binds c xs := by
  constructor
  · rintro ⟨u, hu, hkind, hline⟩
    have hucode : u.code = true := by
      rw [hlaid.code u (List.mem_append_left _ hu), hkind, hc.code_of_let]
    have hnot : ¬ BeginsLine (xs ++ t :: ys) t := by
      rw [hlaid.beginsLine_iff hcode]
      intro hnone
      exact hnone u hu hucode hline
    obtain ⟨v, hv, hvline, _⟩ := hlaid.lastCode_of_not_beginsLine hcode hnot
    exact ⟨hnot, u, hu, v, hv, hkind, hline.trans hvline.symm⟩
  · rintro ⟨hnot, u, hu, v, hv, hkind, hline⟩
    obtain ⟨w, hw, hwline, _⟩ := hlaid.lastCode_of_not_beginsLine hcode hnot
    rw [hv, Option.some.injEq] at hw
    exact ⟨u, hu, hkind, by rw [hline, hw, hwline]⟩

end Binds

/-- Two phases in which the same pairs of openers wait. -/
inductive Alike : List (Token × Token) → Phase → Phase → Prop
  | dormant : Alike [] .dormant .dormant
  | running : Alike [] .running .running
  | awaiting (opener₁ opener₂ : Token) :
      Alike [(opener₁, opener₂)] (.awaiting opener₁) (.awaiting opener₂)

/-- Both states have given up corresponding openers, out of the pairs of code tokens taken. -/
def WarnedAlike (c : Config) (taken : List (Token × Token)) (s₁ s₂ : State) : Prop :=
  ∃ given waiting, Alike waiting s₁.phase s₂.phase ∧ (given ++ waiting).Sublist taken ∧
    (∀ p ∈ given ++ waiting, c.isOpener p.1.kind = true) ∧
    s₁.warnings = (given.map (·.1.givenUp)).reverse ∧
    s₂.warnings = (given.map (·.2.givenUp)).reverse

theorem WarnedAlike.extend {c : Config} {taken given : List (Token × Token)} {s₁ s₂ : State}
    {t₁ t₂ : Token} {phase₁ phase₂ : Phase} (hkind : t₁.kind = t₂.kind)
    (halike : Alike [] phase₁ phase₂)
    (hphase₁ : s₁.phase = if c.isOpener t₁.kind then .awaiting t₁ else phase₁)
    (hphase₂ : s₂.phase = if c.isOpener t₂.kind then .awaiting t₂ else phase₂)
    (hgiven : given.Sublist taken) (hopeners : ∀ p ∈ given, c.isOpener p.1.kind = true)
    (hwarnings₁ : s₁.warnings = (given.map (·.1.givenUp)).reverse)
    (hwarnings₂ : s₂.warnings = (given.map (·.2.givenUp)).reverse) :
    WarnedAlike c (taken ++ [(t₁, t₂)]) s₁ s₂ := by
  cases hopener : c.isOpener t₁.kind with
  | true =>
    refine ⟨given, [(t₁, t₂)], ?_, hgiven.append (List.Sublist.refl _), ?_, hwarnings₁, hwarnings₂⟩
    · rw [hphase₁, hphase₂, ← hkind, hopener, if_pos rfl, if_pos rfl]
      exact .awaiting t₁ t₂
    · intro p hp
      rcases List.mem_append.mp hp with hp | hp
      · exact hopeners p hp
      · rw [List.mem_singleton.mp hp, hopener]
  | false =>
    refine ⟨given, [], ?_, ?_, by simpa using hopeners, hwarnings₁, hwarnings₂⟩
    · rw [hphase₁, hphase₂, ← hkind, hopener, if_neg (by simp), if_neg (by simp)]
      exact halike
    · rw [List.append_nil]
      exact hgiven.trans (List.sublist_append_left _ _)

/-- How code is taken, by the phase it finds. -/
theorem Consistent.step_eq {c : Config} {m : Margins} {s s' : State} {xs ys : List Token}
    {t : Token} (hlaid : Laid c m (xs ++ t :: ys)) (h : Consistent c xs s) (hcode : t.code = true)
    (hstep : Step c m s t s') :
    s' = match s.phase with
      | .dormant => (s.await c t).emit t
      | .running => s.proceed c t (decide (BeginsLine (xs ++ t :: ys) t))
      | .awaiting opener =>
        if s.blocks.peek < t.column then s.openBlock c t
        else (s.abandon opener).proceed c t true := by
  cases hstep with
  | idles hphase => rw [hphase]
  | opens hphase _ hpeek =>
    rw [hphase]
    exact (if_pos hpeek).symm
  | passes _ hleft hin => exact absurd hin (h.not_passes hlaid hcode (hleft hcode))
  | givesUp hphase _ hleft _ =>
    rw [hphase]
    exact (if_neg (by omega)).symm
  | proceeds hphase hin =>
    rw [hlaid.margin t (by simp) hcode, Except.ok.injEq] at hin
    rw [hphase, hin]

/-- Two runs that took corresponding code, `xs₁` and `xs₂` being all tokens they took. -/
structure Similar (c : Config) (f : Int → Int) (known : Set Int) (xs₁ xs₂ : List Token)
    (taken : List (Token × Token)) (s₁ s₂ : State) : Prop where
  consistent₁ : Consistent c xs₁ s₁
  consistent₂ : Consistent c xs₂ s₂
  aligned : Aligned f known s₁ s₂
  binds : Binds c xs₁ ↔ Binds c xs₂
  warned : WarnedAlike c taken s₁ s₂

/-- A run that took no code: it shows what it showed before. -/
structure Quiet (c : Config) (xs xs' : List Token) (s s' : State) : Prop where
  consistent : Consistent c xs' s'
  binds : Binds c xs' ↔ Binds c xs
  codes : s'.codes = s.codes
  blocks : s'.blocks = s.blocks
  phase : s'.phase = s.phase
  warnings : s'.warnings = s.warnings

theorem Quiet.run {c : Config} (hc : c.Regular) {m : Margins} {tokens xs mid ys : List Token}
    {s s' : State} (hlaid : Laid c m tokens) (htokens : tokens = xs ++ mid ++ ys)
    (hmid : ∀ t ∈ mid, t.code = false) (h : Consistent c xs s) (hrun : s.run c m mid = .ok s') :
    Quiet c xs (xs ++ mid) s s' := by
  refine State.run_induction (motive := fun mid s' => Quiet c xs (xs ++ mid) s s') hrun
    ⟨by rwa [List.append_nil], by rw [List.append_nil], rfl, rfl, rfl, rfl⟩ ?_
  rintro front t back u u' rfl hu hstep
  have hlaid' : Laid c m (xs ++ front ++ t :: (back ++ ys)) := by simpa [htokens] using hlaid
  have hkind := hlaid'.code t (by simp)
  have hcode := hmid t (by simp)
  have hconsistent := hu.consistent.step hc hlaid' hstep
  have hbinds : Binds c (xs ++ front ++ [t]) ↔ Binds c (xs ++ front) :=
    binds_concat_of_not_code hc hkind hcode
  rw [hstep.eq_emit hc hkind hcode] at hconsistent ⊢
  rw [← List.append_assoc]
  refine ⟨hconsistent, hbinds.trans hu.binds, ?_, hu.blocks, hu.phase, hu.warnings⟩
  rw [State.codes_emit, hcode]
  exact hu.codes

namespace Similar

variable {c : Config} {f : Int → Int} {known : Set Int} {m₁ m₂ : Margins}
  {xs₁ xs₂ ys₁ ys₂ xs₁' xs₂' : List Token} {taken : List (Token × Token)}
  {s₁ s₂ s₁' s₂' : State} {t₁ t₂ : Token}

theorem initial (hf : Carries f known) :
    Similar c f known [] [] [] State.initial State.initial where
  consistent₁ := .initial c
  consistent₂ := .initial c
  aligned := ⟨rfl, by simp [State.initial, Blocks.push, Blocks.empty, hf.topLevel_eq],
    by simp [State.initial, Blocks.push, Blocks.empty, hf.topLevel_mem]⟩
  binds := Iff.rfl
  warned := ⟨[], [], .dormant, List.nil_sublist _, by simp, rfl, rfl⟩

theorem quiet (h : Similar c f known xs₁ xs₂ taken s₁ s₂) (hquiet₁ : Quiet c xs₁ xs₁' s₁ s₁')
    (hquiet₂ : Quiet c xs₂ xs₂' s₂ s₂') : Similar c f known xs₁' xs₂' taken s₁' s₂' where
  consistent₁ := hquiet₁.consistent
  consistent₂ := hquiet₂.consistent
  aligned := h.aligned.of_eq hquiet₁.codes hquiet₁.blocks hquiet₂.codes hquiet₂.blocks
  binds := hquiet₁.binds.trans (h.binds.trans hquiet₂.binds.symm)
  warned := by
    unfold WarnedAlike
    rw [hquiet₁.phase, hquiet₂.phase, hquiet₁.warnings, hquiet₂.warnings]
    exact h.warned

theorem let_on_line_iff (hc : c.Regular) (hlaid₁ : Laid c m₁ (xs₁ ++ t₁ :: ys₁))
    (hlaid₂ : Laid c m₂ (xs₂ ++ t₂ :: ys₂)) (hcode₁ : t₁.code = true) (hcode₂ : t₂.code = true)
    (hbegins : BeginsLine (xs₁ ++ t₁ :: ys₁) t₁ ↔ BeginsLine (xs₂ ++ t₂ :: ys₂) t₂)
    (h : Similar c f known xs₁ xs₂ taken s₁ s₂) :
    (∃ u ∈ xs₁, u.kind = some c.letKind ∧ u.line = t₁.line) ↔
      ∃ u ∈ xs₂, u.kind = some c.letKind ∧ u.line = t₂.line := by
  rw [hlaid₁.let_on_line_iff hc hcode₁, hlaid₂.let_on_line_iff hc hcode₂, hbegins, h.binds]

/-- Corresponding code ends bindings alike, so it leaves aligned states aligned. -/
theorem proceed (hc : c.Regular) (hf : Carries f known) (hlaid₁ : Laid c m₁ (xs₁ ++ t₁ :: ys₁))
    (hlaid₂ : Laid c m₂ (xs₂ ++ t₂ :: ys₂)) (hcode₁ : t₁.code = true) (hcode₂ : t₂.code = true)
    (hknown : t₁.column ∈ known)
    (hcorr : Corresponds f (xs₁ ++ t₁ :: ys₁) (xs₂ ++ t₂ :: ys₂) t₁ t₂)
    (h : Similar c f known xs₁ xs₂ taken s₁ s₂) (atMargin : Bool) :
    Aligned f known (s₁.proceed c t₁ atMargin) (s₂.proceed c t₂ atMargin) := by
  have hstarted := h.aligned.started (c := c) hf hknown hcorr.column atMargin
  have hmark := hcorr.mark (hlaid₁.real t₁ (by simp)) (hlaid₂.real t₂ (by simp))
  have hlet : kindOnLine c.letKind t₁.line (s₁.started c t₁ atMargin).output =
      kindOnLine c.letKind t₂.line (s₂.started c t₂ atMargin).output := by
    rw [Bool.eq_iff_iff, h.consistent₁.lined.letOnLine_iff hc hlaid₁,
      h.consistent₂.lined.letOnLine_iff hc hlaid₂]
    exact h.let_on_line_iff hc hlaid₁ hlaid₂ hcode₁ hcode₂ hcorr.begins
  have hpeek : decide ((s₁.started c t₁ atMargin).blocks.peek > topLevel) =
      decide ((s₂.started c t₂ atMargin).blocks.peek > topLevel) := by
    rw [decide_eq_decide, hstarted.peek_eq hf]
    exact (hf.topLevel_lt_iff (hstarted.peek_mem hf)).symm
  have hends : (s₁.started c t₁ atMargin).endsBinding c t₁ =
      (s₂.started c t₂ atMargin).endsBinding c t₂ := by
    rw [State.endsBinding, State.endsBinding, hcorr.kind, hlet, hpeek]
  exact (hstarted.closeLet hends).emit hcode₁ hcode₂ hmark

theorem warned_proceed (hkind : t₁.kind = t₂.kind) (h : Similar c f known xs₁ xs₂ taken s₁ s₂)
    (hphase₁ : s₁.phase = .running) (hphase₂ : s₂.phase = .running) (atMargin : Bool) :
    WarnedAlike c (taken ++ [(t₁, t₂)]) (s₁.proceed c t₁ atMargin) (s₂.proceed c t₂ atMargin) := by
  obtain ⟨given, waiting, _, hsublist, hopeners, hwarnings₁, hwarnings₂⟩ := h.warned
  refine .extend hkind .running ?_ ?_ ((List.sublist_append_left _ _).trans hsublist)
    (fun p hp => hopeners p (List.mem_append_left _ hp)) ?_ ?_
  · rw [State.proceed_phase, hphase₁]
  · rw [State.proceed_phase, hphase₂]
  · rw [State.proceed_warnings, hwarnings₁]
  · rw [State.proceed_warnings, hwarnings₂]

/-- Openers that wait in both states are given up in both. -/
theorem abandon {opener₁ opener₂ : Token} (h : Similar c f known xs₁ xs₂ taken s₁ s₂)
    (hphase₁ : s₁.phase = .awaiting opener₁) (hphase₂ : s₂.phase = .awaiting opener₂) :
    Similar c f known xs₁ xs₂ taken (s₁.abandon opener₁) (s₂.abandon opener₂) where
  consistent₁ := h.consistent₁.abandon opener₁
  consistent₂ := h.consistent₂.abandon opener₂
  aligned := ⟨h.aligned.marks, h.aligned.blocks, h.aligned.known⟩
  binds := h.binds
  warned := by
    obtain ⟨given, waiting, halike, hsublist, hopeners, hwarnings₁, hwarnings₂⟩ := h.warned
    rw [hphase₁, hphase₂] at halike
    cases halike
    refine ⟨given ++ [(opener₁, opener₂)], [], .running, by simpa using hsublist,
      by simpa using hopeners, ?_, ?_⟩
    · rw [State.abandon_warnings, hwarnings₁]
      simp
    · rw [State.abandon_warnings, hwarnings₂]
      simp

/-- The states behind corresponding code are aligned, and openers wait and give up alike. -/
theorem step_code (hc : c.Regular) (hf : Carries f known) (hlaid₁ : Laid c m₁ (xs₁ ++ t₁ :: ys₁))
    (hlaid₂ : Laid c m₂ (xs₂ ++ t₂ :: ys₂)) (hcode₁ : t₁.code = true) (hcode₂ : t₂.code = true)
    (hknown : t₁.column ∈ known)
    (hcorr : Corresponds f (xs₁ ++ t₁ :: ys₁) (xs₂ ++ t₂ :: ys₂) t₁ t₂)
    (h : Similar c f known xs₁ xs₂ taken s₁ s₂) (hstep₁ : Step c m₁ s₁ t₁ s₁')
    (hstep₂ : Step c m₂ s₂ t₂ s₂') :
    Aligned f known s₁' s₂' ∧ WarnedAlike c (taken ++ [(t₁, t₂)]) s₁' s₂' := by
  have hmark := hcorr.mark (hlaid₁.real t₁ (by simp)) (hlaid₂.real t₂ (by simp))
  have heq₁ := h.consistent₁.step_eq hlaid₁ hcode₁ hstep₁
  have heq₂ := h.consistent₂.step_eq hlaid₂ hcode₂ hstep₂
  obtain ⟨given, waiting, halike, hsublist, hopeners, hwarnings₁, hwarnings₂⟩ := h.warned
  have hgiven : given.Sublist taken := (List.sublist_append_left _ _).trans hsublist
  have hopeners' : ∀ p ∈ given, c.isOpener p.1.kind = true :=
    fun p hp => hopeners p (List.mem_append_left _ hp)
  generalize hphase₁ : s₁.phase = phase₁ at halike heq₁
  generalize hphase₂ : s₂.phase = phase₂ at halike heq₂
  cases halike with
  | dormant =>
    rw [heq₁, heq₂]
    refine ⟨h.aligned.await.emit hcode₁ hcode₂ hmark, ?_⟩
    refine .extend hcorr.kind .dormant ?_ ?_ hgiven hopeners' ?_ ?_
    · rw [State.emit_phase, State.await_phase, hphase₁]
    · rw [State.emit_phase, State.await_phase, hphase₂]
    · rw [State.emit_warnings, State.await_warnings, hwarnings₁]
    · rw [State.emit_warnings, State.await_warnings, hwarnings₂]
  | running =>
    rw [heq₁, heq₂, decide_eq_decide.mpr hcorr.begins]
    exact ⟨h.proceed hc hf hlaid₁ hlaid₂ hcode₁ hcode₂ hknown hcorr _,
      h.warned_proceed hcorr.kind hphase₁ hphase₂ _⟩
  | awaiting opener₁ opener₂ =>
    have hiff := h.aligned.peek_lt_iff hf hknown hcorr.column
    rw [heq₁, heq₂]
    by_cases hpeek : s₁.blocks.peek < t₁.column
    · simp only [if_pos hpeek, if_pos (hiff.mpr hpeek)]
      refine ⟨h.aligned.openBlock hcode₁ hcode₂ hmark hknown hcorr.column, ?_⟩
      refine .extend hcorr.kind .running ?_ ?_ hgiven hopeners' ?_ ?_
      · rw [State.openBlock_phase]
      · rw [State.openBlock_phase]
      · rw [State.openBlock_warnings, hwarnings₁]
      · rw [State.openBlock_warnings, hwarnings₂]
    · simp only [if_neg hpeek, if_neg (mt hiff.mp hpeek)]
      have habandon := h.abandon hphase₁ hphase₂
      exact ⟨habandon.proceed hc hf hlaid₁ hlaid₂ hcode₁ hcode₂ hknown hcorr true,
        habandon.warned_proceed hcorr.kind rfl rfl true⟩

theorem step (hc : c.Regular) (hf : Carries f known) (hlaid₁ : Laid c m₁ (xs₁ ++ t₁ :: ys₁))
    (hlaid₂ : Laid c m₂ (xs₂ ++ t₂ :: ys₂)) (hcode₁ : t₁.code = true) (hcode₂ : t₂.code = true)
    (hknown : t₁.column ∈ known)
    (hcorr : Corresponds f (xs₁ ++ t₁ :: ys₁) (xs₂ ++ t₂ :: ys₂) t₁ t₂)
    (h : Similar c f known xs₁ xs₂ taken s₁ s₂) (hstep₁ : Step c m₁ s₁ t₁ s₁')
    (hstep₂ : Step c m₂ s₂ t₂ s₂') :
    Similar c f known (xs₁ ++ [t₁]) (xs₂ ++ [t₂]) (taken ++ [(t₁, t₂)]) s₁' s₂' := by
  obtain ⟨haligned, hwarned⟩ :=
    h.step_code hc hf hlaid₁ hlaid₂ hcode₁ hcode₂ hknown hcorr hstep₁ hstep₂
  refine ⟨h.consistent₁.step hc hlaid₁ hstep₁, h.consistent₂.step hc hlaid₂ hstep₂, haligned, ?_,
    hwarned⟩
  rw [binds_concat hcode₁, binds_concat hcode₂, hcorr.kind,
    h.let_on_line_iff hc hlaid₁ hlaid₂ hcode₁ hcode₂ hcorr.begins]

/-- Runs over the rest of two sources, whose code corresponds, stay similar. -/
theorem run (hc : c.Regular) (hf : Carries f known) {tokens₁ tokens₂ codes₁ codes₂ : List Token}
    (hlaid₁ : Laid c m₁ tokens₁) (hlaid₂ : Laid c m₂ tokens₂)
    (hcodes : List.Forall₂ (Corresponds f tokens₁ tokens₂) codes₁ codes₂)
    (hknown : ∀ t ∈ codes₁, t.column ∈ known) (htokens₁ : tokens₁ = xs₁ ++ ys₁)
    (htokens₂ : tokens₂ = xs₂ ++ ys₂) (hys₁ : ys₁.filter (·.code) = codes₁)
    (hys₂ : ys₂.filter (·.code) = codes₂) (h : Similar c f known xs₁ xs₂ taken s₁ s₂)
    (hrun₁ : s₁.run c m₁ ys₁ = .ok s₁') (hrun₂ : s₂.run c m₂ ys₂ = .ok s₂') :
    Similar c f known tokens₁ tokens₂ (taken ++ codes₁.zip codes₂) s₁' s₂' := by
  induction hcodes generalizing xs₁ ys₁ xs₂ ys₂ taken s₁ s₂ with
  | nil =>
    subst htokens₁ htokens₂
    have hquiet₁ : Quiet c xs₁ (xs₁ ++ ys₁) s₁ s₁' := by
      refine .run hc hlaid₁ (List.append_nil _).symm ?_ h.consistent₁ hrun₁
      intro t ht
      simpa using List.filter_eq_nil_iff.mp hys₁ t ht
    have hquiet₂ : Quiet c xs₂ (xs₂ ++ ys₂) s₂ s₂' := by
      refine .run hc hlaid₂ (List.append_nil _).symm ?_ h.consistent₂ hrun₂
      intro t ht
      simpa using List.filter_eq_nil_iff.mp hys₂ t ht
    rw [List.zip_nil_left, List.append_nil]
    exact h.quiet hquiet₁ hquiet₂
  | @cons t₁ t₂ codes₁ codes₂ hcorr _ ih =>
    -- both runs pass what lies before the next pair and take the pair
    obtain ⟨mid₁, back₁, rfl, hmid₁, hcode₁, hback₁⟩ := List.filter_eq_cons_iff.mp hys₁
    obtain ⟨mid₂, back₂, rfl, hmid₂, hcode₂, hback₂⟩ := List.filter_eq_cons_iff.mp hys₂
    obtain ⟨u₁, hu₁, hrest₁⟩ := State.run_append_ok hrun₁
    obtain ⟨u₂, hu₂, hrest₂⟩ := State.run_append_ok hrun₂
    obtain ⟨v₁, hstep₁, hrest₁⟩ := State.run_cons_ok hrest₁
    obtain ⟨v₂, hstep₂, hrest₂⟩ := State.run_cons_ok hrest₂
    rw [← List.append_assoc] at htokens₁ htokens₂
    have hquiet₁ : Quiet c xs₁ (xs₁ ++ mid₁) s₁ u₁ :=
      .run hc hlaid₁ htokens₁ (fun t ht => by simpa using hmid₁ t ht) h.consistent₁ hu₁
    have hquiet₂ : Quiet c xs₂ (xs₂ ++ mid₂) s₂ u₂ :=
      .run hc hlaid₂ htokens₂ (fun t ht => by simpa using hmid₂ t ht) h.consistent₂ hu₂
    rw [htokens₁, htokens₂] at hcorr
    have hnext := (h.quiet hquiet₁ hquiet₂).step hc hf (htokens₁ ▸ hlaid₁) (htokens₂ ▸ hlaid₂)
      hcode₁ hcode₂ (hknown t₁ (by simp)) hcorr hstep₁ hstep₂
    have hsimilar := ih (fun t ht => hknown t (by simp [ht])) (by simpa using htokens₁)
      (by simpa using htokens₂) hback₁ hback₂ hnext hrest₁ hrest₂
    rwa [List.append_assoc, List.singleton_append, ← List.zip_cons_cons] at hsimilar

end Similar

theorem skeleton_reverse (tokens : List Token) :
    skeleton tokens.reverse = (skeleton tokens).reverse := by
  rw [skeleton, List.filter_reverse, List.map_reverse, skeleton]

/-- The end of the input adds closing delimiters and an awaited block to the structure. -/
theorem skeleton_finish {c : Config} {s : State} {atEnd : Token} (htracks : Tracks c s)
    (hcode : atEnd.code = false) (hreal : atEnd.virtual = false) :
    skeleton (s.finish c atEnd).output =
      List.replicate (s.unclosed c) (some c.closeKind, true) ++
        (s.emptyBlock c atEnd).map Token.mark ++ s.codes.map Token.mark := by
  have hcodes : s.output.filter (fun t => t.code || t.virtual) = s.codes := by
    apply List.filter_congr
    intro t ht
    cases hvirtual : t.virtual with
    | true => simp [htracks.coded t ht hvirtual]
    | false => simp
  have hempty : (s.emptyBlock c atEnd).filter (fun t => t.code || t.virtual) =
      s.emptyBlock c atEnd :=
    List.filter_eq_self.mpr fun t ht => by simp [State.emptyBlock_virtual t ht]
  have hcloses : (List.replicate (s.unclosed c) (Token.before c.closeKind atEnd)).filter
      (fun t => t.code || t.virtual) =
        List.replicate (s.unclosed c) (Token.before c.closeKind atEnd) :=
    List.filter_eq_self.mpr fun t ht => by rw [List.eq_of_mem_replicate ht]; rfl
  rw [skeleton, State.finish_output htracks, List.filter_cons_of_neg (by simp [hcode, hreal]),
    List.filter_append, List.filter_append, hcloses, hempty, hcodes, List.map_append,
    List.map_append, List.map_replicate]
  rfl

theorem Similar.skeleton_finish {c : Config} {f : Int → Int} {known : Set Int}
    {xs₁ xs₂ : List Token} {taken : List (Token × Token)} {s₁ s₂ : State} {atEnd₁ atEnd₂ : Token}
    (hend₁ : atEnd₁.code = false ∧ atEnd₁.virtual = false)
    (hend₂ : atEnd₂.code = false ∧ atEnd₂.virtual = false)
    (h : Similar c f known xs₁ xs₂ taken s₁ s₂) :
    skeleton (s₁.finish c atEnd₁).output = skeleton (s₂.finish c atEnd₂).output := by
  have htracks₁ := h.consistent₁.tracks
  have htracks₂ := h.consistent₂.tracks
  have hunclosed : s₁.unclosed c = s₂.unclosed c := by
    have hlength := congrArg List.length h.aligned.blocks
    rw [htracks₁.columns, htracks₂.columns, List.length_map, List.length_append,
      List.length_append] at hlength
    rw [State.unclosed, State.unclosed, Nat.add_right_cancel hlength]
  have hempty : (s₁.emptyBlock c atEnd₁).map Token.mark =
      (s₂.emptyBlock c atEnd₂).map Token.mark := by
    obtain ⟨_, _, halike, _⟩ := h.warned
    unfold State.emptyBlock
    generalize s₁.phase = phase₁ at halike
    generalize s₂.phase = phase₂ at halike
    cases halike <;> rfl
  rw [OffsideRule.Layout.skeleton_finish htracks₁ hend₁.1 hend₁.2,
    OffsideRule.Layout.skeleton_finish htracks₂ hend₂.1 hend₂.2, hunclosed, hempty, h.aligned.marks]

/-- An order of code columns extends to the column of the outermost block. -/
theorem exists_carries {f : Int → Int} {columns : Set Int} (hf : Increasing f columns)
    (hcolumns : ∀ column ∈ columns, 0 ≤ column ∧ 0 ≤ f column) :
    ∃ g known, Carries g known ∧ columns ⊆ known ∧ ∀ column ∈ columns, g column = f column := by
  have hne : ∀ column ∈ columns, column ≠ topLevel := by
    intro column hcolumn
    have := (hcolumns column hcolumn).1
    unfold topLevel
    omega
  let g := fun column => if column = topLevel then topLevel else f column
  have hg : ∀ column ∈ columns, g column = f column :=
    fun column hcolumn => if_neg (hne column hcolumn)
  have htop : g topLevel = topLevel := if_pos rfl
  refine ⟨g, insert topLevel columns, ⟨?_, Set.mem_insert _ _, htop⟩, Set.subset_insert _ _, hg⟩
  intro x hx y hy hlt
  rcases Set.mem_insert_iff.mp hy with rfl | hy
  · rcases Set.mem_insert_iff.mp hx with rfl | hx
    · exact absurd hlt (Int.lt_irrefl _)
    · have := (hcolumns x hx).1
      unfold topLevel at hlt
      omega
  · rw [hg y hy]
    rcases Set.mem_insert_iff.mp hx with rfl | hx
    · have := (hcolumns y hy).2
      rw [htop]
      unfold topLevel
      omega
    · rw [hg x hx]
      exact hf x hx y hy hlt

/-- The columns in which code lies. -/
def codeColumns (tokens : List Token) : Set Int :=
  {column | ∃ t ∈ tokens, t.code = true ∧ t.column = column}

section

variable {c : Config} {f : Int → Int} {m₁ m₂ : Margins} {body₁ body₂ : List Token}

theorem exists_corresponds {codes₁ codes₂ : List Token}
    (h : List.Forall₂ (Corresponds f body₁ body₂) codes₁ codes₂) :
    ∀ t₁ ∈ codes₁, ∃ t₂ ∈ codes₂, Corresponds f body₁ body₂ t₁ t₂ := by
  induction h with
  | nil => simp
  | cons hcorr _ ih =>
    intro t₁ ht₁
    rcases List.mem_cons.mp ht₁ with rfl | ht₁
    · exact ⟨_, by simp, hcorr⟩
    · obtain ⟨t₂, ht₂, hcorr⟩ := ih t₁ ht₁
      exact ⟨t₂, by simp [ht₂], hcorr⟩

/-- Neither source has code left of its first column. -/
theorem codeColumns_nonneg (hlaid₁ : Laid c m₁ body₁) (hlaid₂ : Laid c m₂ body₂)
    (hcodes : List.Forall₂ (Corresponds f body₁ body₂) (body₁.filter (·.code))
      (body₂.filter (·.code))) :
    ∀ column ∈ codeColumns body₁, 0 ≤ column ∧ 0 ≤ f column := by
  rintro _ ⟨t₁, ht₁, hcode, rfl⟩
  obtain ⟨t₂, ht₂, hcorr⟩ := exists_corresponds hcodes t₁ (List.mem_filter.mpr ⟨ht₁, hcode⟩)
  rw [← hcorr.column]
  exact ⟨hlaid₁.column_nonneg t₁ ht₁, hlaid₂.column_nonneg t₂ (List.mem_of_mem_filter ht₂)⟩

/-- Runs over sources with corresponding code are similar. -/
theorem exists_similar (hc : c.Regular) (hlaid₁ : Laid c m₁ body₁) (hlaid₂ : Laid c m₂ body₂)
    (hf : Increasing f (codeColumns body₁))
    (hcodes : List.Forall₂ (Corresponds f body₁ body₂) (body₁.filter (·.code))
      (body₂.filter (·.code))) {s₁ s₂ : State} (hrun₁ : State.initial.run c m₁ body₁ = .ok s₁)
    (hrun₂ : State.initial.run c m₂ body₂ = .ok s₂) :
    ∃ g known, Similar c g known body₁ body₂
      ((body₁.filter (·.code)).zip (body₂.filter (·.code))) s₁ s₂ := by
  obtain ⟨g, known, hg, hsubset, heq⟩ :=
    exists_carries hf (codeColumns_nonneg hlaid₁ hlaid₂ hcodes)
  have hmem : ∀ t ∈ body₁.filter (·.code), t.column ∈ codeColumns body₁ := by
    intro t ht
    obtain ⟨ht, hcode⟩ := List.mem_filter.mp ht
    exact ⟨t, ht, hcode, rfl⟩
  have hcorr : List.Forall₂ (Corresponds g body₁ body₂) (body₁.filter (·.code))
      (body₂.filter (·.code)) := by
    apply ((List.forall₂_and_left _ _).mpr ⟨hmem, hcodes⟩).imp
    rintro t₁ t₂ ⟨hcolumn, hcorr⟩
    exact ⟨hcorr.kind, hcorr.begins, by rw [hcorr.column, heq _ hcolumn]⟩
  exact ⟨g, known, (Similar.initial hg).run hc hg hlaid₁ hlaid₂ hcorr
    (fun t ht => hsubset (hmem t ht)) rfl rfl rfl rfl hrun₁ hrun₂⟩

/-- The ends of the inputs are no code, so only the tokens before them count. -/
theorem exists_similar_of_inputs (hc : c.Regular) (hlaid₁ : Laid c m₁ body₁)
    (hlaid₂ : Laid c m₂ body₂) {atEnd₁ atEnd₂ : Token} (hend₁ : atEnd₁.code = false)
    (hend₂ : atEnd₂.code = false) (hf : Increasing f (codeColumns (body₁ ++ [atEnd₁])))
    (hcodes : List.Forall₂ (Corresponds f (body₁ ++ [atEnd₁]) (body₂ ++ [atEnd₂]))
      ((body₁ ++ [atEnd₁]).filter (·.code)) ((body₂ ++ [atEnd₂]).filter (·.code)))
    {s₁ s₂ : State} (hrun₁ : State.initial.run c m₁ body₁ = .ok s₁)
    (hrun₂ : State.initial.run c m₂ body₂ = .ok s₂) :
    ∃ g known, Similar c g known body₁ body₂
      (((body₁ ++ [atEnd₁]).filter (·.code)).zip ((body₂ ++ [atEnd₂]).filter (·.code))) s₁ s₂ := by
  have hfilter {body : List Token} {atEnd : Token} (hend : atEnd.code = false) :
      (body ++ [atEnd]).filter (·.code) = body.filter (·.code) := by
    rw [List.filter_append]
    simp [hend]
  rw [hfilter hend₁, hfilter hend₂] at hcodes ⊢
  have hbody : List.Forall₂ (Corresponds f body₁ body₂) (body₁.filter (·.code))
      (body₂.filter (·.code)) := by
    apply hcodes.imp
    intro t₁ t₂ hcorr
    have hbegins := (beginsLine_concat hend₁).symm.trans
      (hcorr.begins.trans (beginsLine_concat hend₂))
    exact ⟨hcorr.kind, hbegins, hcorr.column⟩
  have hcolumns : codeColumns body₁ ⊆ codeColumns (body₁ ++ [atEnd₁]) :=
    fun _ ⟨t, ht, hcolumn⟩ => ⟨t, List.mem_append_left _ ht, hcolumn⟩
  exact exists_similar hc hlaid₁ hlaid₂ (fun x hx y hy => hf x (hcolumns hx) y (hcolumns hy))
    hbody hrun₁ hrun₂

end

/-- Sources whose code corresponds in kind, in beginning a line and in the order of columns resolve
to the same structure, with warnings about corresponding openers. -/
theorem resolveText_similar {c : Config} (hc : c.Variant) {source₁ source₂ : Text}
    {tokens₁ tokens₂ : List OffsideRule.Token} (h₁ : tokenize source₁ = .ok tokens₁)
    (h₂ : tokenize source₂ = .ok tokens₂) {f : Int → Int}
    (hf : Increasing f (codeColumns (placed c source₁ tokens₁)))
    (hcodes : List.Forall₂ (Corresponds f (placed c source₁ tokens₁) (placed c source₂ tokens₂))
      ((placed c source₁ tokens₁).filter (·.code)) ((placed c source₂ tokens₂).filter (·.code))) :
    ∃ r₁ r₂, resolveText c source₁ = .ok r₁ ∧ resolveText c source₂ = .ok r₂ ∧
      skeleton r₁.tokens = skeleton r₂.tokens ∧
      ∃ given : List (Token × Token), given.Sublist
          (((placed c source₁ tokens₁).filter (·.code)).zip
            ((placed c source₂ tokens₂).filter (·.code))) ∧
        (∀ p ∈ given, c.isOpener p.1.kind = true) ∧
        r₁.warnings = given.map (·.1.givenUp) ∧ r₂.warnings = given.map (·.2.givenUp) := by
  obtain ⟨m₁, body₁, atEnd₁, s₁, hplace₁, hlaid₁, hend₁, hrun₁, hresolve₁⟩ := resolveText_eq c h₁
  obtain ⟨m₂, body₂, atEnd₂, s₂, hplace₂, hlaid₂, hend₂, hrun₂, hresolve₂⟩ := resolveText_eq c h₂
  rw [hplace₁] at hf hcodes ⊢
  rw [hplace₂] at hcodes ⊢
  obtain ⟨g, known, hsimilar⟩ := exists_similar_of_inputs hc.regular hlaid₁ hlaid₂ hend₁.2.1
    hend₂.2.1 hf hcodes hrun₁ hrun₂
  obtain ⟨given, waiting, _, hsublist, hopeners, hwarnings₁, hwarnings₂⟩ := hsimilar.warned
  refine ⟨_, _, hresolve₁, hresolve₂, ?_, given, ?_, ?_, ?_, ?_⟩
  · rw [Resolution.ofState, Resolution.ofState, skeleton_reverse, skeleton_reverse,
      hsimilar.skeleton_finish hend₁.2 hend₂.2]
  · exact (List.sublist_append_left _ _).trans hsublist
  · intro p hp
    exact hopeners p (List.mem_append_left _ hp)
  · rw [Resolution.ofState, State.finish_warnings, hwarnings₁, List.reverse_reverse]
  · rw [Resolution.ofState, State.finish_warnings, hwarnings₂, List.reverse_reverse]

/-- A wider block, with a comment and an empty line, resolves like the narrow one. -/
theorem resolveText_similar_wider :
    ∃ r₁ r₂, resolveText .haskell "do x\n   do\n   y".toList = .ok r₁ ∧
      resolveText .haskell "do    x -- note\n\n      do\n      y".toList = .ok r₂ ∧
      skeleton r₁.tokens = skeleton r₂.tokens ∧ r₁.warnings.length = r₂.warnings.length := by
  have h₁ : tokenize "do x\n   do\n   y".toList = .ok _ := tokenize_of_problem (by decide +kernel)
  have h₂ : tokenize "do    x -- note\n\n      do\n      y".toList = .ok _ :=
    tokenize_of_problem (by decide +kernel)
  have hf (columns : Set Int) : Increasing (2 * ·) columns := by
    intro x _ y _ hlt
    simp only
    omega
  obtain ⟨r₁, r₂, hr₁, hr₂, hskeleton, given, _, _, hwarnings₁, hwarnings₂⟩ :=
    resolveText_similar .haskell h₁ h₂ (hf _) (by decide +kernel)
  exact ⟨r₁, r₂, hr₁, hr₂, hskeleton, by rw [hwarnings₁, hwarnings₂]; simp⟩

end OffsideRule.Layout
