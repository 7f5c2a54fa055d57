import Mathlib.Data.List.Induction
import OffsideRule.Proofs.Operations

/-! The steps of a resolution. `Step` lists the five ways in which a token is taken. Whatever a step
keeps, a run keeps; so a run keeps the output up to each of its code tokens and all warnings, and
it adds each of its tokens to the real output once. -/

namespace OffsideRule.Layout

namespace State

/-- The state in which `t` may end a binding, where `atMargin` says whether `t` begins a line. -/
def started (c : Config) (s : State) (t : Token) (atMargin : Bool) : State :=
  if atMargin then (s.await c t).startLine c t else s.await c t

/-- The state behind `t` while no opener waits. -/
def proceed (c : Config) (s : State) (t : Token) (atMargin : Bool) : State :=
  ((s.started c t atMargin).closeLet c t).emit t

theorem started_true (c : Config) (s : State) (t : Token) :
    s.started c t true = (s.await c t).startLine c t := rfl

theorem started_false (c : Config) (s : State) (t : Token) :
    s.started c t false = s.await c t := rfl

theorem follow_eq (c : Config) {m : Margins} (s : State) {t : Token} {atMargin : Bool}
    (h : inMargin m t = .ok atMargin) : s.follow c m t = .ok (s.proceed c t atMargin) := by
  rw [follow, h]
  rfl

@[simp] theorem proceed_phase (c : Config) (s : State) (t : Token) (atMargin : Bool) :
    (s.proceed c t atMargin).phase = if c.isOpener t.kind then .awaiting t else s.phase := by
  cases atMargin <;> simp [proceed, started]

@[simp] theorem proceed_warnings (c : Config) (s : State) (t : Token) (atMargin : Bool) :
    (s.proceed c t atMargin).warnings = s.warnings := by
  cases atMargin <;> simp [proceed, started]

theorem codes_started (c : Config) (s : State) (t : Token) (atMargin : Bool) :
    (s.started c t atMargin).codes =
      if atMargin then s.delimiters c t ++ s.codes else s.codes := by
  have hawait : (s.await c t).codes = s.codes := by rw [codes, await_output, codes]
  cases atMargin with
  | false => exact hawait
  | true => rw [started_true, codes_startLine, delimiters_await, hawait, if_pos rfl]

/-- The tokens of the output that layout did not add, newest first. -/
def reals (s : State) : List Token :=
  s.output.filter (!·.virtual)

theorem reals_emit (s : State) (t : Token) :
    (s.emit t).reals = [t].filter (!·.virtual) ++ s.reals :=
  List.filter_append [t] s.output

/-- The end of the input adds itself to the real output, unless layout added it. -/
theorem reals_finish (c : Config) (s : State) (atEnd : Token) :
    (s.finish c atEnd).reals = [atEnd].filter (!·.virtual) ++ s.reals := by
  obtain ⟨added, houtput, hadded⟩ := s.finish_added c atEnd
  have hnone : added.filter (!·.virtual) = [] := by
    refine List.filter_eq_nil_iff.mpr fun u hu => ?_
    rcases hadded u hu with rfl | rfl <;> simp [Token.before]
  rw [reals, houtput, ← List.singleton_append, List.filter_append, List.filter_append, hnone]
  rfl

end State

inductive Step (c : Config) (m : Margins) (s : State) (t : Token) : State → Prop
  | idles : s.phase = .dormant → Step c m s t ((s.await c t).emit t)
  | opens {opener : Token} : s.phase = .awaiting opener → t.code = true →
      s.blocks.peek < t.column → Step c m s t (s.openBlock c t)
  | passes {opener : Token} : s.phase = .awaiting opener →
      (t.code = true → t.column ≤ s.blocks.peek) → inMargin m t = .ok false →
      Step c m s t (s.emit t)
  | givesUp {opener : Token} : s.phase = .awaiting opener → t.code = true →
      t.column ≤ s.blocks.peek → inMargin m t = .ok true →
      Step c m s t ((s.abandon opener).proceed c t true)
  | proceeds {atMargin : Bool} : s.phase = .running → inMargin m t = .ok atMargin →
      Step c m s t (s.proceed c t atMargin)

theorem code_of_inMargin {m : Margins} {t : Token} (h : inMargin m t = .ok true) :
    t.code = true := by
  cases hcode : t.code with
  | true => rfl
  | false => simp [inMargin, hcode] at h

theorem Step.of_step {c : Config} {m : Margins} {s s' : State} {t : Token}
    (h : s.step c m t = .ok s') : Step c m s t s' := by
  unfold State.step at h
  split at h
  · next hphase =>
    cases h
    exact .idles hphase
  · next hphase =>
    cases hin : inMargin m t with
    | error e => simp [State.follow, hin, Except.map] at h
    | ok atMargin =>
      rw [State.follow_eq c s hin] at h
      cases h
      exact .proceeds hphase hin
  · next opener hphase =>
    split at h
    · next hopens =>
      simp only [Bool.and_eq_true, decide_eq_true_eq] at hopens
      cases h
      exact .opens hphase hopens.1 hopens.2
    · next hopens =>
      simp only [Bool.and_eq_true, decide_eq_true_eq, not_and, Int.not_lt] at hopens
      split at h
      · contradiction
      · next hin =>
        rw [State.follow_eq c _ hin] at h
        cases h
        have hcode := code_of_inMargin hin
        exact .givesUp hphase hcode (hopens hcode) hin
      · next hin =>
        cases h
        exact .passes hphase hopens hin

namespace State

variable {c : Config} {m : Margins}

theorem run_append (s : State) (xs ys : List Token) :
    s.run c m (xs ++ ys) = (s.run c m xs).bind fun s' => s'.run c m ys := by
  unfold run
  rw [List.foldlM_append]
  rfl

theorem run_singleton (s : State) (t : Token) : s.run c m [t] = s.step c m t := by
  unfold run
  rw [List.foldlM_cons]
  cases s.step c m t <;> rfl

/-- A run over two pieces stops in between. -/
theorem run_append_ok {s s' : State} {xs ys : List Token} (h : s.run c m (xs ++ ys) = .ok s') :
    ∃ u, s.run c m xs = .ok u ∧ u.run c m ys = .ok s' := by
  rw [run_append] at h
  cases hxs : s.run c m xs with
  | error e => rw [hxs] at h; contradiction
  | ok u =>
    rw [hxs] at h
    exact ⟨u, rfl, h⟩

theorem run_cons_ok {s s' : State} {t : Token} {ys : List Token}
    (h : s.run c m (t :: ys) = .ok s') : ∃ u, Step c m s t u ∧ u.run c m ys = .ok s' := by
  rw [← List.singleton_append] at h
  obtain ⟨u, hu, hys⟩ := run_append_ok h
  rw [run_singleton] at hu
  exact ⟨u, .of_step hu, hys⟩

/-- What holds at the start and is kept by the step of each token of a run holds at its end. -/
theorem run_induction {motive : List Token → State → Prop} {s s' : State} {tokens : List Token}
    (hrun : s.run c m tokens = .ok s') (hnil : motive [] s)
    (hstep : ∀ xs t ys u u', tokens = xs ++ t :: ys → motive xs u → Step c m u t u' →
      motive (xs ++ [t]) u') : motive tokens s' := by
  induction tokens using List.reverseRecOn generalizing s' with
  | nil =>
    cases hrun
    exact hnil
  | append_singleton xs t ih =>
    obtain ⟨u, hxs, ht⟩ := run_append_ok hrun
    rw [run_singleton] at ht
    have hu : motive xs u := ih hxs fun as b bs v v' hxs' =>
      hstep as b (bs ++ [t]) v v' (by simp [hxs'])
    exact hstep xs t [] u s' rfl hu (.of_step ht)

/-- What the steps of a run keep is kept by the run. -/
theorem run_invariant {P : State → Prop} {s s' : State} {tokens : List Token}
    (hrun : s.run c m tokens = .ok s') (hs : P s)
    (hstep : ∀ t u u', t ∈ tokens → P u → Step c m u t u' → P u') : P s' :=
  run_induction (motive := fun _ u => P u) hrun hs fun _ t _ u u' htokens hu hstep' =>
    hstep t u u' (by simp [htokens]) hu hstep'

end State

namespace Step

variable {c : Config} {m : Margins} {s s' : State} {t u : Token} {older : List Token}

theorem suffix_proceed (atMargin : Bool) (hcode : u.code = true) (h : u :: older <:+ s.output) :
    u :: older <:+ (s.proceed c t atMargin).output := by
  have hstarted : u :: older <:+ (s.started c t atMargin).output := by
    cases atMargin with
    | false => rwa [State.started_false, State.await_output]
    | true =>
      rw [State.started_true, State.startLine_output, State.await_output]
      exact (suffix_gap_earlier _ hcode h).trans (List.suffix_append _ _)
  rw [State.proceed, State.emit_output, State.closeLet_output]
  split
  · exact (hstarted.trans (List.suffix_cons _ _)).trans (List.suffix_cons _ _)
  · exact hstarted.trans (List.suffix_cons _ _)

/-- The output up to a code token stays. -/
theorem suffix_output (h : Step c m s t s') (hcode : u.code = true)
    (hold : u :: older <:+ s.output) : u :: older <:+ s'.output := by
  cases h with
  | idles _ =>
    rw [State.emit_output, State.await_output]
    exact hold.trans (List.suffix_cons _ _)
  | opens _ _ _ =>
    rw [State.openBlock_output]
    exact (hold.trans (List.suffix_cons _ _)).trans (List.suffix_cons _ _)
  | passes _ _ _ => exact hold.trans (List.suffix_cons _ _)
  | givesUp _ _ _ _ => exact suffix_proceed true hcode hold
  | proceeds _ _ => exact suffix_proceed _ hcode hold

/-- The code that taking `t` adds to the output is `t` and, before it, delimiters. -/
theorem suffix_of_suffix_proceed (atMargin : Bool) (hcode : u.code = true)
    (hseparator : ∀ v, u ≠ .before c.separatorKind v) (hclose : ∀ v, u ≠ .before c.closeKind v)
    (h : u :: older <:+ (s.proceed c t atMargin).output) :
    u :: older = (s.proceed c t atMargin).output ∨ u :: older <:+ s.output := by
  have hstarted (h : u :: older <:+ (s.started c t atMargin).output) : u :: older <:+ s.output := by
    cases atMargin with
    | false => rwa [State.started_false, State.await_output] at h
    | true =>
      rw [State.started_true, State.startLine_output, State.await_output,
        State.delimiters_await] at h
      have hnew : u ∉ (gap c.endOfLine s.output).later ++ s.delimiters c t := by
        intro hu
        rcases List.mem_append.mp hu with hu | hu
        · simp [gap_later_not_code _ _ u hu] at hcode
        · rcases s.mem_delimiters c t hu with hu | hu
          · exact hseparator _ hu
          · exact hclose _ hu
      exact (suffix_of_suffix_append hnew h).trans ⟨_, gap_append c.endOfLine s.output⟩
  rw [State.proceed, State.emit_output, State.closeLet_output] at h ⊢
  rcases List.suffix_cons_iff.mp h with h | h
  · exact Or.inl h
  · right
    split at h
    · rcases List.suffix_cons_iff.mp h with h | h
      · exact absurd (List.cons_eq_cons.mp h).1 (hclose t)
      · exact hstarted h
    · exact hstarted h

/-- The token of a step comes last in the output. -/
theorem output_cons (h : Step c m s t s') : ∃ before, s'.output = t :: before := by
  cases h with
  | idles _ => exact ⟨_, State.emit_output _ _⟩
  | opens _ _ _ => exact ⟨_, State.openBlock_output _ _ _⟩
  | passes _ _ _ => exact ⟨_, State.emit_output _ _⟩
  | givesUp _ _ _ _ => exact ⟨_, State.emit_output _ _⟩
  | proceeds _ _ => exact ⟨_, State.emit_output _ _⟩

/-- The only real code that a step adds to the output is its token, and it comes last. -/
theorem real_suffix (hstep : Step c m s t s') (hcode : u.code = true) (hreal : u.virtual = false)
    (h : u :: older <:+ s'.output) : u :: older = s'.output ∨ u :: older <:+ s.output := by
  have hadded (kind : Kind) (v : Token) : u ≠ .before kind v := by
    rintro rfl
    contradiction
  cases hstep with
  | idles _ =>
    rw [State.emit_output, State.await_output] at h ⊢
    exact List.suffix_cons_iff.mp h
  | opens _ _ _ =>
    rw [State.openBlock_output] at h ⊢
    rcases List.suffix_cons_iff.mp h with h | h
    · exact Or.inl h
    · rcases List.suffix_cons_iff.mp h with h | h
      · exact absurd (List.cons_eq_cons.mp h).1 (hadded _ t)
      · exact Or.inr h
  | passes _ _ _ => exact List.suffix_cons_iff.mp h
  | givesUp _ _ _ _ => exact suffix_of_suffix_proceed true hcode (hadded _) (hadded _) h
  | proceeds _ _ => exact suffix_of_suffix_proceed _ hcode (hadded _) (hadded _) h

theorem suffix_warnings (h : Step c m s t s') : s.warnings <:+ s'.warnings := by
  cases h with
  | givesUp _ _ _ _ =>
    rw [State.proceed_warnings, State.abandon_warnings]
    exact List.suffix_cons _ _
  | _ => simp

theorem reals_started (atMargin : Bool) : (s.started c t atMargin).reals = s.reals := by
  have hdelimiters (s : State) : (s.delimiters c t).filter (!·.virtual) = [] := by
    simp only [State.delimiters, List.filter_append, List.filter_map]
    split <;> simp [Token.before, Function.comp_def]
  unfold State.reals
  cases atMargin with
  | false => rw [State.started_false, State.await_output]
  | true =>
    rw [State.started_true, State.startLine_output, List.filter_append, List.filter_append,
      hdelimiters, List.append_nil, ← List.filter_append, gap_append, State.await_output]

theorem reals_proceed (atMargin : Bool) :
    (s.proceed c t atMargin).reals = [t].filter (!·.virtual) ++ s.reals := by
  have hclosed : ((s.started c t atMargin).closeLet c t).reals = (s.started c t atMargin).reals := by
    rw [State.reals, State.closeLet_output]
    split <;> rfl
  rw [State.proceed, State.reals_emit, hclosed, reals_started]

/-- The token of a step is added to the real output once, unless layout added it. -/
theorem reals_append (h : Step c m s t s') :
    s'.reals = [t].filter (!·.virtual) ++ s.reals := by
  cases h with
  | idles _ => rw [State.reals_emit, State.reals, State.await_output, State.reals]
  | opens _ _ _ =>
    rw [State.reals, State.openBlock_output, ← List.singleton_append, List.filter_append]
    rfl
  | passes _ _ _ => exact State.reals_emit s t
  | givesUp _ _ _ _ => exact reals_proceed true
  | proceeds _ _ => exact reals_proceed _

theorem reals_cons (h : Step c m s t s') (ht : t.virtual = false) : s'.reals = t :: s.reals := by
  rw [h.reals_append, List.filter_cons_of_pos (by simp [ht])]
  rfl

theorem mem_started (atMargin : Bool) (hu : u ∈ (s.started c t atMargin).output) :
    u ∈ s.output ∨ Delimiter c u := by
  cases atMargin with
  | false =>
    rw [State.started_false, State.await_output] at hu
    exact Or.inl hu
  | true =>
    rw [State.started_true, State.startLine_output, State.await_output, List.append_assoc,
      List.mem_append, List.mem_append] at hu
    rcases hu with hu | hu | hu
    · exact Or.inl (gap_append c.endOfLine s.output ▸ List.mem_append_left _ hu)
    · rcases (s.await c t).mem_delimiters c t hu with rfl | rfl
      · exact Or.inr (.separates _)
      · exact Or.inr (.closes _)
    · exact Or.inl (gap_append c.endOfLine s.output ▸ List.mem_append_right _ hu)

theorem mem_proceed (atMargin : Bool) (hu : u ∈ (s.proceed c t atMargin).output) :
    u = t ∨ u ∈ s.output ∨ Delimiter c u := by
  rw [State.proceed, State.emit_output, State.closeLet_output] at hu
  rcases List.mem_cons.mp hu with rfl | hu
  · exact Or.inl rfl
  · right
    split at hu
    · rcases List.mem_cons.mp hu with rfl | hu
      · exact Or.inr (.closes _)
      · exact mem_started atMargin hu
    · exact mem_started atMargin hu

/-- What a step puts into the output is its token and delimiters. -/
theorem mem_output (h : Step c m s t s') (hu : u ∈ s'.output) :
    u = t ∨ u ∈ s.output ∨ Delimiter c u := by
  cases h with
  | idles _ =>
    rw [State.emit_output, State.await_output] at hu
    exact (List.mem_cons.mp hu).imp_right Or.inl
  | opens _ _ _ =>
    rw [State.openBlock_output] at hu
    rcases List.mem_cons.mp hu with rfl | hu
    · exact Or.inl rfl
    · rcases List.mem_cons.mp hu with rfl | hu
      · exact Or.inr (Or.inr (.opens _))
      · exact Or.inr (Or.inl hu)
  | passes _ _ _ => exact (List.mem_cons.mp hu).imp_right Or.inl
  | @givesUp opener _ _ _ _ => exact mem_proceed (s := s.abandon opener) true hu
  | proceeds _ _ => exact mem_proceed _ hu

end Step

namespace State

variable {c : Config} {m : Margins} {s s' : State} {tokens older : List Token} {u : Token}

theorem run_suffix_output (h : s.run c m tokens = .ok s') (hcode : u.code = true)
    (hold : u :: older <:+ s.output) : u :: older <:+ s'.output :=
  run_invariant h hold fun _ _ _ _ hold hstep => hstep.suffix_output hcode hold

theorem run_suffix_warnings (h : s.run c m tokens = .ok s') : s.warnings <:+ s'.warnings :=
  run_invariant (P := fun u => s.warnings <:+ u.warnings) h (List.suffix_refl _)
    fun _ _ _ _ hold hstep => hold.trans hstep.suffix_warnings

/-- Real code of the output is where its step has put it. -/
theorem run_took (h : initial.run c m tokens = .ok s) (hcode : u.code = true)
    (hreal : u.virtual = false) (hu : u :: older <:+ s.output) :
    ∃ xs ys s₀ s₁, tokens = xs ++ u :: ys ∧ initial.run c m xs = .ok s₀ ∧ Step c m s₀ u s₁ ∧
      s₁.output = u :: older := by
  induction tokens using List.reverseRecOn generalizing s with
  | nil =>
    cases h
    exact absurd (List.suffix_nil.mp hu) (List.cons_ne_nil u older)
  | append_singleton xs t ih =>
    obtain ⟨s₀, hxs, ht⟩ := run_append_ok h
    rw [run_singleton] at ht
    have hstep : Step c m s₀ t s := .of_step ht
    rcases hstep.real_suffix hcode hreal hu with hnew | hold
    · obtain ⟨before, houtput⟩ := hstep.output_cons
      rw [← hnew, List.cons.injEq] at houtput
      obtain ⟨rfl, -⟩ := houtput
      exact ⟨xs, [], s₀, s, rfl, hxs, hstep, hnew.symm⟩
    · obtain ⟨front, back, u₀, u₁, rfl, hrun, hstep₁, houtput⟩ := ih hxs hold
      exact ⟨front, back ++ [t], u₀, u₁, by simp, hrun, hstep₁, houtput⟩

/-- The real output of a run is what it took, newest first. -/
theorem run_reals (h : s.run c m tokens = .ok s') :
    s'.reals = (tokens.filter (!·.virtual)).reverse ++ s.reals := by
  refine run_induction (motive := fun xs u => u.reals = (xs.filter (!·.virtual)).reverse ++ s.reals)
    h rfl ?_
  intro xs t ys u u' _ hu hstep
  rw [hstep.reals_append, hu, List.filter_append, List.reverse_append, List.append_assoc]
  cases ht : t.virtual <;> simp [ht]

/-- The output of a run consists of what it took and delimiters. -/
theorem run_mem_output (h : initial.run c m tokens = .ok s) (hu : u ∈ s.output) :
    u ∈ tokens ∨ Delimiter c u := by
  refine run_induction (motive := fun xs s => ∀ u ∈ s.output, u ∈ xs ∨ Delimiter c u) h
    (by simp [initial]) ?_ u hu
  intro xs t ys s s' _ hold hstep u hu
  rcases hstep.mem_output hu with rfl | hu | hadded
  · exact Or.inl (by simp)
  · exact (hold u hu).imp_left (List.mem_append_left _)
  · exact Or.inr hadded

/-- The end of the input puts out itself and delimiters. -/
theorem mem_finish {atEnd : Token} (hu : u ∈ (s.finish c atEnd).output) :
    u = atEnd ∨ u ∈ s.output ∨ Delimiter c u := by
  obtain ⟨added, houtput, hadded⟩ := s.finish_added c atEnd
  rw [houtput] at hu
  rcases List.mem_cons.mp hu with rfl | hu
  · exact Or.inl rfl
  · right
    rcases List.mem_append.mp hu with hu | hu
    · rcases hadded u hu with rfl | rfl
      · exact Or.inr (.opens _)
      · exact Or.inr (.closes _)
    · exact Or.inl hu

end State

/-- A resolution runs over the tokens before the first end of the input, and finishes if there is
one. -/
theorem resolve_run (c : Config) {m : Margins} {tokens : List Token}
    (h : ∀ t ∈ tokens, t.code = true → m.Covers t.line) :
    ∃ s r, State.initial.run c m (tokens.takeWhile (!·.isEnd)) = .ok s ∧
      resolve c m tokens = .ok r ∧
      (tokens.find? (·.isEnd) = none ∧ r = .ofState s tokens.length 0 ∨
        ∃ atEnd, tokens.find? (·.isEnd) = some atEnd ∧
          r = .ofState (s.finish c atEnd) tokens.length s.blocks.depth) := by
  have hfront : ∀ t ∈ tokens.takeWhile (!·.isEnd), t.code = true → m.Covers t.line :=
    fun t ht => h t ((tokens.takeWhile_sublist _).subset ht)
  obtain ⟨s, hs⟩ := State.initial.run_of_covers c hfront
  have hrest := List.find?_eq_head?_dropWhile_not (·.isEnd) tokens
  cases hfind : tokens.find? (·.isEnd) with
  | none =>
    refine ⟨s, .ofState s tokens.length 0, hs, ?_, Or.inl ⟨rfl, rfl⟩⟩
    rw [resolve, hs, ← hrest, hfind]
    rfl
  | some atEnd =>
    refine ⟨s, .ofState (s.finish c atEnd) tokens.length s.blocks.depth, hs, ?_,
      Or.inr ⟨atEnd, rfl, rfl⟩⟩
    rw [resolve, hs, ← hrest, hfind]
    rfl

end OffsideRule.Layout
