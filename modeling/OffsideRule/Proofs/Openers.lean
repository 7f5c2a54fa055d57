import OffsideRule.Proofs.Sources

/-! What becomes of an opener. The next code of the source begins its block or, as the first of its
line and not right of the innermost block, gives it up; without more code the block is empty. While
a run takes tokens each opener follows one of these courses (`Course`), and the end of the input
turns the course into the opener's fate (`Meets`). -/

namespace OffsideRule.Layout

inductive Fate
  | opened
  | givenUp
  | empty
  deriving DecidableEq, Repr

/-- The next code of `tokens` is `next`, and `mid` lies before it. -/
structure Reaches (tokens mid : List Token) (next : Token) : Prop where
  front : mid ++ [next] <+: tokens
  not_code : ∀ u ∈ mid, u.code = false
  code : next.code = true

/-- How a resolution shows the fate of the opener `k` between the tokens `front` and `back` of its
source. -/
inductive Meets (c : Config) (r : Resolution) (front : List Token) (k : Token)
    (back : List Token) : Fate → Prop
  /-- The block opens right before the next code, with no code between. -/
  | opened {mid before after : List Token} {next : Token} : Reaches back mid next →
      r.tokens = before ++ k :: (mid ++ Token.before c.openKind next :: next :: after) →
      before.filter (!·.virtual) = front → Meets c r front k back .opened
  /-- The next code begins its line, not right of the block around `k`. No block opens before it,
  and one warning is about `k`. -/
  | givenUp {mid before between after : List Token} {next : Token} : Reaches back mid next →
      BeginsLine (front ++ k :: back) next → next.column ≤ innermost c (before ++ [k]) →
      r.tokens = before ++ k :: (between ++ next :: after) →
      before.filter (!·.virtual) = front → between.filter (!·.virtual) = mid →
      (∀ u ∈ between, u.isOpening c = false) →
      (r.warnings.filter fun w => w.start = k.start ∧ w.stop = k.stop) = [k.givenUp] →
      Meets c r front k back .givenUp
  /-- No code is left. The block opens and closes behind the last token before the end. -/
  | empty {mid before closes : List Token} {atEnd : Token} : (∀ u ∈ back, u.code = false) →
      back = mid ++ [atEnd] → atEnd.isEnd = true →
      r.tokens = before ++ k :: (mid ++ Token.before c.openKind atEnd ::
        Token.before c.closeKind atEnd :: (closes ++ [atEnd])) →
      before.filter (!·.virtual) = front → (∀ u ∈ closes, u.isClosing c = true) →
      Meets c r front k back .empty

namespace Reaches

variable {tokens mid : List Token} {next : Token}

theorem append (h : Reaches tokens mid next) (more : List Token) :
    Reaches (tokens ++ more) mid next :=
  ⟨h.front.trans (List.prefix_append _ _), h.not_code, h.code⟩

theorem exists_code (h : Reaches tokens mid next) : ¬ ∀ u ∈ tokens, u.code = false := by
  intro hnone
  have hnext := hnone next (h.front.subset (by simp))
  rw [h.code] at hnext
  contradiction

end Reaches

/-- A real token has one place in an output if the real tokens before it are known. -/
theorem real_place_unique {k : Token} {xs ys xs' ys' : List Token} (hk : k.virtual = false)
    (h : xs ++ k :: ys = xs' ++ k :: ys')
    (hreals : xs.filter (!·.virtual) = xs'.filter (!·.virtual)) : xs = xs' ∧ ys = ys' := by
  have hlength := congrArg List.length hreals
  rcases List.append_eq_append_iff.mp h with ⟨mid, hmid, hrest⟩ | ⟨mid, hmid, hrest⟩
  · cases mid with
    | nil => simp_all
    | cons v mid =>
      obtain ⟨rfl, -⟩ := List.cons_eq_cons.mp hrest
      simp [hmid, hk] at hlength
  · cases mid with
    | nil => simp_all
    | cons v mid =>
      obtain ⟨rfl, -⟩ := List.cons_eq_cons.mp hrest
      simp [hmid, hk] at hlength

theorem isOpening_real {c : Config} {t : Token} (ht : t.virtual = false) :
    t.isOpening c = false := by
  simp [Token.isOpening, ht]

namespace Meets

variable {c : Config} {r : Resolution} {front back : List Token} {k : Token} {fate fate' : Fate}

theorem eq_empty_iff (h : Meets c r front k back fate) :
    fate = .empty ↔ ∀ u ∈ back, u.code = false := by
  cases h with
  | opened hreaches _ _ => exact iff_of_false (by simp) hreaches.exists_code
  | givenUp hreaches _ _ _ _ _ _ _ => exact iff_of_false (by simp) hreaches.exists_code
  | empty hnone _ _ _ _ _ => exact iff_of_true rfl hnone

/-- An opener is not given up if the next code of the stream opens a block. -/
theorem not_givenUp_of_opening {early mid after : List Token} {d : Token} (hk : k.virtual = false)
    (hback : ∀ u ∈ back, u.virtual = false) (htokens : r.tokens = early ++ k :: (mid ++ d :: after))
    (hfront : early.filter (!·.virtual) = front) (hmid : ∀ u ∈ mid, u.code = false)
    (hd : d.isOpening c = true) : ¬ Meets c r front k back .givenUp := by
  intro h
  cases h with
  | @givenUp _ before between after' next hreaches _ _ htokens' hfront' _ hnone _ =>
    have hnext : next.virtual = false := hback next (hreaches.front.subset (by simp))
    have hne : d ≠ next := by
      rintro rfl
      simp [isOpening_real hnext] at hd
    rw [htokens] at htokens'
    obtain ⟨-, hrest⟩ := real_place_unique hk htokens' (hfront.trans hfront'.symm)
    -- `d` would have to stand between the opener and the next code, or behind it
    rcases List.append_eq_append_iff.mp hrest with ⟨rest, hbetween, hrest⟩ | ⟨rest, hrest, hbehind⟩
    · cases rest with
      | nil => exact hne (List.cons_eq_cons.mp hrest).1
      | cons v rest =>
        obtain ⟨rfl, -⟩ := List.cons_eq_cons.mp hrest
        simp [hnone d (by simp [hbetween])] at hd
    · cases rest with
      | nil => exact hne (List.cons_eq_cons.mp hbehind).1.symm
      | cons v rest =>
        obtain ⟨rfl, -⟩ := List.cons_eq_cons.mp hbehind
        have := hmid next (by simp [hrest])
        simp [hreaches.code] at this

theorem not_givenUp (hk : k.virtual = false) (hback : ∀ u ∈ back, u.virtual = false)
    (h : Meets c r front k back .opened) : ¬ Meets c r front k back .givenUp := by
  cases h with
  | @opened _ _ _ next hreaches htokens hfront =>
    exact not_givenUp_of_opening hk hback htokens hfront hreaches.not_code (isOpening_before c next)

/-- No opener meets two fates. -/
theorem unique (hk : k.virtual = false) (hback : ∀ u ∈ back, u.virtual = false)
    (h : Meets c r front k back fate) (h' : Meets c r front k back fate') : fate = fate' := by
  have hempty : fate = .empty ↔ fate' = .empty := h.eq_empty_iff.trans h'.eq_empty_iff.symm
  cases fate with
  | empty => exact (hempty.mp rfl).symm
  | opened =>
    cases fate' with
    | opened => rfl
    | givenUp => exact absurd h' (h.not_givenUp hk hback)
    | empty => exact hempty.mpr rfl
  | givenUp =>
    cases fate' with
    | opened => exact absurd h (h'.not_givenUp hk hback)
    | givenUp => rfl
    | empty => exact hempty.mpr rfl

end Meets

section Openings

variable {c : Config} {m : Margins} {s s' : State} {t : Token}

theorem isOpening_close (hc : c.Distinct) : (Token.before c.closeKind t).isOpening c = false := by
  simp [Token.isOpening, Token.before, hc.open_ne_close.symm]

theorem isOpening_separator (hc : c.Distinct) :
    (Token.before c.separatorKind t).isOpening c = false := by
  simp [Token.isOpening, Token.before, hc.open_ne_separator.symm]

theorem isOpening_delimiters (hc : c.Distinct) :
    ∀ u ∈ s.delimiters c t, u.isOpening c = false := by
  intro u hu
  rcases s.mem_delimiters c t hu with rfl | rfl
  · exact isOpening_separator hc
  · exact isOpening_close hc

/-- Number of blocks opened so far. -/
def State.openings (c : Config) (s : State) : Nat :=
  s.output.countP (·.isOpening c)

theorem openings_emit (ht : t.virtual = false) : (s.emit t).openings c = s.openings c := by
  rw [State.openings, State.emit_output, List.countP_cons_of_neg (by simp [isOpening_real ht]),
    State.openings]

theorem openings_await : (s.await c t).openings c = s.openings c := by
  rw [State.openings, State.await_output, State.openings]

theorem openings_openBlock (ht : t.virtual = false) :
    (s.openBlock c t).openings c = s.openings c + 1 := by
  rw [State.openings, State.openBlock_output, List.countP_cons_of_neg (by simp [isOpening_real ht]),
    List.countP_cons_of_pos (isOpening_before c t), State.openings]

/-- Only an awaited block opens. -/
theorem openings_proceed (hc : c.Distinct) (ht : t.virtual = false) (atMargin : Bool) :
    (s.proceed c t atMargin).openings c = s.openings c := by
  have hstarted : (s.started c t atMargin).openings c = s.openings c := by
    cases atMargin with
    | false => exact openings_await
    | true =>
      have hnone : (s.delimiters c t).countP (·.isOpening c) = 0 :=
        List.countP_eq_zero.mpr fun u hu => by simp [isOpening_delimiters hc u hu]
      rw [State.started_true, State.openings, State.startLine_output, State.delimiters_await,
        List.countP_append, List.countP_append, hnone, Nat.add_zero, ← List.countP_append,
        gap_append, State.await_output, State.openings]
  rw [State.proceed, openings_emit ht, ← hstarted, State.openings, State.closeLet_output]
  split
  · rw [List.countP_cons_of_neg (by simp [isOpening_close hc]), State.openings]
  · rfl

end Openings

/-- The course of the opener `k` in a run over `tokens` that took `front` before it and `back`
behind it: how the output, newest first, already shows the fate of `k`. -/
inductive Course (c : Config) (tokens : List Token) (s : State) (front : List Token) (k : Token)
    (back : List Token) : Fate → Prop
  | opened {mid older : List Token} {next : Token} : Reaches back mid next →
      next :: Token.before c.openKind next :: (mid.reverse ++ k :: older) <:+ s.output →
      older.filter (!·.virtual) = front.reverse → Course c tokens s front k back .opened
  | givenUp {mid between older : List Token} {next : Token} : Reaches back mid next →
      BeginsLine tokens next → next.column ≤ innermost c (k :: older).reverse →
      next :: (between ++ k :: older) <:+ s.output → older.filter (!·.virtual) = front.reverse →
      between.filter (!·.virtual) = mid.reverse → (∀ u ∈ between, u.isOpening c = false) →
      k.givenUp ∈ s.warnings → Course c tokens s front k back .givenUp
  /-- The opener still waits. -/
  | empty {older : List Token} : (∀ u ∈ back, u.code = false) → s.phase = .awaiting k →
      s.output = back.reverse ++ k :: older → older.filter (!·.virtual) = front.reverse →
      Course c tokens s front k back .empty

/-- The output of a run that just took `t`. -/
theorem Lined.output_concat {c : Config} {xs : List Token} {t : Token} {s : State}
    (ht : t.virtual = false) (h : Lined c (xs ++ [t]) s) :
    ∃ older, s.output = t :: older ∧ older.filter (!·.virtual) = xs.reverse := by
  have hnewest := h.newest
  rw [List.getLast?_concat, List.head?_eq_some_iff] at hnewest
  obtain ⟨older, holder⟩ := hnewest
  have hreals := h.reals
  rw [State.reals, holder, List.filter_cons_of_pos (by simp [ht]), List.reverse_concat,
    List.cons.injEq] at hreals
  exact ⟨older, holder, hreals.2⟩

section Course

variable {c : Config} {m : Margins} {s s' : State} {tokens xs ys front back : List Token}
  {k t : Token} {fate : Fate}

theorem Consistent.awaits (hlaid : Laid c m (xs ++ t :: ys)) (h : Consistent c xs s)
    (hcode : t.code = true) (hopener : c.isOpener t.kind = true) (hstep : Step c m s t s') :
    s'.phase = .awaiting t := by
  cases hstep with
  | idles _ => rw [State.emit_phase, State.await_phase, if_pos hopener]
  | opens _ _ _ => rw [State.openBlock_phase, if_pos hopener]
  | passes _ hleft hin => exact absurd hin (h.not_passes hlaid hcode (hleft hcode))
  | givesUp _ _ _ _ => rw [State.proceed_phase, if_pos hopener]
  | proceeds _ _ => rw [State.proceed_phase, if_pos hopener]

namespace Course

/-- A course that has left the opener behind stays. -/
theorem keep (hstep : Step c m s t s') (hfate : fate ≠ .empty)
    (h : Course c tokens s front k back fate) : Course c tokens s' front k (back ++ [t]) fate := by
  cases h with
  | opened hreaches hsuffix hfront =>
    exact .opened (hreaches.append _) (hstep.suffix_output hreaches.code hsuffix) hfront
  | givenUp hreaches hbegins hcolumn hsuffix hfront hbetween hnone hwarned =>
    exact .givenUp (hreaches.append _) hbegins hcolumn
      (hstep.suffix_output hreaches.code hsuffix) hfront hbetween hnone
      (hstep.suffix_warnings.subset hwarned)
  | empty => contradiction

/-- When an opener is given up, what comes between it and the new code are the tokens taken in
between, and delimiters that open no block. -/
theorem between_of_gives_up (hc : c.Distinct) {older : List Token} (ht : t.virtual = false)
    (hk : k.code = true) (hne : k ≠ t) (hback : ∀ u ∈ back, u.virtual = false)
    (houtput : s.output = back.reverse ++ k :: older)
    (hstep : Step c m s t ((s.abandon k).proceed c t true)) :
    ∃ between, ((s.abandon k).proceed c t true).output = t :: (between ++ k :: older) ∧
      between.filter (!·.virtual) = back.reverse ∧ ∀ u ∈ between, u.isOpening c = false := by
  have hreverse : ∀ u ∈ back.reverse, u.virtual = false :=
    fun u hu => hback u (List.mem_reverse.mp hu)
  have hnew : ∃ between, ((s.abandon k).proceed c t true).output = t :: (between ++ k :: older) := by
    have hsuffix := hstep.suffix_output hk ⟨back.reverse, houtput.symm⟩
    rw [State.proceed, State.emit_output] at hsuffix ⊢
    rcases List.suffix_cons_iff.mp hsuffix with heq | ⟨between, hbetween⟩
    · exact absurd (List.cons_eq_cons.mp heq).1 hne
    · exact ⟨between, by rw [hbetween]⟩
  obtain ⟨between, hbetween⟩ := hnew
  refine ⟨between, hbetween, ?_, ?_⟩
  · have hreals := hstep.reals_cons ht
    rw [State.reals, State.reals, hbetween, houtput, List.filter_cons_of_pos (by simp [ht]),
      List.filter_append, List.filter_append, List.cons.injEq] at hreals
    have hold : back.reverse.filter (!·.virtual) = back.reverse :=
      List.filter_eq_self.mpr fun u hu => by simp [hreverse u hu]
    exact (List.append_cancel_right hreals.2).trans hold
  · have hcount := openings_proceed hc (s := s.abandon k) ht true
    have hold : back.reverse.countP (·.isOpening c) = 0 :=
      List.countP_eq_zero.mpr fun u hu => by simp [isOpening_real (hreverse u hu)]
    rw [State.openings, State.openings, State.abandon_output, hbetween, houtput,
      List.countP_cons_of_neg (by simp [isOpening_real ht]), List.countP_append,
      List.countP_append, hold] at hcount
    have hnone : between.countP (·.isOpening c) = 0 := by omega
    intro u hu
    simpa using List.countP_eq_zero.mp hnone u hu

/-- An opener that waits gives up at code in or left of the innermost block. -/
theorem gives_up (hc : c.Distinct) (hlaid : Laid c m (front ++ k :: back ++ t :: ys))
    (hconsistent : Consistent c (front ++ k :: back) s) (hk : k.code = true)
    (h : Course c (front ++ k :: back ++ t :: ys) s front k back .empty)
    (hcode : t.code = true) (hleft : t.column ≤ s.blocks.peek) (hin : inMargin m t = .ok true) :
    Course c (front ++ k :: back ++ t :: ys) ((s.abandon k).proceed c t true) front k
      (back ++ [t]) .givenUp := by
  cases h with | @empty older hnone hphase houtput hfront =>
  have hback : ∀ u ∈ back, u.virtual = false := fun u hu => hlaid.real u (by simp [hu])
  have hne : k ≠ t := by
    have hbefore := (List.pairwise_append.mp hlaid.ordered).2.2 k (by simp) t (by simp)
    rintro rfl
    unfold Token.Before at hbefore
    omega
  obtain ⟨between, hbetween, hreals, hopenings⟩ := between_of_gives_up hc (hlaid.real t (by simp)) hk
    hne hback houtput (.givesUp hphase hcode hleft hin)
  have hinnermost : s.blocks.peek = innermost c (k :: older).reverse := by
    have hbracketed := hconsistent.tracks.bracketed
    rw [houtput] at hbracketed
    have hcolumns := ((hbracketed.of_suffix (List.suffix_append _ _)).append_real
      fun u hu => hback u (List.mem_reverse.mp hu)).2
    rw [hconsistent.tracks.peek_eq, houtput, innermost, innermost, hcolumns]
  refine .givenUp ⟨List.prefix_refl _, hnone, hcode⟩ ?_ (hinnermost ▸ hleft) ⟨[], hbetween.symm⟩
    hfront hreals hopenings (by simp)
  exact (Consistent.inMargin_iff hlaid hcode hin).mp rfl

/-- One token more: a waiting opener waits on, opens its block or gives up. -/
theorem step (hc : c.Regular) (hlaid : Laid c m (front ++ k :: back ++ t :: ys))
    (hconsistent : Consistent c (front ++ k :: back) s) (hopener : k.code = true)
    (h : Course c (front ++ k :: back ++ t :: ys) s front k back fate) (hstep : Step c m s t s') :
    ∃ fate', Course c (front ++ k :: back ++ t :: ys) s' front k (back ++ [t]) fate' := by
  by_cases hfate : fate = .empty
  · subst hfate
    cases hcode : t.code with
    | false =>
      rw [hstep.eq_emit hc (hlaid.code t (by simp)) hcode]
      cases h with | @empty older hnone hphase houtput hfront =>
      refine ⟨.empty, .empty ?_ hphase ?_ hfront⟩
      · intro u hu
        rcases List.mem_append.mp hu with hu | hu
        · exact hnone u hu
        · rw [List.mem_singleton.mp hu, hcode]
      · rw [State.emit_output, houtput, List.reverse_concat, List.cons_append]
    | true =>
      have hphase : s.phase = .awaiting k := by cases h with | empty _ hphase _ _ => exact hphase
      cases hstep with
      | idles hdormant => simp [hphase] at hdormant
      | opens _ _ _ =>
        cases h with | @empty older hnone _ houtput hfront =>
        have hopened : (s.openBlock c t).output =
            t :: Token.before c.openKind t :: (back.reverse ++ k :: older) := by
          rw [State.openBlock_output, houtput]
        exact ⟨.opened, .opened ⟨List.prefix_refl _, hnone, hcode⟩ ⟨[], hopened.symm⟩ hfront⟩
      | passes _ hleft hin =>
        exact absurd hin (hconsistent.not_passes hlaid hcode (hleft hcode))
      | givesUp hawaiting _ hleft hin =>
        rw [hphase, Phase.awaiting.injEq] at hawaiting
        subst hawaiting
        exact ⟨_, h.gives_up hc.toDistinct hlaid hconsistent hopener hcode hleft hin⟩
      | proceeds hrunning _ => simp [hphase] at hrunning
  · exact ⟨fate, h.keep hstep hfate⟩

end Course

end Course

end OffsideRule.Layout
