import OffsideRule.Proofs.Openers

/-! Accounting for openers. In a resolved source every opener meets one fate, blocks open and
warnings are given for openers only, their numbers add up to that of the openers, and the warnings
come in the order of the source. -/

namespace OffsideRule.Layout

/-- How a resolution accounts for the openers of the placed tokens it was made from. -/
structure Accounted (c : Config) (input : List Token) (r : Resolution) : Prop where
  fates : ∀ front k back, input = front ++ k :: back → c.isOpener k.kind = true →
    ∃! fate, Meets c r front k back fate
  /-- A block opens for the nearest code before it, which is an opener that was not given up. -/
  openings : ∀ before d after, r.tokens = before ++ d :: after → d.isOpening c = true →
    ∃ front k back fate, input = front ++ k :: back ∧ c.isOpener k.kind = true ∧
      lastCode before = some k ∧ Meets c r front k back fate ∧ fate ≠ .givenUp
  /-- A warning is about an opener that was given up. -/
  warnings : ∀ w ∈ r.warnings, ∃ front k back, input = front ++ k :: back ∧
    c.isOpener k.kind = true ∧ w = k.givenUp ∧ Meets c r front k back .givenUp
  count : r.tokens.countP (·.isOpening c) + r.warnings.length = input.countP (c.isOpener ·.kind)
  ordered : r.warnings.Pairwise fun v w => v.start < w.start

/-- The opener that waits for its block, if there is one. -/
def State.awaited (s : State) : List Token :=
  match s.phase with
  | .awaiting opener => [opener]
  | _ => []

theorem State.awaited_of_eq {s : State} {opener : Token} (h : s.phase = .awaiting opener) :
    s.awaited = [opener] := by
  rw [State.awaited, h]

/-- After a token that is not awaited on, the only opener that may wait is the token. -/
theorem State.awaited_of_ite {c : Config} {s : State} {t : Token} {phase : Phase}
    (h : s.phase = if c.isOpener t.kind then .awaiting t else phase)
    (hnone : ∀ opener, phase ≠ .awaiting opener) :
    s.awaited = if c.isOpener t.kind then [t] else [] := by
  cases hopener : c.isOpener t.kind with
  | true => rw [State.awaited, h, hopener, if_pos rfl, if_pos rfl]
  | false =>
    rw [State.awaited, h, hopener, if_neg (by simp), if_neg (by simp)]
    cases phase with
    | awaiting opener => exact absurd rfl (hnone opener)
    | dormant => rfl
    | running => rfl

/-- A token of a list that grew by `t` is `t` or has `t` behind it. -/
theorem split_of_concat {xs front back : List Token} {t k : Token}
    (h : xs ++ [t] = front ++ k :: back) :
    (xs = front ∧ t = k ∧ back = []) ∨ ∃ mid, xs = front ++ k :: mid ∧ back = mid ++ [t] := by
  rcases List.eq_nil_or_concat' back with rfl | ⟨mid, u, rfl⟩
  · obtain ⟨hxs, ht⟩ := List.append_inj' h rfl
    exact Or.inl ⟨hxs, List.singleton_inj.mp ht, rfl⟩
  · rw [← List.cons_append, ← List.append_assoc] at h
    obtain ⟨hxs, ht⟩ := List.append_inj' h rfl
    exact Or.inr ⟨mid, hxs, by rw [List.singleton_inj.mp ht]⟩

section Steps

variable {c : Config} {m : Margins} {s s' : State} {xs ys : List Token} {t d : Token}

/-- A block opens only while an opener waits, right behind the output so far. -/
theorem Step.opening_suffix (hc : c.Distinct) (ht : t.virtual = false) (hstep : Step c m s t s')
    {older : List Token} (hcode : d.code = true) (hd : d.isOpening c = true)
    (h : d :: older <:+ s'.output) :
    d :: older <:+ s.output ∨ older = s.output ∧ ∃ opener, s.phase = .awaiting opener := by
  have hne : d ≠ t := by
    rintro rfl
    simp [isOpening_real ht] at hd
  have hclose (v : Token) : d ≠ .before c.closeKind v := by
    rintro rfl
    simp [isOpening_close hc] at hd
  have hseparator (v : Token) : d ≠ .before c.separatorKind v := by
    rintro rfl
    simp [isOpening_separator hc] at hd
  have hcons {output : List Token} (h : d :: older <:+ t :: output) : d :: older <:+ output := by
    rcases List.suffix_cons_iff.mp h with h | h
    · exact absurd (List.cons_eq_cons.mp h).1 hne
    · exact h
  have hproceed {s : State} {atMargin : Bool}
      (h : d :: older <:+ (s.proceed c t atMargin).output) : d :: older <:+ s.output := by
    rcases suffix_of_suffix_proceed _ hcode hseparator hclose h with h | h
    · rw [State.proceed, State.emit_output] at h
      exact absurd (List.cons_eq_cons.mp h).1 hne
    · exact h
  cases hstep with
  | idles _ =>
    rw [State.emit_output, State.await_output] at h
    exact Or.inl (hcons h)
  | opens hphase _ _ =>
    rw [State.openBlock_output] at h
    rcases List.suffix_cons_iff.mp (hcons h) with h | h
    · exact Or.inr ⟨(List.cons_eq_cons.mp h).2, _, hphase⟩
    · exact Or.inl h
  | passes _ _ _ => exact Or.inl (hcons h)
  | givesUp _ _ _ _ =>
    have hold := hproceed h
    exact Or.inl hold
  | proceeds _ _ => exact Or.inl (hproceed h)

/-- An opener is added to those that wait, were opened or were given up. -/
theorem Consistent.count_step (hc : c.Regular) (hlaid : Laid c m (xs ++ t :: ys))
    (h : Consistent c xs s) (hstep : Step c m s t s') :
    s'.openings c + s'.warnings.length + s'.awaited.length =
      s.openings c + s.warnings.length + s.awaited.length +
        if c.isOpener t.kind then 1 else 0 := by
  have ht := hlaid.real t (by simp)
  have hawaited {phase : Phase}
      (hphase : s'.phase = if c.isOpener t.kind then .awaiting t else phase)
      (hnone : ∀ opener, phase ≠ .awaiting opener) :
      s'.awaited.length = if c.isOpener t.kind then 1 else 0 := by
    rw [State.awaited_of_ite hphase hnone]
    split <;> rfl
  cases hstep with
  | idles hphase =>
    rw [hawaited (by rw [State.emit_phase, State.await_phase]) (by simp [hphase]), openings_emit ht,
      openings_await, State.awaited, hphase]
    simp
  | opens hphase _ _ =>
    rw [hawaited (State.openBlock_phase _ _ _) (by simp), openings_openBlock ht,
      State.awaited_of_eq hphase, State.openBlock_warnings, List.length_singleton]
    omega
  | passes hphase hleft hin =>
    have hcode : t.code = false := by
      cases hcode : t.code with
      | false => rfl
      | true => exact absurd hin (h.not_passes hlaid hcode (hleft hcode))
    have hopener : c.isOpener t.kind = false := hc.not_opener (hlaid.code t (by simp) ▸ hcode)
    rw [openings_emit ht, State.awaited_of_eq (s := s.emit t) hphase, State.awaited_of_eq hphase,
      hopener]
    simp
  | @givesUp opener hphase _ _ _ =>
    have hopenings := openings_proceed hc.toDistinct (s := s.abandon opener) ht true
    rw [hawaited (State.proceed_phase _ _ _ _) (by simp), hopenings, State.awaited_of_eq hphase,
      State.proceed_warnings, State.abandon_warnings, List.length_cons, List.length_singleton]
    simp only [State.openings, State.abandon_output]
    omega
  | proceeds hphase _ =>
    rw [hawaited (State.proceed_phase _ _ _ _) (by simp [hphase]), State.awaited, hphase,
      openings_proceed hc.toDistinct ht, State.proceed_warnings]
    simp

/-- The warnings are about openers in the order in which they were taken, and an opener that waits
comes after them. -/
def Warned (taken : List Token) (s : State) : Prop :=
  ∃ given, (given ++ s.awaited).Sublist taken ∧ s.warnings = (given.map Token.givenUp).reverse

theorem Warned.step (h : Warned xs s) (hstep : Step c m s t s') : Warned (xs ++ [t]) s' := by
  obtain ⟨given, hgiven, hwarnings⟩ := h
  have hold : given.Sublist xs := (List.sublist_append_left _ _).trans hgiven
  have hawaited {phase : Phase}
      (hphase : s'.phase = if c.isOpener t.kind then .awaiting t else phase)
      (hnone : ∀ opener, phase ≠ .awaiting opener) : s'.awaited.Sublist [t] := by
    rw [State.awaited_of_ite hphase hnone]
    split <;> simp
  cases hstep with
  | idles hphase =>
    refine ⟨given, hold.append (hawaited (s.await_phase c t) (by simp [hphase])), ?_⟩
    rw [State.emit_warnings, State.await_warnings, hwarnings]
  | opens _ _ _ =>
    refine ⟨given, hold.append (hawaited (State.openBlock_phase _ _ _) (by simp)), ?_⟩
    rw [State.openBlock_warnings, hwarnings]
  | passes _ _ _ => exact ⟨given, hgiven.trans (List.sublist_append_left _ _), hwarnings⟩
  | @givesUp opener hphase _ _ _ =>
    rw [State.awaited_of_eq hphase] at hgiven
    refine ⟨given ++ [opener], hgiven.append (hawaited (State.proceed_phase _ _ _ _) (by simp)), ?_⟩
    rw [State.proceed_warnings, State.abandon_warnings, hwarnings]
    simp
  | proceeds hphase _ =>
    refine ⟨given, hold.append (hawaited (State.proceed_phase _ _ _ _) (by simp [hphase])), ?_⟩
    rw [State.proceed_warnings, hwarnings]

/-- Tokens that lie one behind the other are warned about in the order of the source. -/
theorem Warned.ordered (hlaid : Laid c m xs) (h : Warned xs s) :
    s.warnings.reverse.Pairwise fun v w => v.start < w.start := by
  obtain ⟨given, hgiven, hwarnings⟩ := h
  rw [hwarnings, List.reverse_reverse, List.pairwise_map]
  exact hlaid.starts.sublist ((List.sublist_append_left _ _).trans hgiven)

end Steps

theorem Course.eq_empty {c : Config} {s : State} {tokens front back : List Token} {k : Token}
    {fate : Fate} (h : Course c tokens s front k back fate) (hback : ∀ u ∈ back, u.code = false) :
    fate = .empty := by
  cases h with
  | opened hreaches _ _ => exact absurd hback hreaches.exists_code
  | givenUp hreaches _ _ _ _ _ _ _ => exact absurd hback hreaches.exists_code
  | empty _ _ _ _ => rfl

/-- What a run keeps of the openers it has taken. -/
structure Accounts (c : Config) (tokens taken : List Token) (s : State) : Prop where
  consistent : Consistent c taken s
  courses : ∀ front k back, taken = front ++ k :: back → c.isOpener k.kind = true →
    ∃ fate, Course c tokens s front k back fate
  openings : ∀ d older, d :: older <:+ s.output → d.isOpening c = true →
    ∃ k, (older.filter (·.code)).head? = some k ∧ k.virtual = false ∧ c.isOpener k.kind = true
  warnings : ∀ w ∈ s.warnings, ∃ front k back, taken = front ++ k :: back ∧
    c.isOpener k.kind = true ∧ w = k.givenUp ∧ Course c tokens s front k back .givenUp
  warned : Warned taken s
  count : s.openings c + s.warnings.length + s.awaited.length =
    taken.countP (c.isOpener ·.kind)

namespace Accounts

variable {c : Config} {m : Margins} {s s' : State} {xs ys : List Token} {t : Token}

theorem initial (c : Config) (tokens : List Token) : Accounts c tokens [] State.initial where
  consistent := .initial c
  courses := by simp
  openings := by simp [State.initial]
  warnings := by simp [State.initial]
  warned := ⟨[], by simp [State.initial, State.awaited], rfl⟩
  count := rfl

theorem courses_step (hc : c.Regular) (hlaid : Laid c m (xs ++ t :: ys))
    (h : Accounts c (xs ++ t :: ys) xs s) (hstep : Step c m s t s') (front : List Token) (k : Token)
    (back : List Token) (htaken : xs ++ [t] = front ++ k :: back)
    (hopener : c.isOpener k.kind = true) :
    ∃ fate, Course c (xs ++ t :: ys) s' front k back fate := by
  have hmem : k ∈ xs ++ t :: ys := by
    rw [List.append_cons, htaken]
    simp
  have hcode : k.code = true := by rw [hlaid.code k hmem, hc.code_of_opener _ hopener]
  rcases split_of_concat htaken with ⟨rfl, rfl, rfl⟩ | ⟨back, rfl, rfl⟩
  · -- the opener is `t` itself and begins to wait
    obtain ⟨older, houtput, hreals⟩ :=
      (h.consistent.step hc hlaid hstep).lined.output_concat (hlaid.real t (by simp))
    exact ⟨.empty, .empty (by simp) (h.consistent.awaits hlaid hcode hopener hstep)
      (by simpa using houtput) hreals⟩
  · obtain ⟨fate, hcourse⟩ := h.courses front k back rfl hopener
    exact hcourse.step hc hlaid h.consistent hcode hstep

theorem openings_step (hc : c.Regular) (hlaid : Laid c m (xs ++ t :: ys))
    (h : Accounts c (xs ++ t :: ys) xs s) (hstep : Step c m s t s') (d : Token) (older : List Token)
    (hd : d :: older <:+ s'.output) (hopening : d.isOpening c = true) :
    ∃ k, (older.filter (·.code)).head? = some k ∧ k.virtual = false ∧
      c.isOpener k.kind = true := by
  have hcode : d.code = true := by
    refine (h.consistent.step hc hlaid hstep).tracks.coded d (hd.subset (by simp)) ?_
    rw [Token.isOpening, Bool.and_eq_true] at hopening
    exact hopening.1
  rcases hstep.opening_suffix hc.toDistinct (hlaid.real t (by simp)) hcode hopening hd with
    hold | ⟨rfl, k, hphase⟩
  · exact h.openings d older hold hopening
  · obtain ⟨hlast, hopener⟩ := h.consistent.awaiting k hphase
    refine ⟨k, h.consistent.newest.trans hlast, ?_, hopener⟩
    exact hlaid.real k (List.mem_append_left _ (mem_of_lastCode hlast).1)

theorem warnings_step (hc : c.Regular) (hlaid : Laid c m (xs ++ t :: ys))
    (h : Accounts c (xs ++ t :: ys) xs s) (hstep : Step c m s t s') :
    ∀ w ∈ s'.warnings, ∃ front k back, xs ++ [t] = front ++ k :: back ∧
      c.isOpener k.kind = true ∧ w = k.givenUp ∧
      Course c (xs ++ t :: ys) s' front k back .givenUp := by
  intro w hw
  have hold (hw : w ∈ s.warnings) : ∃ front k back, xs ++ [t] = front ++ k :: back ∧
      c.isOpener k.kind = true ∧ w = k.givenUp ∧
      Course c (xs ++ t :: ys) s' front k back .givenUp := by
    obtain ⟨front, k, back, rfl, hopener, rfl, hcourse⟩ := h.warnings w hw
    exact ⟨front, k, back ++ [t], by simp, hopener, rfl, hcourse.keep hstep (by simp)⟩
  cases hstep with
  | @givesUp k hphase hcode hleft hin =>
    rw [State.proceed_warnings, State.abandon_warnings] at hw
    rcases List.mem_cons.mp hw with rfl | hw
    · obtain ⟨hlast, hopener⟩ := h.consistent.awaiting k hphase
      obtain ⟨front, back, rfl, hk, hback⟩ := exists_of_lastCode hlast
      obtain ⟨fate, hcourse⟩ := h.courses front k back rfl hopener
      rw [hcourse.eq_empty hback] at hcourse
      exact ⟨front, k, back ++ [t], by simp, hopener, rfl,
        hcourse.gives_up hc.toDistinct hlaid h.consistent hk hcode hleft hin⟩
    · exact hold hw
  | idles _ => exact hold (by simpa using hw)
  | opens _ _ _ => exact hold (by simpa using hw)
  | passes _ _ _ => exact hold hw
  | proceeds _ _ => exact hold (by simpa using hw)

theorem step (hc : c.Regular) (hlaid : Laid c m (xs ++ t :: ys))
    (h : Accounts c (xs ++ t :: ys) xs s) (hstep : Step c m s t s') :
    Accounts c (xs ++ t :: ys) (xs ++ [t]) s' where
  consistent := h.consistent.step hc hlaid hstep
  courses := h.courses_step hc hlaid hstep
  openings := h.openings_step hc hlaid hstep
  warnings := h.warnings_step hc hlaid hstep
  warned := h.warned.step hstep
  count := by
    rw [h.consistent.count_step hc hlaid hstep, h.count, List.countP_append, List.countP_singleton]

theorem run (hc : c.Regular) {tokens : List Token} (hlaid : Laid c m tokens)
    (hrun : State.initial.run c m tokens = .ok s) : Accounts c tokens tokens s := by
  refine State.run_induction (motive := fun xs s => Accounts c tokens xs s) hrun
    (.initial c tokens) ?_
  rintro xs t ys u u' rfl hu hstep
  exact hu.step hc hlaid hstep

end Accounts

theorem filter_span {warnings : List Warning} {k : Token}
    (hordered : warnings.Pairwise fun v w => v.start < w.start) (hk : k.givenUp ∈ warnings) :
    (warnings.filter fun w => w.start = k.start ∧ w.stop = k.stop) = [k.givenUp] := by
  obtain ⟨front, back, rfl⟩ := List.append_of_mem hk
  obtain ⟨_, hback, hcross⟩ := List.pairwise_append.mp hordered
  have hfront : (front.filter fun w => w.start = k.start ∧ w.stop = k.stop) = [] := by
    apply List.filter_eq_nil_iff.mpr
    intro w hw
    have : w.start < k.start := hcross w hw k.givenUp (by simp)
    simp only [decide_eq_true_eq]
    omega
  have hrest : (back.filter fun w => w.start = k.start ∧ w.stop = k.stop) = [] := by
    apply List.filter_eq_nil_iff.mpr
    intro w hw
    have : k.start < w.start := (List.pairwise_cons.mp hback).1 w hw
    simp only [decide_eq_true_eq]
    omega
  have hself : decide (k.givenUp.start = k.start ∧ k.givenUp.stop = k.stop) = true :=
    decide_eq_true ⟨rfl, rfl⟩
  rw [List.filter_append, List.filter_cons, if_pos hself, hfront, hrest, List.nil_append]

section Finish

variable {c : Config} {s : State} {atEnd d k : Token}

theorem State.suffix_finish (c : Config) (s : State) (atEnd : Token) :
    s.output <:+ (s.finish c atEnd).output := by
  rw [State.finish]
  exact List.suffix_append _ _

/-- At the end a block opens only for an opener that waits. -/
theorem State.opening_finish (hc : c.Distinct) (htracks : Tracks c s) (hend : atEnd.virtual = false)
    {older : List Token} (hd : d.isOpening c = true)
    (h : d :: older <:+ (s.finish c atEnd).output) :
    d :: older <:+ s.output ∨ older = s.output ∧ ∃ opener, s.phase = .awaiting opener := by
  have hclose : d ≠ .before c.closeKind atEnd := by
    rintro rfl
    simp [isOpening_close hc] at hd
  have hatEnd : d ≠ atEnd := by
    rintro rfl
    simp [isOpening_real hend] at hd
  rw [State.finish_output htracks] at h
  have hblock : d :: older <:+ s.emptyBlock c atEnd ++ s.output := by
    rw [List.append_assoc, ← List.cons_append] at h
    refine suffix_of_suffix_append (fun hmem => ?_) h
    rcases List.mem_cons.mp hmem with hmem | hmem
    · exact hatEnd hmem
    · exact hclose (List.eq_of_mem_replicate hmem)
  unfold State.emptyBlock at hblock
  split at hblock
  · next opener hphase =>
    rcases List.suffix_cons_iff.mp hblock with hblock | hblock
    · exact absurd (List.cons_eq_cons.mp hblock).1 hclose
    · rcases List.suffix_cons_iff.mp hblock with hblock | hblock
      · exact Or.inr ⟨(List.cons_eq_cons.mp hblock).2, opener, hphase⟩
      · exact Or.inl hblock
  · exact Or.inl hblock

theorem openings_finish (hc : c.Distinct) (htracks : Tracks c s) (hend : atEnd.virtual = false) :
    (s.finish c atEnd).openings c = s.openings c + s.awaited.length := by
  have hcloses (n : Nat) :
      (List.replicate n (Token.before c.closeKind atEnd)).countP (·.isOpening c) = 0 := by
    simp [List.countP_replicate, isOpening_close hc]
  have hempty : (s.emptyBlock c atEnd).countP (·.isOpening c) = s.awaited.length := by
    cases hphase : s.phase with
    | awaiting opener =>
      simp [State.emptyBlock, State.awaited, hphase, isOpening_close hc, isOpening_before]
    | dormant => simp [State.emptyBlock, State.awaited, hphase]
    | running => simp [State.emptyBlock, State.awaited, hphase]
  rw [State.openings, State.finish_output htracks,
    List.countP_cons_of_neg (by simp [isOpening_real hend]), List.countP_append,
    List.countP_append, hcloses, hempty, State.openings]
  omega

/-- The end of the input turns a course into a fate. -/
theorem Course.meets {front back : List Token} {fate : Fate} (htracks : Tracks c s)
    (hordered : s.warnings.reverse.Pairwise fun v w => v.start < w.start)
    (hend : atEnd.kind = none ∧ atEnd.code = false ∧ atEnd.virtual = false) (taken depth : Nat)
    (h : Course c (front ++ k :: back) s front k back fate) :
    Meets c (.ofState (s.finish c atEnd) taken depth) front k (back ++ [atEnd]) fate := by
  have hreverse {older : List Token} (hfront : older.filter (!·.virtual) = front.reverse) :
      older.reverse.filter (!·.virtual) = front := by
    rw [List.filter_reverse, hfront, List.reverse_reverse]
  cases h with
  | @opened mid older next hreaches hsuffix hfront =>
    obtain ⟨newer, hnewer⟩ := hsuffix.trans (s.suffix_finish c atEnd)
    have htokens : (s.finish c atEnd).output.reverse =
        older.reverse ++ k :: (mid ++ Token.before c.openKind next :: next :: newer.reverse) := by
      rw [← hnewer]
      simp
    exact .opened (hreaches.append _) htokens (hreverse hfront)
  | @givenUp mid between older next hreaches hbegins hcolumn hsuffix hfront hbetween hnone
      hwarned =>
    obtain ⟨newer, hnewer⟩ := hsuffix.trans (s.suffix_finish c atEnd)
    have htokens : (s.finish c atEnd).output.reverse =
        older.reverse ++ k :: (between.reverse ++ next :: newer.reverse) := by
      rw [← hnewer]
      simp
    have hbegins' : BeginsLine (front ++ k :: (back ++ [atEnd])) next := by
      rw [← List.cons_append, ← List.append_assoc]
      exact (beginsLine_concat hend.2.1).mpr hbegins
    refine .givenUp (hreaches.append _) hbegins' (by simpa using hcolumn) htokens (hreverse hfront)
      ?_ (fun u hu => hnone u (List.mem_reverse.mp hu)) ?_
    · rw [List.filter_reverse, hbetween, List.reverse_reverse]
    · exact filter_span hordered (List.mem_reverse.mpr hwarned)
  | @empty older hnone hphase houtput hfront =>
    have htokens : (s.finish c atEnd).output.reverse =
        older.reverse ++ k :: (back ++ Token.before c.openKind atEnd ::
          Token.before c.closeKind atEnd ::
            (List.replicate (s.unclosed c) (Token.before c.closeKind atEnd) ++ [atEnd])) := by
      rw [State.finish_output htracks, State.emptyBlock, hphase, houtput]
      simp
    refine .empty ?_ rfl (by simp [Token.isEnd, hend.1]) htokens (hreverse hfront) ?_
    · intro u hu
      rcases List.mem_append.mp hu with hu | hu
      · exact hnone u hu
      · rw [List.mem_singleton.mp hu, hend.2.1]
    · intro u hu
      rw [List.eq_of_mem_replicate hu]
      simp [Token.isClosing, Token.before]

end Finish

namespace Accounts

variable {c : Config} {m : Margins} {s : State} {body : List Token} {atEnd : Token}

theorem fates (hlaid : Laid c m body)
    (hend : atEnd.kind = none ∧ atEnd.code = false ∧ atEnd.virtual = false) (taken depth : Nat)
    (h : Accounts c body body s) (front : List Token) (k : Token) (back : List Token)
    (hinput : body ++ [atEnd] = front ++ k :: back) (hopener : c.isOpener k.kind = true) :
    ∃! fate, Meets c (.ofState (s.finish c atEnd) taken depth) front k back fate := by
  have hreal : ∀ u ∈ body ++ [atEnd], u.virtual = false := by
    intro u hu
    rcases List.mem_append.mp hu with hu | hu
    · exact hlaid.real u hu
    · rw [List.mem_singleton.mp hu, hend.2.2]
  rw [hinput] at hreal
  rcases split_of_concat hinput with ⟨rfl, rfl, rfl⟩ | ⟨mid, rfl, rfl⟩
  · simp [hend.1, Config.isOpener] at hopener
  · obtain ⟨fate, hcourse⟩ := h.courses front k mid rfl hopener
    have hmeets := hcourse.meets h.consistent.tracks (h.warned.ordered hlaid) hend taken depth
    refine ⟨fate, hmeets, fun fate' hmeets' => ?_⟩
    exact hmeets'.unique (hreal k (by simp)) (fun u hu => hreal u (by simp [hu])) hmeets

/-- The nearest code before an opening delimiter is an opener, and it was not given up. -/
theorem openings_resolved (hc : c.Distinct) (hlaid : Laid c m body)
    (hend : atEnd.kind = none ∧ atEnd.code = false ∧ atEnd.virtual = false) (taken depth : Nat)
    (h : Accounts c body body s) (before : List Token) (d : Token) (after : List Token)
    (htokens : (s.finish c atEnd).output.reverse = before ++ d :: after)
    (hd : d.isOpening c = true) :
    ∃ front k back fate, body ++ [atEnd] = front ++ k :: back ∧ c.isOpener k.kind = true ∧
      lastCode before = some k ∧
      Meets c (.ofState (s.finish c atEnd) taken depth) front k back fate ∧ fate ≠ .givenUp := by
  have hsuffix : d :: before.reverse <:+ (s.finish c atEnd).output :=
    ⟨after.reverse, by simpa using (congrArg List.reverse htokens).symm⟩
  have hnearest : ∃ k, lastCode before = some k ∧ k.virtual = false ∧
      c.isOpener k.kind = true := by
    rw [← List.reverse_reverse before, lastCode_reverse]
    rcases State.opening_finish hc h.consistent.tracks hend.2.2 hd hsuffix with
      hold | ⟨hold, k, hphase⟩
    · exact h.openings d _ hold hd
    · obtain ⟨hlast, hopener⟩ := h.consistent.awaiting k hphase
      refine ⟨k, ?_, hlaid.real k (mem_of_lastCode hlast).1, hopener⟩
      rw [hold]
      exact h.consistent.newest.trans hlast
  obtain ⟨k, hlast, hk, hopener⟩ := hnearest
  obtain ⟨early, mid, rfl, _, hmid⟩ := exists_of_lastCode hlast
  rw [List.append_assoc, List.cons_append] at htokens
  have hinput : body ++ [atEnd] = early.filter (!·.virtual) ++
      k :: (mid ++ d :: after).filter (!·.virtual) := by
    have hreals := congrArg List.reverse (s.reals_finish c atEnd)
    rw [List.filter_cons_of_pos (by simp [hend.2.2]), List.filter_nil, List.singleton_append,
      h.consistent.lined.reals, List.reverse_cons, List.reverse_reverse, State.reals,
      ← List.filter_reverse, htokens] at hreals
    rw [← hreals, List.filter_append, List.filter_cons_of_pos (by simp [hk])]
  obtain ⟨fate, hmeets, -⟩ := h.fates hlaid hend taken depth _ k _ hinput hopener
  refine ⟨_, k, _, fate, hinput, hopener, hlast, hmeets, ?_⟩
  rintro rfl
  refine Meets.not_givenUp_of_opening hk ?_ htokens rfl hmid hd hmeets
  intro u hu
  simpa using (List.mem_filter.mp hu).2

theorem accounted (hc : c.Distinct) (hlaid : Laid c m body)
    (hend : atEnd.kind = none ∧ atEnd.code = false ∧ atEnd.virtual = false) (taken depth : Nat)
    (h : Accounts c body body s) :
    Accounted c (body ++ [atEnd]) (.ofState (s.finish c atEnd) taken depth) where
  fates := h.fates hlaid hend taken depth
  openings := h.openings_resolved hc hlaid hend taken depth
  warnings := by
    intro w hw
    obtain ⟨front, k, back, hbody, hopener, hwarning, hcourse⟩ :=
      h.warnings w (List.mem_reverse.mp hw)
    subst hbody
    exact ⟨front, k, back ++ [atEnd], by simp, hopener, hwarning,
      hcourse.meets h.consistent.tracks (h.warned.ordered hlaid) hend taken depth⟩
  count := by
    have hcount := h.count
    have hopenings := openings_finish hc h.consistent.tracks hend.2.2
    have hlast : c.isOpener atEnd.kind = false := by simp [hend.1, Config.isOpener]
    rw [State.openings] at hopenings
    rw [Resolution.ofState, List.countP_reverse, List.length_reverse, State.finish_warnings,
      hopenings, List.countP_append, List.countP_singleton, hlast, ← hcount]
    simp only [Bool.false_eq_true, if_false]
    omega
  ordered := h.warned.ordered hlaid

end Accounts

/-- Every variant accounts for all openers of a source that can be read. -/
theorem resolveText_accounted {c : Config} (hc : c.Variant) {source : Text}
    {tokens : List OffsideRule.Token} (h : tokenize source = .ok tokens) :
    ∃ r, resolveText c source = .ok r ∧ Accounted c (placed c source tokens) r := by
  obtain ⟨m, body, atEnd, s, hplace, hlaid, hend, hrun, hresolve⟩ := resolveText_eq c h
  have haccounts := Accounts.run hc.regular hlaid hrun
  rw [hplace]
  exact ⟨_, hresolve, haccounts.accounted hc.regular.toDistinct hlaid hend _ _⟩

/-- The first opener opens a block, the second is given up, and the third ends the source. -/
theorem resolveText_accounted_fates :
    ∃ tokens r, tokenize "do x\n   do\n   y where".toList = .ok tokens ∧
      resolveText .haskell "do x\n   do\n   y where".toList = .ok r ∧
      Accounted .haskell (placed .haskell "do x\n   do\n   y where".toList tokens) r := by
  have h : tokenize "do x\n   do\n   y where".toList = .ok _ :=
    tokenize_of_problem (by decide +kernel)
  obtain ⟨r, hr, haccounted⟩ := resolveText_accounted .haskell h
  exact ⟨_, r, h, hr, haccounted⟩

end OffsideRule.Layout
