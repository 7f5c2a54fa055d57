import OffsideRule.Proofs.Moments
import OffsideRule.Proofs.Places

/-! Termination of resolution. From moment to moment a resolution follows the run over its tokens
(`Along`): a comparison ends because code does not lie left of the outermost block, and a token is
looked at again only when it makes an opener give up, after which no opener waits. -/

namespace OffsideRule.Layout

/-- The moments of a resolution of `tokens`. Between two tokens the state is the one to which the
tokens before were run; a token is looked at again only if it made an opener give up, and the rounds
of a comparison close blocks right of the line. -/
inductive Along (c : Config) (m : Margins) (tokens : List Token) : Moment → Prop
  | taken {xs ys : List Token} {s : State} : tokens = xs ++ ys →
      State.initial.run c m xs = .ok s → Along c m tokens (.looking s ys 1)
  | givenUp {xs ys : List Token} {t opener : Token} {s : State} : tokens = xs ++ t :: ys →
      State.initial.run c m xs = .ok s → s.phase = .awaiting opener →
      Along c m tokens (.looking (s.abandon opener) (t :: ys) 2)
  | compared {xs ys later : List Token} {t : Token} {s u : State} {closed : List Int}
      {turn : Nat} : tokens = xs ++ t :: ys → State.initial.run c m xs = .ok s → t.code = true →
      s.blocks.columns = closed ++ u.blocks.columns → (∀ block ∈ closed, t.column < block) →
      turn ≤ 2 → Along c m tokens (.comparing u later t ys turn)

namespace State

variable {c : Config} {anchor : Token} {column : Int} {s u : State}

theorem columns_of_again {n : Nat} (h : s.rounds c anchor column n = .again u) :
    ∃ closed, s.blocks.columns = closed ++ u.blocks.columns ∧
      ∀ block ∈ closed, column < block := by
  induction n generalizing s with
  | zero =>
    cases h
    exact ⟨[], rfl, by simp⟩
  | succ n ih =>
    by_cases hpeek : column < s.blocks.peek
    · rw [rounds, compare_outside hpeek] at h
      obtain ⟨closed, hcolumns, hclosed⟩ := ih h
      have hpop : (s.closeInnermost c anchor).blocks.columns = s.blocks.columns.tail := rfl
      rw [hpop] at hcolumns
      cases hs : s.blocks.columns with
      | nil =>
        -- left of all blocks, where a round closes nothing on the stack
        rw [hs] at hcolumns
        exact ⟨closed, hcolumns, hclosed⟩
      | cons block outer =>
        rw [hs] at hcolumns
        rw [Blocks.peek, hs] at hpeek
        refine ⟨block :: closed, congrArg _ hcolumns, fun b hb => ?_⟩
        rcases List.mem_cons.mp hb with rfl | hb
        · exact hpeek
        · exact hclosed b hb
    · rw [rounds, compare_inside (Int.not_lt.mp hpeek)] at h
      contradiction

end State

namespace Moment

variable {c : Config} {m : Margins} {P : Moment → Prop} {s s' : State} {t : Token}
  {later todo tokens : List Token} {turn : Nat}

/-- Rounds that come to an end lead on to the next token. -/
theorem leads_rounds {n : Nat}
    (h : s.rounds c (later.getLast?.getD t) t.column n = .last s')
    (hP : ∀ k u, s.rounds c (later.getLast?.getD t) t.column k = .again u →
      P (.comparing u later t todo turn)) :
    Leads c m P (.comparing s later t todo turn)
      (.looking (({ s' with output := later ++ s'.output }.closeLet c t).emit t) todo 1) := by
  induction n generalizing s with
  | zero => contradiction
  | succ n ih =>
    have hs : P (.comparing s later t todo turn) := hP 0 s rfl
    rw [State.rounds] at h
    cases hround : s.compare c (later.getLast?.getD t) t.column with
    | again u =>
      rw [hround] at h
      have hnext : next c m (.comparing s later t todo turn) =
          .ok (.going (.comparing u later t todo turn)) := by rw [next, hround, afterRound]
      refine .cons hs hnext (ih h fun k v hv => hP (k + 1) v ?_)
      rw [State.rounds, hround]
      exact hv
    | last u =>
      rw [hround] at h
      cases h
      exact .single hs (by rw [next, hround, afterRound])

theorem next_looking (hend : t.isEnd = false) :
    next c m (.looking s (t :: todo) turn) = (look c m s t todo turn).map .going := by
  rw [next, hend]
  rfl

/-- While no opener waits, a token is taken in one turn. -/
theorem leads_proceed {atMargin : Bool} (hend : t.isEnd = false)
    (hphase : s.phase = .running) (hin : inMargin m t = .ok atMargin)
    (hcolumn : atMargin = true → topLevel ≤ t.column)
    (hlooking : P (.looking s (t :: todo) turn))
    (hcomparing : ∀ u later closed, atMargin = true →
      s.blocks.columns = closed ++ u.blocks.columns → (∀ block ∈ closed, t.column < block) →
      P (.comparing u later t todo turn)) :
    Leads c m P (.looking s (t :: todo) turn) (.looking (s.proceed c t atMargin) todo 1) := by
  cases atMargin with
  | false =>
    refine .single hlooking ?_
    rw [next_looking hend, look, hphase, hin]
    rfl
  | true =>
    have hnext : next c m (.looking s (t :: todo) turn) =
        .ok (.going (.comparing
          { s.await c t with output := (gap c.endOfLine (s.await c t).output).earlier }
          (gap c.endOfLine (s.await c t).output).later t todo turn)) := by
      rw [next_looking hend, look, hphase, hin]
      rfl
    refine .cons hlooking hnext ?_
    rw [State.proceed, State.started_true, State.startLine_eq_dedent]
    refine leads_rounds (State.rounds_dedent (hcolumn rfl) _) fun k u hu => ?_
    obtain ⟨closed, hcolumns, hclosed⟩ := State.columns_of_again hu
    exact hcomparing u _ closed rfl ((congrArg _ (s.await_blocks c t)).symm.trans hcolumns) hclosed

/-- A token is taken in one turn, or in two if it makes an opener give up. -/
theorem leads_step {xs : List Token} (htokens : tokens = xs ++ t :: todo)
    (hrun : State.initial.run c m xs = .ok s) (hend : t.isEnd = false)
    (hcolumn : t.code = true → topLevel ≤ t.column) (hstep : Step c m s t s') :
    Leads c m (Along c m tokens) (.looking s (t :: todo) 1) (.looking s' todo 1) := by
  have hlooking : Along c m tokens (.looking s (t :: todo) 1) := .taken htokens hrun
  cases hstep with
  | idles hphase =>
    refine .single hlooking ?_
    rw [next_looking hend, look, hphase]
    rfl
  | opens hphase hcode hpeek =>
    refine .single hlooking ?_
    simp [next_looking hend, look, hphase, hcode, hpeek, Except.map]
  | passes hphase hleft hin =>
    refine .single hlooking ?_
    have hnot : (t.code && decide (t.column > s.blocks.peek)) = false := by
      simpa using hleft
    simp [next_looking hend, look, hphase, hnot, hin, Except.map]
  | @givesUp opener hphase hcode hleft hin =>
    have hnot : (t.code && decide (t.column > s.blocks.peek)) = false := by
      simpa using fun _ => hleft
    -- the first turn gives up, and in the second no opener waits
    have hnext : next c m (.looking s (t :: todo) 1) =
        .ok (.going (.looking (s.abandon opener) (t :: todo) 2)) := by
      simp [next_looking hend, look, hphase, hnot, hin, hleft, Except.map]
    refine .cons hlooking hnext ?_
    refine leads_proceed hend rfl hin (fun _ => hcolumn hcode) (.givenUp htokens hrun hphase) ?_
    intro u later closed _ hcolumns hclosed
    exact .compared htokens hrun hcode hcolumns hclosed (Nat.le_refl 2)
  | proceeds hphase hin =>
    refine leads_proceed hend hphase hin (fun hmargin => ?_) hlooking ?_
    · exact hcolumn (code_of_inMargin (hmargin ▸ hin))
    · intro u later closed hmargin hcolumns hclosed
      exact .compared htokens hrun (code_of_inMargin (hmargin ▸ hin)) hcolumns hclosed (by decide)

theorem leads_run {xs ys rest : List Token} (htokens : tokens = xs ++ (ys ++ rest))
    (hxs : State.initial.run c m xs = .ok s) (hys : s.run c m ys = .ok s')
    (hend : ∀ t ∈ ys, t.isEnd = false) (hcolumn : ∀ t ∈ ys, t.code = true → topLevel ≤ t.column) :
    Leads c m (Along c m tokens) (.looking s (ys ++ rest) 1) (.looking s' rest 1) := by
  induction ys generalizing xs s with
  | nil =>
    cases hys
    exact .refl _
  | cons t more ih =>
    have hcons : s.run c m ([t] ++ more) = .ok s' := hys
    obtain ⟨u, hu, hmore⟩ := State.run_append_ok hcons
    have htokens' : tokens = (xs ++ [t]) ++ (more ++ rest) := by simp [htokens]
    have hxs' : State.initial.run c m (xs ++ [t]) = .ok u := by
      rw [State.run_append, hxs]
      exact hu
    rw [State.run_singleton] at hu
    have ht := leads_step htokens hxs (hend t (by simp)) (hcolumn t (by simp)) (.of_step hu)
    exact ht.trans (ih htokens' hxs' hmore (fun t ht => hend t (by simp [ht]))
      fun t ht => hcolumn t (by simp [ht]))

/-- A resolution ends where the run over the tokens before the first end does. -/
theorem leads_resolve (c : Config) {m : Margins} {tokens : List Token}
    (hcode : ∀ t ∈ tokens, t.code = true → -1 ≤ t.column ∧ m.Covers t.line) :
    ∃ x s depth, Leads c m (Along c m tokens) (.first tokens) x ∧ Along c m tokens x ∧
      x.next c m = .ok (.ended s depth) ∧
      resolve c m tokens = .ok (.ofState s tokens.length depth) := by
  obtain ⟨s, r, hrun, hresolve, hr⟩ := resolve_run c fun t ht hcodes => (hcode t ht hcodes).2
  have htokens : tokens.takeWhile (!·.isEnd) ++ tokens.dropWhile (!·.isEnd) = tokens :=
    List.takeWhile_append_dropWhile
  have hleads : Leads c m (Along c m tokens) (.first tokens)
      (.looking s (tokens.dropWhile (!·.isEnd)) 1) := by
    have hnil : State.initial.run c m [] = .ok State.initial := rfl
    have hfront := leads_run htokens.symm hnil hrun
      (fun t ht => by simpa using List.mem_takeWhile_imp ht)
      fun t ht hcodes => (hcode t ((tokens.takeWhile_sublist _).subset ht) hcodes).1
    rwa [htokens] at hfront
  have halong : Along c m tokens (.looking s (tokens.dropWhile (!·.isEnd)) 1) :=
    .taken htokens.symm hrun
  rw [List.find?_eq_head?_dropWhile_not] at hr
  cases hrest : tokens.dropWhile (!·.isEnd) with
  | nil =>
    rw [hrest] at hr hleads halong
    obtain ⟨_, rfl⟩ | ⟨_, hnone, _⟩ := hr
    · exact ⟨_, s, 0, hleads, halong, rfl, hresolve⟩
    · contradiction
  | cons atEnd rest =>
    rw [hrest] at hr hleads halong
    obtain ⟨hnone, _⟩ | ⟨_, hsome, rfl⟩ := hr
    · contradiction
    · cases hsome
      have hend : atEnd.isEnd = true := by
        have := List.head?_dropWhile_not (!·.isEnd) tokens
        rw [hrest] at this
        simpa using this
      exact ⟨_, _, _, hleads, halong, by rw [next, if_pos hend], hresolve⟩

end Moment

/-- The resolution of the tokens ends without a fault, with the answer of `resolve`, and looks at no
token more than twice. -/
structure Terminates (c : Config) (m : Margins) (tokens : List Token) : Prop where
  ends : ∃ n s depth, (Moment.first tokens).after c m n = .ok (.ended s depth) ∧
    resolve c m tokens = .ok (.ofState s tokens.length depth)
  twice : ∀ n x, (Moment.first tokens).after c m n = .ok (.going x) → x.turn ≤ 2

theorem terminates (c : Config) {m : Margins} {tokens : List Token}
    (hcode : ∀ t ∈ tokens, t.code = true → -1 ≤ t.column ∧ m.Covers t.line) :
    Terminates c m tokens := by
  obtain ⟨x, s, depth, hleads, hx, hnext, hresolve⟩ := Moment.leads_resolve c hcode
  obtain ⟨⟨n, hn⟩, hall⟩ := hleads.ended hx hnext
  refine ⟨⟨n, s, depth, hn, hresolve⟩, fun n x hx => ?_⟩
  cases hall n x hx with
  | taken _ _ => exact Nat.le_succ 1
  | givenUp _ _ _ => exact Nat.le_refl 2
  | compared _ _ _ _ _ hturn => exact hturn

/-- The comparison of a line with open blocks that do not lie left of the outermost one ends exactly
if the line does not lie left of it either; otherwise it goes on after any number of rounds, and has
closed a block in each. Hence the resolution of tokens whose code does not lie left of the outermost
block terminates, and so does that of all tokens placed from spans that do not run backwards. -/
theorem resolve_terminates (c : Config) :
    (∀ (anchor : Token) (column : Int) (s : State), (∀ block ∈ s.blocks.columns, -1 ≤ block) →
      ((∃ n s', s.rounds c anchor column n = .last s') ↔ -1 ≤ column) ∧
      (column < -1 → ∀ n, ∃ s', s.rounds c anchor column n = .again s' ∧
        s'.output = List.replicate n (Token.before c.closeKind anchor) ++ s.output)) ∧
    (∀ m tokens, (∀ t ∈ tokens, t.code = true → -1 ≤ t.column ∧ m.Covers t.line) →
      Terminates c m tokens) ∧
    ∀ raws bufferEnd, (∀ r ∈ raws, r.start ≤ r.stop) →
      Terminates c (place c raws bufferEnd).margins (place c raws bufferEnd).tokens := by
  refine ⟨fun anchor column s hblocks => ?_, fun m tokens => terminates c, ?_⟩
  · exact ⟨State.ends_iff hblocks, fun hcolumn => State.rounds_of_lt_topLevel c anchor hcolumn hblocks⟩
  · intro raws bufferEnd hraws
    have hcolumns := Placement.run_columns c bufferEnd 0 Margins.empty.newLine raws (Int.le_refl 0)
      hraws
    refine terminates c fun t ht _ => ⟨?_, place_covers c raws bufferEnd t ht⟩
    have := hcolumns t ht
    omega

/-- An item whose block is not indented, so that its opener gives up. -/
def unindented : List Token :=
  [⟨some (.keyword .doK), 0, 2, 0, 0, true, false⟩, ⟨some .variableId, 3, 4, 3, 0, true, false⟩,
    ⟨some .newline, 4, 5, 4, 0, false, false⟩, ⟨some (.keyword .doK), 8, 10, 3, 1, true, false⟩,
    ⟨some .newline, 10, 11, 5, 1, false, false⟩, ⟨some .variableId, 14, 15, 3, 2, true, false⟩,
    ⟨none, 15, 15, 4, 2, false, false⟩]

/-- The end of the second line of `unindented`. -/
def lineEnd : Token :=
  ⟨some .newline, 10, 11, 5, 1, false, false⟩

theorem resolve_terminates_unindented :
    (∃ n s', State.initial.rounds .haskell lineEnd (-1) n = .last s') ∧
    (∀ n, ∃ s', State.initial.rounds .haskell lineEnd (-2) n = .again s' ∧
      s'.output = List.replicate n (Token.before .virtualRightBrace lineEnd) ++ []) ∧
    Terminates .haskell ⟨#[some 0, some 3, some 3]⟩ unindented ∧
    Terminates .haskell (place .haskell [⟨none, 0, 2⟩, ⟨some .variableId, 1, 1⟩] 2).margins
      (place .haskell [⟨none, 0, 2⟩, ⟨some .variableId, 1, 1⟩] 2).tokens := by
  obtain ⟨hrounds, htokens, hplaced⟩ := resolve_terminates .haskell
  have hblocks : ∀ block ∈ State.initial.blocks.columns, -1 ≤ block := by decide
  exact ⟨(hrounds lineEnd (-1) .initial hblocks).1.mpr (by decide),
    (hrounds lineEnd (-2) .initial hblocks).2 (by decide), htokens _ unindented (by decide),
    hplaced _ 2 (by decide)⟩

end OffsideRule.Layout
