import OffsideRule.Proofs.Sources

/-! The look back. A token that follows no waiting opener looks back through the output, once the
delimiters of its line have been added there. On the tokens of a source it finds what was read: the
word that began a binding stands in the output exactly if it was read earlier on the same line. -/

namespace OffsideRule.Layout

/-- What the look back from `t` answers: `t` ends a binding, and the newest output down to the first
token of another line has the word that began one. -/
def State.findsLet (c : Config) (s : State) (t : Token) : Bool :=
  t.kind == some c.inKind && kindOnLine c.letKind t.line s.output

/-- A block inside the outermost one is closed if the look back finds where the binding began. -/
theorem State.closeLet_emit_output (c : Config) (s : State) (t : Token) :
    ((s.closeLet c t).emit t).output =
      t :: if s.findsLet c t && s.blocks.peek > topLevel then .before c.closeKind t :: s.output
        else s.output := by
  rw [emit_output, closeLet_output]
  rfl

/-- The run that takes `t` in the state `s` looks back from `t` in the state `u`. -/
inductive LooksBack (c : Config) (m : Margins) (s : State) (t : Token) : State → Prop
  | givesUp {opener : Token} : s.phase = .awaiting opener → t.code = true →
      t.column ≤ s.blocks.peek → inMargin m t = .ok true →
      LooksBack c m s t ((s.abandon opener).started c t true)
  | proceeds {atMargin : Bool} : s.phase = .running → inMargin m t = .ok atMargin →
      LooksBack c m s t (s.started c t atMargin)

section Steps

variable {c : Config} {m : Margins} {s s' u : State} {xs ys : List Token} {t : Token}

theorem LooksBack.step (h : LooksBack c m s t u) :
    s.step c m t = .ok ((u.closeLet c t).emit t) := by
  cases h with
  | @givesUp opener hphase _ hleft hin =>
    have hnot : (t.code && decide (t.column > s.blocks.peek)) = false := by
      simp only [Bool.and_eq_false_iff, decide_eq_false_iff_not]
      omega
    rw [State.step, hphase]
    simp only [hnot, hin]
    exact State.follow_eq c _ hin
  | proceeds hphase hin =>
    rw [State.step, hphase]
    exact State.follow_eq c s hin

/-- A step that does not look back copies its token, and opens a block before it at most. -/
theorem Step.looksBack (h : Step c m s t s') :
    (∃ u, LooksBack c m s t u) ∨
      s' = (s.await c t).emit t ∨ s' = s.openBlock c t ∨ s' = s.emit t := by
  cases h with
  | idles _ => exact .inr (.inl rfl)
  | opens _ _ _ => exact .inr (.inr (.inl rfl))
  | passes _ _ _ => exact .inr (.inr (.inr rfl))
  | givesUp hphase hcode hleft hin => exact .inl ⟨_, .givesUp hphase hcode hleft hin⟩
  | proceeds hphase hin => exact .inl ⟨_, .proceeds hphase hin⟩

/-- Behind laid tokens the look back is exact. -/
theorem LooksBack.findsLet_iff (hc : c.Regular) (hlaid : Laid c m (xs ++ t :: ys))
    (hs : Lined c xs s) (h : LooksBack c m s t u) :
    u.findsLet c t = true ↔ t.kind = some c.inKind ∧
      ∃ k ∈ xs, k.virtual = false ∧ k.kind = some c.letKind ∧ k.line = t.line := by
  have hfound : kindOnLine c.letKind t.line u.output = true ↔
      ∃ k ∈ xs, k.kind = some c.letKind ∧ k.line = t.line := by
    cases h with
    | givesUp _ _ _ _ => exact (hs.abandon _).letOnLine_iff hc hlaid true
    | proceeds _ _ => exact hs.letOnLine_iff hc hlaid _
  rw [State.findsLet, Bool.and_eq_true, beq_iff_eq, hfound]
  have hreal : ∀ k ∈ xs, k.virtual = false := fun k hk => hlaid.real k (List.mem_append_left _ hk)
  apply and_congr_right
  intro _
  constructor
  · rintro ⟨k, hk, hlet⟩
    exact ⟨k, hk, hreal k hk, hlet⟩
  · rintro ⟨k, hk, -, hlet⟩
    exact ⟨k, hk, hlet⟩

end Steps

section Source

/-- The margins of a source, by which layout tells the first code of each line. -/
def marginsOf (c : Config) (source : Text) (tokens : List OffsideRule.Token) : Margins :=
  (place c (rawTokens tokens) source.length).margins

/-- The tokens of a source are laid up to each of them but the end. -/
theorem exists_laid (c : Config) {source : Text} {tokens : List OffsideRule.Token}
    (h : tokenize source = .ok tokens) {xs ys : List Token} {t : Token}
    (hsplit : placed c source tokens = xs ++ t :: ys) (ht : t.isEnd = false) :
    ∃ front, Laid c (marginsOf c source tokens) (xs ++ t :: front) := by
  obtain ⟨body, atEnd, htokens, hlaid, hend, -⟩ :=
    laid_place c (ordered_rawTokens h) source.length
  rw [← placed, hsplit] at htokens
  rcases List.eq_nil_or_concat ys with rfl | ⟨front, last, rfl⟩
  · obtain ⟨-, heq⟩ := List.append_inj' htokens rfl
    cases heq
    simp [Token.isEnd, hend] at ht
  · rw [List.concat_eq_append, ← List.cons_append, ← List.append_assoc] at htokens
    obtain ⟨rfl, -⟩ := List.append_inj' htokens rfl
    exact ⟨front, hlaid⟩

/-- When a run over a source looks back from a token, it finds the word that began a binding exactly
if this word was read before on the same line. -/
theorem run_looksBack {c : Config} (hc : c.Variant) {source : Text}
    {tokens : List OffsideRule.Token} (h : tokenize source = .ok tokens) {xs ys : List Token}
    {t : Token} (hsplit : placed c source tokens = xs ++ t :: ys) (ht : t.isEnd = false) :
    ∃ s s', State.initial.run c (marginsOf c source tokens) xs = .ok s ∧
      s.step c (marginsOf c source tokens) t = .ok s' ∧
      (∀ u, LooksBack c (marginsOf c source tokens) s t u →
        s' = (u.closeLet c t).emit t ∧
          (s'.output =
            t :: if u.findsLet c t && u.blocks.peek > topLevel then
              .before c.closeKind t :: u.output else u.output) ∧
          (u.findsLet c t = true ↔ t.kind = some (.keyword .inK) ∧
            ∃ k ∈ xs, k.virtual = false ∧ k.kind = some (.keyword .letK) ∧ k.line = t.line)) ∧
      ((∀ u, ¬ LooksBack c (marginsOf c source tokens) s t u) →
        s' = (s.await c t).emit t ∨ s' = s.openBlock c t ∨ s' = s.emit t) := by
  obtain ⟨front, hlaid⟩ := exists_laid c h hsplit ht
  have hcovers : ∀ u ∈ xs ++ t :: ys, (marginsOf c source tokens).Covers u.line := by
    rw [← hsplit]
    exact place_covers c (rawTokens tokens) source.length
  obtain ⟨s, hrun⟩ := State.initial.run_of_covers c
    fun u hu _ => hcovers u (List.mem_append_left _ hu)
  obtain ⟨s', hstep⟩ := s.step_of_covers c fun _ => hcovers t (by simp)
  have hs : Consistent c xs s := Consistent.run hc.regular hlaid hrun
  have htaken (u : State) (hu : LooksBack c (marginsOf c source tokens) s t u) :
      s' = (u.closeLet c t).emit t :=
    Except.ok.inj (hstep.symm.trans hu.step)
  refine ⟨s, s', hrun, hstep, fun u hu => ⟨htaken u hu, ?_, ?_⟩, fun hnone => ?_⟩
  · rw [htaken u hu, State.closeLet_emit_output]
  · obtain ⟨-, hlet, hin⟩ := hc.kinds
    rw [← hlet, ← hin]
    exact hu.findsLet_iff hc.regular hlaid hs.lined
  · rcases (Step.of_step hstep).looksBack with ⟨u, hu⟩ | hplain
    · exact absurd hu (hnone u)
    · exact hplain

/-- A binding that ends on the line below the one it began on, and one that ends on its own line. -/
def twoLets : Text :=
  "let x = 1\n in let y = x in y".toList

/-- The look back of the first ending stops at the end of the line before; that of the second finds
its binding. -/
theorem run_looksBack_twoLets :
    let tokens := (Pass.run (.start twoLets)).tokens
    let below : Token := ⟨some (.keyword .inK), 11, 13, 1, 1, true, false⟩
    let beside : Token := ⟨some (.keyword .inK), 24, 26, 14, 1, true, false⟩
    tokenize twoLets = .ok tokens ∧
      (∃ s u, LooksBack .haskell (marginsOf .haskell twoLets tokens) s below u ∧
        u.findsLet .haskell below = false) ∧
      ∃ s u, LooksBack .haskell (marginsOf .haskell twoLets tokens) s beside u ∧
        u.findsLet .haskell beside = true := by
  intro tokens below beside
  have h : tokenize twoLets = .ok tokens := tokenize_of_problem (by decide +kernel)
  have running {s : State} {xs : List Token}
      (hrun : State.initial.run .haskell (marginsOf .haskell twoLets tokens) xs = .ok s)
      (hphase : (State.initial.run .haskell (marginsOf .haskell twoLets tokens) xs).map
        State.phase = .ok .running) : s.phase = .running := by
    rw [hrun, Except.map, Except.ok.injEq] at hphase
    exact hphase
  refine ⟨h, ?_, ?_⟩
  · have hsplit : placed .haskell twoLets tokens = (placed .haskell twoLets tokens).take 9 ++
        below :: (placed .haskell twoLets tokens).drop 10 := by
      decide +kernel
    obtain ⟨s, s', hrun, -, hlook, -⟩ := run_looksBack .haskell h hsplit rfl
    have hin : inMargin (marginsOf .haskell twoLets tokens) below = .ok true := by decide +kernel
    have hu := LooksBack.proceeds (c := .haskell) (running hrun (by decide +kernel)) hin
    refine ⟨s, _, hu, ?_⟩
    rw [← Bool.not_eq_true, (hlook _ hu).2.2]
    decide +kernel
  · have hsplit : placed .haskell twoLets tokens = (placed .haskell twoLets tokens).take 19 ++
        beside :: (placed .haskell twoLets tokens).drop 20 := by
      decide +kernel
    obtain ⟨s, s', hrun, -, hlook, -⟩ := run_looksBack .haskell h hsplit rfl
    have hin : inMargin (marginsOf .haskell twoLets tokens) beside = .ok false := by decide +kernel
    have hu := LooksBack.proceeds (c := .haskell) (running hrun (by decide +kernel)) hin
    refine ⟨s, _, hu, (hlook _ hu).2.2.mpr ?_⟩
    decide +kernel

end Source

end OffsideRule.Layout
