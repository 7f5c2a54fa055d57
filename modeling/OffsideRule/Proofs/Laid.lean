import Mathlib.Data.List.Nodup
import OffsideRule.Proofs.Places
import OffsideRule.Proofs.Variant

/-! Laid tokens: what the laws of layout use of the tokens of a source. All of them are real, they
lie one behind the other, and the margins tell the first code of each line. -/

namespace OffsideRule.Layout

/-- The last code token, which may be one that layout added. -/
def lastCode (tokens : List Token) : Option Token :=
  (tokens.filter (·.code)).getLast?

/-- `t` is the first code token of its line. -/
def BeginsLine (tokens : List Token) (t : Token) : Prop :=
  tokens.find? (fun u => u.code && u.line == t.line) = some t

instance (tokens : List Token) (t : Token) : Decidable (BeginsLine tokens t) :=
  inferInstanceAs (Decidable (_ = _))

theorem beginsLine_concat {tokens : List Token} {last t : Token} (hlast : last.code = false) :
    BeginsLine (tokens ++ [last]) t ↔ BeginsLine tokens t := by
  unfold BeginsLine
  rw [List.find?_append]
  simp [hlast]

/-- `a` lies on an earlier line than `b`, or left of it on the same line. -/
def Token.Before (a b : Token) : Prop :=
  a.line < b.line ∨ a.line = b.line ∧ a.column < b.column

instance : Trans Token.Before Token.Before Token.Before where
  trans := by
    intro a b c hab hbc
    simp only [Token.Before] at hab hbc ⊢
    omega

structure Laid (c : Config) (m : Margins) (tokens : List Token) : Prop where
  kinded : ∀ t ∈ tokens, t.kind ≠ none
  real : ∀ t ∈ tokens, t.virtual = false
  code : ∀ t ∈ tokens, t.code = c.isCode t.kind
  column_nonneg : ∀ t ∈ tokens, 0 ≤ t.column
  nonempty : ∀ t ∈ tokens, t.start < t.stop
  behind : tokens.Pairwise fun a b => a.stop ≤ b.start
  ordered : tokens.Pairwise Token.Before
  /-- A line is left only by its end-of-line token. -/
  lines : tokens.IsChain fun a b => b.line = a.line ∨ a.line < b.line ∧ a.kind = some c.endOfLine
  margin : ∀ t ∈ tokens, t.code = true → inMargin m t = .ok (decide (BeginsLine tokens t))

theorem Token.Next.before {c : Config} {a b : Token} (h : a.Next c b) (ha : a.start < a.stop) :
    a.Before b := by
  unfold Token.Next at h
  unfold Token.Before
  split at h <;> omega

theorem Token.Next.lines {c : Config} {a b : Token} (h : a.Next c b) :
    b.line = a.line ∨ a.line < b.line ∧ a.kind = some c.endOfLine := by
  unfold Token.Next at h
  split at h
  · next hkind => exact Or.inr ⟨by omega, hkind⟩
  · exact Or.inl h.1

/-- Where code lies before all that follows, the first code of a line is alone in its column. -/
theorem beginsLine_iff_column {tokens : List Token}
    (hordered : tokens.Pairwise fun a b => a.code = true → a.Before b)
    {t : Token} (ht : t ∈ tokens) (hcode : t.code = true) :
    (tokens.find? fun u => u.code && u.line == t.line).map (·.column) = some t.column ↔
      BeginsLine tokens t := by
  constructor
  · intro h
    obtain ⟨u, hu, hcolumn⟩ := Option.map_eq_some_iff.mp h
    obtain ⟨hp, front, back, rfl, hnone⟩ := List.find?_eq_some_iff_append.mp hu
    simp only [Bool.and_eq_true, beq_iff_eq] at hp
    have hfront : t ∉ front := fun hmem => by simpa [hcode] using hnone t hmem
    rcases List.mem_append.mp ht with hmem | hmem
    · exact absurd hmem hfront
    · rcases List.mem_cons.mp hmem with rfl | hmem
      · exact hu
      · have hbefore :=
          (List.pairwise_cons.mp (List.pairwise_append.mp hordered).2.1).1 t hmem hp.1
        unfold Token.Before at hbefore
        omega
  · intro h
    rw [show tokens.find? _ = some t from h]
    rfl

section Order

variable {c : Config} {front back front' back' : List Token} {a b e : Token}

/-- Tokens that lie one behind the other can be split in one way at a given place. -/
theorem split_unique (h : (front ++ a :: back).Pairwise Token.Before)
    (hsplit : front ++ a :: back = front' ++ b :: back') (hline : a.line = b.line)
    (hcolumn : a.column = b.column) : front = front' ∧ a = b ∧ back = back' := by
  obtain ⟨-, hback, hfront⟩ := List.pairwise_append.mp h
  refine (List.append_cons_inj_of_notMem (fun hmem => ?_) fun hmem => ?_).mp hsplit
  · have hbefore := hfront b hmem a (by simp)
    unfold Token.Before at hbefore
    omega
  · have hbefore := (List.pairwise_cons.mp hback).1 b hmem
    unfold Token.Before at hbefore
    omega

/-- What comes behind an end of line lies on later lines. -/
theorem line_lt_of_next (h : (e :: back).Pairwise Token.Before)
    (hnext : (e :: back).IsChain (Token.Next c)) (hend : e.kind = some c.endOfLine) :
    ∀ u ∈ back, e.line < u.line := by
  cases back with
  | nil => simp
  | cons v more =>
    have hv : v.line = e.line + 1 := by
      have hfirst := (List.isChain_cons_cons.mp hnext).1
      rw [Token.Next, if_pos hend] at hfirst
      exact hfirst.1
    intro u hu
    rcases List.mem_cons.mp hu with rfl | hu
    · omega
    · have hbefore := (List.pairwise_cons.mp (List.pairwise_cons.mp h).2).1 u hu
      unfold Token.Before at hbefore
      omega

end Order

theorem laid_place (c : Config) {raws : List Raw} (h : Ordered raws) (bufferEnd : Int) :
    ∃ body atEnd, (place c raws bufferEnd).tokens = body ++ [atEnd] ∧
      Laid c (place c raws bufferEnd).margins body ∧
      atEnd.kind = none ∧ atEnd.code = false ∧ atEnd.virtual = false := by
  obtain ⟨body, atEnd, htokens, hraw, hbody, hend⟩ :=
    Placement.run_tokens c bufferEnd 0 Margins.empty.newLine raws
  rw [← place] at htokens
  have hnext : body.IsChain (Token.Next c) := by
    have := Placement.run_next c bufferEnd 0 Margins.empty.newLine raws
    rw [← place, htokens] at this
    exact this.left_of_append
  have hcolumns := Placement.run_columns c bufferEnd 0 Margins.empty.newLine raws (Int.le_refl 0)
    fun r hr => Int.le_of_lt (h.nonempty r hr)
  rw [← place, htokens] at hcolumns
  have hmem : ∀ t ∈ body, t.raw ∈ raws := fun t ht => hraw ▸ List.mem_map_of_mem ht
  have hnonempty : ∀ t ∈ body, t.start < t.stop := fun t ht => h.nonempty t.raw (hmem t ht)
  have hordered : body.Pairwise Token.Before :=
    (hnext.imp_of_mem_imp fun a b ha _ hab => hab.before (hnonempty a ha)).pairwise
  refine ⟨body, atEnd, htokens, ?_, hend⟩
  refine
    { kinded := fun t ht => h.kinded t.raw (hmem t ht)
      real := fun t ht => (hbody t ht).2
      code := fun t ht => (hbody t ht).1
      column_nonneg := fun t ht => hcolumns t (by simp [ht])
      nonempty := hnonempty
      behind := List.pairwise_map.mp (hraw ▸ h.behind)
      ordered := hordered
      lines := hnext.imp fun _ _ => Token.Next.lines
      margin := ?_ }
  intro t ht hcode
  have hmargin := margin_place c raws bufferEnd (t := t) (by simp [htokens, ht])
  -- the end of the input is no code, so it changes no margin
  have hfind : (body ++ [atEnd]).find? (fun u => u.code && u.line == t.line) =
      body.find? fun u => u.code && u.line == t.line := by
    rw [List.find?_append]
    simp [hend.2.1]
  rw [htokens, hfind] at hmargin
  rw [inMargin, if_pos hcode, hmargin, Except.map, Except.ok.injEq, Bool.eq_iff_iff, beq_iff_eq,
    decide_eq_true_iff]
  have hcodes : body.Pairwise fun a b => a.code = true → a.Before b := by
    apply hordered.imp
    intro a b hbefore _
    exact hbefore
  exact beginsLine_iff_column hcodes ht hcode

namespace Laid

variable {c : Config} {m : Margins} {xs ys tokens : List Token} {t : Token}

theorem starts (h : Laid c m tokens) : tokens.Pairwise fun a b => a.start < b.start := by
  apply h.behind.imp_of_mem
  intro a b ha _ hbehind
  have := h.nonempty a ha
  omega

theorem eq_of_start (h : Laid c m tokens) {a b : Token} (ha : a ∈ tokens) (hb : b ∈ tokens)
    (hstart : a.start = b.start) : a = b := by
  have hnodup : (tokens.map Token.start).Nodup :=
    (List.pairwise_map.mpr h.starts).imp fun hab => Int.ne_of_lt hab
  exact List.inj_on_of_nodup_map hnodup ha hb hstart

/-- The end of the input lies behind all other tokens. -/
theorem ordered_concat {atEnd : Token} (h : Laid c m tokens)
    (hnext : (tokens ++ [atEnd]).IsChain (Token.Next c)) : (tokens ++ [atEnd]).Pairwise Token.Before := by
  have hchain : (tokens ++ [atEnd]).IsChain Token.Before := by
    rw [List.isChain_append] at hnext ⊢
    refine ⟨h.ordered.isChain, List.isChain_singleton _, fun u hu v hv => ?_⟩
    exact (hnext.2.2 u hu v hv).before (h.nonempty u (List.mem_of_getLast? hu))
  exact hchain.pairwise

theorem beginsLine_iff (h : Laid c m (xs ++ t :: ys)) (hcode : t.code = true) :
    BeginsLine (xs ++ t :: ys) t ↔ ∀ u ∈ xs, u.code = true → u.line ≠ t.line := by
  have hbefore := (List.pairwise_append.mp h.ordered).2.2
  unfold BeginsLine
  rw [List.find?_append]
  constructor
  · intro hfind u hu hcode' hline
    cases hxs : xs.find? fun u => u.code && u.line == t.line with
    | none => simpa [hcode', hline] using List.find?_eq_none.mp hxs u hu
    | some v =>
      rw [hxs, Option.some_or, Option.some.injEq] at hfind
      subst hfind
      have := hbefore v (List.mem_of_find?_eq_some hxs) v (by simp)
      unfold Token.Before at this
      omega
  · intro hnone
    have hxs : xs.find? (fun u => u.code && u.line == t.line) = none := by
      apply List.find?_eq_none.mpr
      intro u hu
      have := hnone u hu
      simp_all
    rw [hxs, Option.none_or, List.find?_cons_of_pos (by simp [hcode])]

/-- A code token that does not begin its line stands right of the code token before it. -/
theorem lastCode_of_not_beginsLine (h : Laid c m (xs ++ t :: ys)) (hcode : t.code = true)
    (hnot : ¬ BeginsLine (xs ++ t :: ys) t) :
    ∃ u, lastCode xs = some u ∧ u.line = t.line ∧ u.column < t.column := by
  rw [h.beginsLine_iff hcode] at hnot
  push Not at hnot
  obtain ⟨v, hv, hvcode, hvline⟩ := hnot
  have hv : v ∈ xs.filter (·.code) := List.mem_filter.mpr ⟨hv, hvcode⟩
  obtain ⟨u, hu⟩ : ∃ u, lastCode xs = some u := by
    cases hlast : lastCode xs with
    | none => simp [List.getLast?_eq_none_iff.mp hlast] at hv
    | some u => exact ⟨u, rfl⟩
  obtain ⟨front, hfront⟩ := List.getLast?_eq_some_iff.mp hu
  have humem : u ∈ xs := List.mem_of_mem_filter (hfront ▸ List.mem_append_right front (by simp))
  have hut : u.Before t := (List.pairwise_append.mp h.ordered).2.2 u humem t (by simp)
  have hvu : v = u ∨ v.Before u := by
    have hpair := (List.pairwise_append.mp h.ordered).1.filter (·.code)
    rw [hfront] at hv hpair
    rcases List.mem_append.mp hv with hv | hv
    · exact Or.inr ((List.pairwise_append.mp hpair).2.2 v hv u (by simp))
    · exact Or.inl (List.mem_singleton.mp hv)
  refine ⟨u, hu, ?_⟩
  unfold Token.Before at hut hvu
  rcases hvu with rfl | hvu <;> omega

end Laid

end OffsideRule.Layout
