import Mathlib.Algebra.Ring.Int.Defs
import Mathlib.Data.List.DropRight
import OffsideRule.Proofs.Laid

/-! Placement of raw tokens of any kinds and offsets. Each becomes a token of its own, on the line
that the ends of lines before it tell and in the column that the widths since the last of them tell,
and the margins are a table of the first code of each line. Where no span runs backwards and code is
not empty, code stands in the margin of its line exactly if it is the first code there. -/

namespace OffsideRule.Layout

/-- Number of the line behind `before`: one for each end of line. -/
def lineOf (c : Config) (before : List Raw) : Nat :=
  before.countP (·.kind = some c.endOfLine)

/-- Column behind `before`: the widths since the last end of line. -/
def columnOf (c : Config) (before : List Raw) : Int :=
  ((before.rtakeWhile (·.kind ≠ some c.endOfLine)).map fun r => r.stop - r.start).sum

/-- `t` is the raw token `r`, placed behind those of `before`. -/
structure StandsBehind (c : Config) (before : List Raw) (r : Raw) (t : Token) : Prop where
  raw_eq : t.raw = r
  line_eq : t.line = lineOf c before
  column_eq : t.column = columnOf c before
  code_iff : t.code = true ↔ ∃ kind, r.kind = some kind ∧ kind ∉ c.nonCode
  real : t.virtual = false

theorem Config.isCode_iff (c : Config) (kind : Option Kind) :
    c.isCode kind = true ↔ ∃ k, kind = some k ∧ k ∉ c.nonCode := by
  cases kind <;> simp [isCode]

section Counts

variable {c : Config} {r : Raw}

theorem lineOf_concat (before : List Raw) :
    lineOf c (before ++ [r]) =
      if r.kind = some c.endOfLine then lineOf c before + 1 else lineOf c before := by
  rw [lineOf, List.countP_append, List.countP_singleton, ← lineOf]
  split <;> simp_all

theorem columnOf_concat (before : List Raw) :
    columnOf c (before ++ [r]) =
      if r.kind = some c.endOfLine then 0 else columnOf c before + (r.stop - r.start) := by
  by_cases hend : r.kind = some c.endOfLine
  · rw [if_pos hend, columnOf, List.rtakeWhile_concat_neg _ _ _ (by simp [hend])]
    rfl
  · rw [if_neg hend, columnOf, List.rtakeWhile_concat_pos _ _ _ (by simp [hend]), List.map_append,
      List.sum_append, ← columnOf, List.map_singleton, List.sum_singleton]

end Counts

namespace Placement

variable {c : Config} {before : List Raw} {m : Margins}

/-- Each raw token, and the end of the input behind them, is placed by what comes before it. -/
theorem run_stands (bufferEnd : Int) (hline : m.lastLine = lineOf c before) (raws : List Raw) :
    ∀ front r back, raws ++ [⟨none, bufferEnd, bufferEnd⟩] = front ++ r :: back →
      ∃ t, (run c bufferEnd (columnOf c before) m raws).tokens[front.length]? = some t ∧
        StandsBehind c (before ++ front) r t := by
  induction raws generalizing before m with
  | nil =>
    intro front r back hsplit
    cases front with
    | nil =>
      obtain ⟨rfl, -⟩ := List.cons_eq_cons.mp hsplit
      rw [List.append_nil]
      exact ⟨_, rfl, rfl, hline, rfl, by simp, rfl⟩
    | cons q front => simp at hsplit
  | cons q more ih =>
    intro front r back hsplit
    rw [run_cons]
    cases front with
    | nil =>
      obtain ⟨rfl, -⟩ := List.cons_eq_cons.mp hsplit
      rw [List.append_nil]
      exact ⟨_, rfl, rfl, hline, rfl, c.isCode_iff q.kind, rfl⟩
    | cons p front =>
      obtain ⟨rfl, hrest⟩ := List.cons_eq_cons.mp hsplit
      -- what is counted behind `q` is what placement goes on with
      have hbehind : (marginsBehind c (columnOf c before) m q).lastLine =
          lineOf c (before ++ [q]) := by
        rw [lastLine_marginsBehind, lineOf_concat, hline]
        split <;> simp
      obtain ⟨t, ht, hstands⟩ := ih hbehind front r back hrest
      rw [columnOf_concat, ← columnBehind] at ht
      rw [List.append_assoc, List.singleton_append] at hstands
      exact ⟨t, ht, hstands⟩

theorem run_size (c : Config) (bufferEnd column : Int) (m : Margins) (raws : List Raw) :
    (run c bufferEnd column m raws).margins.columns.size =
      m.columns.size + lineOf c raws := by
  induction raws generalizing column m with
  | nil => rfl
  | cons r more ih =>
    have hsize := size_noteCode m (c.isCode r.kind) column
    rw [run_cons, lineOf, List.countP_cons, ← lineOf]
    simp only
    rw [ih, marginsBehind]
    by_cases hend : r.kind = some c.endOfLine
    · rw [if_pos hend, Margins.size_newLine, hsize, if_pos (by simpa using hend)]
      omega
    · rw [if_neg hend, hsize, if_neg (by simpa using hend), Nat.add_zero]

end Placement

section Table

variable (c : Config) (raws : List Raw) (bufferEnd : Int)

theorem size_place :
    (place c raws bufferEnd).margins.columns.size = lineOf c raws + 1 := by
  rw [place, Placement.run_size, Nat.add_comm]
  rfl

/-- The entry of a line is the column of the first code on it. -/
theorem columns_place {l : Nat} (hl : l < (place c raws bufferEnd).margins.columns.size) :
    (place c raws bufferEnd).margins.columns[l]? =
      some (((place c raws bufferEnd).tokens.find? fun t => t.code && t.line == (l : Int)).map
        (·.column)) := by
  have hjoin := Placement.run_margins c bufferEnd 0 Margins.empty.newLine raws (by decide) l
  have hempty : Margins.empty.newLine.columns[l]?.join = none := Margins.join_newLine _ _
  rw [hempty, Option.none_or, ← place, Array.getElem?_eq_getElem hl, Option.join_some] at hjoin
  rw [Array.getElem?_eq_getElem hl, hjoin]

/-- The lines of the placed tokens are numbers of entries. -/
theorem line_place {t : Token} (ht : t ∈ (place c raws bufferEnd).tokens) :
    0 ≤ t.line ∧ t.line < (place c raws bufferEnd).margins.columns.size :=
  ⟨Placement.run_lines c bufferEnd 0 Margins.empty.newLine raws t ht,
    (place_covers c raws bufferEnd t ht).2⟩

end Table

/-- `b` does not lie left of `a` on the line of `a` or on an earlier line, and if `a` is code, `b`
lies behind it. -/
def Token.Upto (a b : Token) : Prop :=
  (a.line < b.line ∨ a.line = b.line ∧ a.column ≤ b.column) ∧ (a.code = true → a.Before b)

instance : Trans Token.Upto Token.Upto Token.Upto where
  trans := by
    rintro a b c ⟨hab, hcode⟩ ⟨hbc, -⟩
    refine ⟨by omega, fun ha => ?_⟩
    have := hcode ha
    unfold Token.Before at this ⊢
    omega

theorem Token.Next.upto {c : Config} {a b : Token} (h : a.Next c b) (hspan : a.start ≤ a.stop)
    (hcode : a.code = true → a.start < a.stop) : a.Upto b := by
  refine ⟨?_, fun ha => h.before (hcode ha)⟩
  unfold Token.Next at h
  split at h <;> omega

/-- Code lies before all that is placed behind it. -/
theorem before_place (c : Config) {raws : List Raw} (bufferEnd : Int)
    (hspan : ∀ r ∈ raws, r.start ≤ r.stop)
    (hcode : ∀ r ∈ raws, c.isCode r.kind = true → r.start < r.stop) :
    (place c raws bufferEnd).tokens.Pairwise fun a b => a.code = true → a.Before b := by
  obtain ⟨body, atEnd, htokens, hraw, hbody, -⟩ :=
    Placement.run_tokens c bufferEnd 0 Margins.empty.newLine raws
  have hnext := Placement.run_next c bufferEnd 0 Margins.empty.newLine raws
  rw [place, htokens]
  rw [htokens, List.isChain_append] at hnext
  obtain ⟨hinner, -, hlast⟩ := hnext
  have hupto (a : Token) (ha : a ∈ body) (b : Token) (hab : a.Next c b) : a.Upto b := by
    have hmem : a.raw ∈ raws := hraw ▸ List.mem_map_of_mem ha
    apply hab.upto (hspan a.raw hmem)
    intro hacode
    rw [(hbody a ha).1] at hacode
    exact hcode a.raw hmem hacode
  have hchain : (body ++ [atEnd]).IsChain Token.Upto := by
    apply List.isChain_append.mpr
    refine ⟨?_, List.isChain_singleton _, fun a ha b hb => ?_⟩
    · exact hinner.imp_of_mem_imp fun a b ha _ hab => hupto a ha b hab
    · exact hupto a (List.mem_of_getLast? ha) b (hlast a ha b hb)
  exact hchain.pairwise.imp fun h => h.2

/-- Raw tokens of any kinds and offsets are placed one by one, and behind them the end of the
input. The table of margins has an entry for each end of line and one more, which is the column of
the first code on its line, if there is one, and the line of each token is the number of an entry.
Where no span runs backwards and code is not empty, the column of some code is the entry of its line
exactly if it is the first code there. -/
theorem place_tabulates (c : Config) (raws : List Raw) (bufferEnd : Int) :
    let p := place c raws bufferEnd
    p.tokens.length = raws.length + 1 ∧
    (∀ before r after, raws ++ [⟨none, bufferEnd, bufferEnd⟩] = before ++ r :: after →
      ∃ t, p.tokens[before.length]? = some t ∧ StandsBehind c before r t) ∧
    p.margins.columns.size = lineOf c raws + 1 ∧
    (∀ l < p.margins.columns.size, p.margins.columns[l]? =
      some ((p.tokens.find? fun t => t.code && t.line == (l : Int)).map (·.column))) ∧
    (∀ t ∈ p.tokens, 0 ≤ t.line ∧ t.line < p.margins.columns.size) ∧
    ((∀ r ∈ raws, r.start ≤ r.stop) → (∀ r ∈ raws, c.isCode r.kind = true → r.start < r.stop) →
      ∀ t ∈ p.tokens, t.code = true →
        (p.margins.margin t.line = .ok (some t.column) ↔ BeginsLine p.tokens t)) := by
  intro p
  refine ⟨?_, ?_, size_place c raws bufferEnd, fun l => columns_place c raws bufferEnd,
    fun t => line_place c raws bufferEnd, ?_⟩
  · have hlength := congrArg List.length
      (Placement.run_raws c bufferEnd 0 Margins.empty.newLine raws)
    rwa [List.length_map, List.length_append, List.length_singleton] at hlength
  · have hstart : Margins.empty.newLine.lastLine = lineOf c [] := rfl
    exact Placement.run_stands bufferEnd hstart raws
  · intro hspan hcode t ht htcode
    rw [margin_place c raws bufferEnd ht, Except.ok.injEq]
    exact beginsLine_iff_column (before_place c bufferEnd hspan hcode) ht htcode

/-- A configuration for which ends of lines are code. -/
def codedEnds : Config :=
  { Config.haskell with nonCode := [.blank] }

/-- Spans in no order, a token without a kind among them, and a line that begins with a blank. -/
def ragged : List Raw :=
  [⟨some .integer, 8, 9⟩, ⟨none, 30, 34⟩, ⟨some .newline, 2, 3⟩, ⟨some .blank, 5, 5⟩,
    ⟨some .variableId, 0, 2⟩, ⟨some .variableId, 0, 2⟩]

/-- Of the two names on the second line the first one stands in the margin. -/
theorem place_tabulates_ragged :
    (∀ r ∈ ragged, r.start ≤ r.stop) ∧
    (∀ r ∈ ragged, codedEnds.isCode r.kind = true → r.start < r.stop) ∧
    (∃ t, (place codedEnds ragged 7).tokens[5]? = some t ∧
      StandsBehind codedEnds (ragged.take 5) ⟨some .variableId, 0, 2⟩ t) ∧
    ∀ t ∈ (place codedEnds ragged 7).tokens, t.code = true →
      ((place codedEnds ragged 7).margins.margin t.line = .ok (some t.column) ↔
        BeginsLine (place codedEnds ragged 7).tokens t) := by
  have hspan : ∀ r ∈ ragged, r.start ≤ r.stop := by decide
  have hcode : ∀ r ∈ ragged, codedEnds.isCode r.kind = true → r.start < r.stop := by decide
  obtain ⟨-, hstands, -, -, -, hmargin⟩ := place_tabulates codedEnds ragged 7
  exact ⟨hspan, hcode, hstands (ragged.take 5) _ _ rfl, hmargin hspan hcode⟩

example : lineOf codedEnds (ragged.take 5) = 1 ∧ columnOf codedEnds (ragged.take 5) = 2 := by
  decide

end OffsideRule.Layout
