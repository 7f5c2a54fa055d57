import Mathlib.Data.List.Chain
import OffsideRule.Proofs.Spans

/-! Where placed tokens stand. Placement numbers lines by their end-of-line tokens and counts
columns by the widths of the spans, and the margin of a line is the column of the first code token
placed on it. Nonempty spans in order give `Laid` tokens: these lie one behind the other, line by
line, and a code token is in the margin of its line exactly if it is the first code there. -/

namespace OffsideRule.Layout

/-- The span and kind a placed token was made from. -/
def Token.raw (t : Token) : Raw :=
  ⟨t.kind, t.start, t.stop⟩

namespace Margins

theorem lastLine_newLine (m : Margins) : m.newLine.lastLine = m.lastLine + 1 := by
  simp only [lastLine, size_newLine]
  omega

theorem join_newLine (m : Margins) (l : Nat) :
    m.newLine.columns[l]?.join = m.columns[l]?.join := by
  simp only [newLine, Array.getElem?_push]
  split
  · next h => simp [h]
  · rfl

theorem join_note (m : Margins) (column : Int) (l : Nat) (hm : 0 < m.columns.size) :
    (m.note column).columns[l]?.join =
      m.columns[l]?.join.or (if (l : Int) = m.lastLine then some column else none) := by
  simp only [note, noteAt, Array.getElem?_modify]
  have hline : m.lastLine = m.columns.size - 1 := rfl
  by_cases h : m.columns.size - 1 = l
  · have hl : (l : Int) = m.lastLine := by omega
    rw [if_pos h, if_pos hl, Array.getElem?_eq_getElem (by omega)]
    cases m.columns[l] <;> rfl
  · have hl : ¬ (l : Int) = m.lastLine := by omega
    rw [if_neg h, if_neg hl, Option.or_none]

end Margins

namespace Placement

theorem lastLine_noteCode (m : Margins) (code : Bool) (column : Int) :
    (noteCode m code column).lastLine = m.lastLine := by
  rw [Margins.lastLine, size_noteCode, Margins.lastLine]

/-- Column behind a raw token. -/
def columnBehind (c : Config) (column : Int) (r : Raw) : Int :=
  if r.kind = some c.endOfLine then 0 else column + (r.stop - r.start)

/-- Margins behind a raw token. -/
def marginsBehind (c : Config) (column : Int) (m : Margins) (r : Raw) : Margins :=
  if r.kind = some c.endOfLine then (noteCode m (c.isCode r.kind) column).newLine
  else noteCode m (c.isCode r.kind) column

theorem run_cons (c : Config) (bufferEnd column : Int) (m : Margins) (r : Raw) (more : List Raw) :
    run c bufferEnd column m (r :: more) =
      let later := run c bufferEnd (columnBehind c column r) (marginsBehind c column m r) more
      ⟨⟨r.kind, r.start, r.stop, column, m.lastLine, c.isCode r.kind, false⟩ :: later.tokens,
        later.margins⟩ := by
  rw [run]
  unfold columnBehind marginsBehind
  by_cases h : r.kind = some c.endOfLine <;> simp only [h, if_true, if_false]

theorem size_marginsBehind (c : Config) (column : Int) (m : Margins) (r : Raw) :
    m.columns.size ≤ (marginsBehind c column m r).columns.size := by
  have h := size_noteCode m (c.isCode r.kind) column
  unfold marginsBehind
  split
  · rw [Margins.size_newLine]
    omega
  · omega

theorem lastLine_marginsBehind (c : Config) (column : Int) (m : Margins) (r : Raw) :
    (marginsBehind c column m r).lastLine =
      if r.kind = some c.endOfLine then m.lastLine + 1 else m.lastLine := by
  unfold marginsBehind
  split
  · rw [Margins.lastLine_newLine, lastLine_noteCode]
  · rw [lastLine_noteCode]

theorem join_marginsBehind (c : Config) (column : Int) (m : Margins) (r : Raw) (l : Nat)
    (hm : 0 < m.columns.size) :
    (marginsBehind c column m r).columns[l]?.join =
      m.columns[l]?.join.or
        (if c.isCode r.kind = true ∧ (l : Int) = m.lastLine then some column else none) := by
  have hnoted : (noteCode m (c.isCode r.kind) column).columns[l]?.join =
      m.columns[l]?.join.or
        (if c.isCode r.kind = true ∧ (l : Int) = m.lastLine then some column else none) := by
    unfold noteCode
    by_cases hcode : c.isCode r.kind = true
    · simp only [hcode, if_true, true_and]
      exact m.join_note column l hm
    · simp [hcode]
  unfold marginsBehind
  split
  · rw [Margins.join_newLine, hnoted]
  · exact hnoted

theorem run_raws (c : Config) (bufferEnd column : Int) (m : Margins) (raws : List Raw) :
    (run c bufferEnd column m raws).tokens.map Token.raw = raws ++ [⟨none, bufferEnd, bufferEnd⟩] := by
  induction raws generalizing column m with
  | nil => rfl
  | cons r more ih =>
    rw [run_cons, List.map_cons, ih]
    rfl

/-- The placed tokens are the raw ones in order, and behind them the end of the input. -/
theorem run_tokens (c : Config) (bufferEnd column : Int) (m : Margins) (raws : List Raw) :
    ∃ body atEnd, (run c bufferEnd column m raws).tokens = body ++ [atEnd] ∧
      body.map Token.raw = raws ∧
      (∀ t ∈ body, t.code = c.isCode t.kind ∧ t.virtual = false) ∧
      atEnd.kind = none ∧ atEnd.code = false ∧ atEnd.virtual = false := by
  induction raws generalizing column m with
  | nil => exact ⟨[], _, rfl, rfl, by simp, rfl, rfl, rfl⟩
  | cons r more ih =>
    obtain ⟨body, atEnd, htokens, hraw, hbody, hend⟩ :=
      ih (columnBehind c column r) (marginsBehind c column m r)
    refine ⟨⟨r.kind, r.start, r.stop, column, m.lastLine, c.isCode r.kind, false⟩ :: body, atEnd,
      ?_, ?_, ?_, hend⟩
    · rw [run_cons]
      simp only [htokens, List.cons_append]
    · simp only [List.map_cons, hraw, Token.raw]
    · intro t ht
      rcases List.mem_cons.mp ht with rfl | ht
      · exact ⟨rfl, rfl⟩
      · exact hbody t ht

theorem run_head (c : Config) (bufferEnd column : Int) (m : Margins) (raws : List Raw) :
    ∃ t more, (run c bufferEnd column m raws).tokens = t :: more ∧
      t.line = m.lastLine ∧ t.column = column := by
  cases raws with
  | nil => exact ⟨_, _, rfl, rfl, rfl⟩
  | cons r more =>
    rw [run_cons]
    exact ⟨_, _, rfl, rfl, rfl⟩

end Placement

/-- `b` stands right behind `a`: in the first column of the next line if `a` ends its line,
otherwise on the same line behind the text of `a`. -/
def Token.Next (c : Config) (a b : Token) : Prop :=
  if a.kind = some c.endOfLine then b.line = a.line + 1 ∧ b.column = 0
  else b.line = a.line ∧ b.column = a.column + (a.stop - a.start)

namespace Placement

theorem run_next (c : Config) (bufferEnd column : Int) (m : Margins) (raws : List Raw) :
    (run c bufferEnd column m raws).tokens.IsChain (Token.Next c) := by
  induction raws generalizing column m with
  | nil => exact List.IsChain.singleton _
  | cons r more ih =>
    obtain ⟨t, rest, htokens, hline, hcolumn⟩ :=
      run_head c bufferEnd (columnBehind c column r) (marginsBehind c column m r) more
    have hchain := ih (columnBehind c column r) (marginsBehind c column m r)
    rw [run_cons]
    simp only
    rw [htokens] at hchain ⊢
    refine List.isChain_cons_cons.mpr ⟨?_, hchain⟩
    rw [lastLine_marginsBehind] at hline
    unfold Token.Next
    unfold columnBehind at hcolumn
    by_cases h : r.kind = some c.endOfLine
    · simp only [h, if_true] at hline hcolumn ⊢
      exact ⟨hline, hcolumn⟩
    · simp only [h, if_false] at hline hcolumn ⊢
      exact ⟨hline, hcolumn⟩

theorem run_lines (c : Config) (bufferEnd column : Int) (m : Margins) (raws : List Raw) :
    ∀ t ∈ (run c bufferEnd column m raws).tokens, m.lastLine ≤ t.line := by
  induction raws generalizing column m with
  | nil =>
    intro t ht
    rw [run, List.mem_singleton] at ht
    subst ht
    exact Int.le_refl _
  | cons r more ih =>
    intro t ht
    rw [run_cons] at ht
    rcases List.mem_cons.mp ht with rfl | ht
    · exact Int.le_refl _
    · have hlater := ih _ (marginsBehind c column m r) t ht
      have hline := lastLine_marginsBehind c column m r
      split at hline <;> omega

theorem run_columns (c : Config) (bufferEnd column : Int) (m : Margins) (raws : List Raw)
    (hcolumn : 0 ≤ column) (hraws : ∀ r ∈ raws, r.start ≤ r.stop) :
    ∀ t ∈ (run c bufferEnd column m raws).tokens, 0 ≤ t.column := by
  induction raws generalizing column m with
  | nil =>
    intro t ht
    rw [run, List.mem_singleton] at ht
    subst ht
    exact hcolumn
  | cons r more ih =>
    have hr := hraws r (by simp)
    have hbehind : 0 ≤ columnBehind c column r := by
      unfold columnBehind
      split <;> omega
    intro t ht
    rw [run_cons] at ht
    rcases List.mem_cons.mp ht with rfl | ht
    · exact hcolumn
    · exact ih _ _ hbehind (fun r hr => hraws r (by simp [hr])) t ht

/-- The margin of a line is the one placement began with, or else the column of the first code
placed on this line. -/
theorem run_margins (c : Config) (bufferEnd column : Int) (m : Margins) (raws : List Raw)
    (hm : 0 < m.columns.size) (l : Nat) :
    (run c bufferEnd column m raws).margins.columns[l]?.join =
      m.columns[l]?.join.or (((run c bufferEnd column m raws).tokens.find?
        fun t => t.code && t.line == (l : Int)).map (·.column)) := by
  induction raws generalizing column m with
  | nil => simp [run]
  | cons r more ih =>
    have hsize := size_marginsBehind c column m r
    rw [run_cons]
    simp only
    rw [ih _ _ (by omega), join_marginsBehind c column m r l hm, Option.or_assoc]
    congr 1
    by_cases h : c.isCode r.kind = true ∧ (l : Int) = m.lastLine
    · simp [h.1, ← h.2]
    · have hhead : (c.isCode r.kind && m.lastLine == (l : Int)) = false := by
        by_cases hcode : c.isCode r.kind = true
        · have : m.lastLine ≠ l := fun hl => h ⟨hcode, hl.symm⟩
          simp [this]
        · simp [hcode]
      simp only [h, if_false, Option.none_or, List.find?_cons, hhead]

end Placement

/-- The margin of a placed token's line is the column of the first code on it. -/
theorem margin_place (c : Config) (raws : List Raw) (bufferEnd : Int) {t : Token}
    (ht : t ∈ (place c raws bufferEnd).tokens) :
    (place c raws bufferEnd).margins.margin t.line =
      .ok (((place c raws bufferEnd).tokens.find? fun u => u.code && u.line == t.line).map
        (·.column)) := by
  have hline : 0 ≤ t.line := Placement.run_lines c bufferEnd 0 Margins.empty.newLine raws t ht
  have hjoin := Placement.run_margins c bufferEnd 0 Margins.empty.newLine raws (by decide)
    t.line.toNat
  have hempty : Margins.empty.newLine.columns[t.line.toNat]?.join = none :=
    Margins.join_newLine _ _
  have hindex : (place c raws bufferEnd).margins.index t.line = t.line.toNat := if_neg (by omega)
  rw [hempty, Option.none_or, Int.toNat_of_nonneg hline] at hjoin
  rw [Margins.margin, if_pos (place_covers c raws bufferEnd t ht), hindex]
  exact congrArg Except.ok hjoin

end OffsideRule.Layout
