import OffsideRule.Layout.Config
import OffsideRule.Layout.Margins
import OffsideRule.Layout.Token

/-! Placement: gives raw tokens their columns and lines, and collects the margins of the lines. -/

namespace OffsideRule.Layout

structure Placement where
  tokens : List Token
  margins : Margins
  deriving DecidableEq, Repr

namespace Placement

/-- The margins after a token in `column` of the last line. -/
def noteCode (m : Margins) (code : Bool) (column : Int) : Margins :=
  if code then m.note column else m

/-- Places tokens from `column` of the last line on, and behind them the end of the input. -/
def run (c : Config) (bufferEnd : Int) : (column : Int) → Margins → List Raw → Placement
  | column, m, [] => ⟨[⟨none, bufferEnd, bufferEnd, column, m.lastLine, false, false⟩], m⟩
  | column, m, r :: more =>
    let code := c.isCode r.kind
    let line := m.lastLine
    let noted := noteCode m code column
    let later :=
      if r.kind = some c.endOfLine then run c bufferEnd 0 noted.newLine more
      else run c bufferEnd (column + (r.stop - r.start)) noted more
    ⟨⟨r.kind, r.start, r.stop, column, line, code, false⟩ :: later.tokens, later.margins⟩

theorem size_noteCode (m : Margins) (code : Bool) (column : Int) :
    (noteCode m code column).columns.size = m.columns.size := by
  cases code
  · rfl
  · exact m.size_note column

/-- The margins cover the lines of all placed tokens. -/
theorem run_covers (c : Config) (bufferEnd : Int) (raws : List Raw) (column : Int) (m : Margins)
    (hm : 0 < m.columns.size) :
    m.columns.size ≤ (run c bufferEnd column m raws).margins.columns.size ∧
      ∀ t ∈ (run c bufferEnd column m raws).tokens,
        (run c bufferEnd column m raws).margins.Covers t.line := by
  induction raws generalizing column m with
  | nil => simp [run, Margins.Covers, Margins.lastLine]; omega
  | cons r more ih =>
    have hnoted := size_noteCode m (c.isCode r.kind) column
    have hnew := (noteCode m (c.isCode r.kind) column).size_newLine
    unfold run
    simp only
    split
    · obtain ⟨hsize, hall⟩ := ih 0 (noteCode m (c.isCode r.kind) column).newLine (by omega)
      refine ⟨by omega, fun t ht => ?_⟩
      rcases List.mem_cons.mp ht with rfl | ht
      · simp only [Margins.Covers, Margins.lastLine]; omega
      · exact hall t ht
    · obtain ⟨hsize, hall⟩ :=
        ih (column + (r.stop - r.start)) (noteCode m (c.isCode r.kind) column) (by omega)
      refine ⟨by omega, fun t ht => ?_⟩
      rcases List.mem_cons.mp ht with rfl | ht
      · simp only [Margins.Covers, Margins.lastLine]; omega
      · exact hall t ht

end Placement

/-- Places all tokens of a buffer. -/
def place (c : Config) (raws : List Raw) (bufferEnd : Int) : Placement :=
  Placement.run c bufferEnd 0 Margins.empty.newLine raws

theorem place_covers (c : Config) (raws : List Raw) (bufferEnd : Int) :
    ∀ t ∈ (place c raws bufferEnd).tokens, (place c raws bufferEnd).margins.Covers t.line :=
  (Placement.run_covers c bufferEnd raws 0 Margins.empty.newLine (by simp [Margins.size_newLine])).2

end OffsideRule.Layout
