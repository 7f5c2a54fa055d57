import OffsideRule.Index

/-! The margins of a text: for every line the column of its first code token, if it has one. A
negative line number counts from the last line. -/

namespace OffsideRule.Layout

structure Margins where
  columns : Array (Option Int)
  deriving DecidableEq, Repr

/-- A line that the margins do not cover. -/
structure NoSuchLine where
  line : Int
  deriving DecidableEq, Repr

/-- A number that can be no line of any text has a message of its own. -/
def NoSuchLine.message (e : NoSuchLine) : String :=
  if isIndex e.line then "list index out of range" else noIndexMessage

namespace Margins

def empty : Margins := ⟨#[]⟩

/-- One more line, without code so far. -/
def newLine (m : Margins) : Margins :=
  ⟨m.columns.push none⟩

/-- Number of the last line. -/
def lastLine (m : Margins) : Int :=
  m.columns.size - 1

def index (m : Margins) (line : Int) : Nat :=
  if line < 0 then (m.columns.size + line).toNat else line.toNat

def Covers (m : Margins) (line : Int) : Prop :=
  -m.columns.size ≤ line ∧ line < m.columns.size

instance (m : Margins) (line : Int) : Decidable (m.Covers line) :=
  inferInstanceAs (Decidable (_ ∧ _))

/-- The margin of a line. -/
def margin (m : Margins) (line : Int) : Except NoSuchLine (Option Int) :=
  if m.Covers line then .ok m.columns[m.index line]?.join else .error ⟨line⟩

/-- Makes `column` the margin of the line at an index, unless it has one. -/
def noteAt (m : Margins) (i : Nat) (column : Int) : Margins :=
  ⟨m.columns.modify i fun margin => margin <|> some column⟩

/-- Makes `column` the margin of a line, unless it has one. -/
def record (m : Margins) (line column : Int) : Except NoSuchLine Margins :=
  if m.Covers line then .ok (m.noteAt (m.index line) column) else .error ⟨line⟩

/-- Makes `column` the margin of the last line, unless it has one. -/
def note (m : Margins) (column : Int) : Margins :=
  m.noteAt (m.columns.size - 1) column

theorem size_newLine (m : Margins) : m.newLine.columns.size = m.columns.size + 1 := by
  simp [newLine]

theorem size_note (m : Margins) (column : Int) :
    (m.note column).columns.size = m.columns.size := by
  simp [note, noteAt]

theorem margin_of_covers {m : Margins} {line : Int} (h : m.Covers line) :
    ∃ column, m.margin line = .ok column :=
  ⟨_, if_pos h⟩

end Margins

end OffsideRule.Layout
