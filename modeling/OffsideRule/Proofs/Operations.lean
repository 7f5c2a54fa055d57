import Mathlib.Data.List.TakeWhile
import OffsideRule.Layout.Resolution

/-! What the operations of a resolution do to its state. Delimiters are put behind all code of the
output, so the output up to its last code never changes, and the code of the output only grows at
its end. -/

namespace OffsideRule.Layout

namespace Blocks

/-- A line closes the blocks right of it and begins an item of the first that is left, if this one
lies in the same column. -/
theorem dedentColumns_eq (column : Int) (columns : List Int) :
    dedentColumns column columns =
      ⟨columns.takeWhile (column < ·),
        decide ((columns.dropWhile (column < ·)).headD topLevel = column),
        ⟨columns.dropWhile (column < ·)⟩⟩ := by
  induction columns with
  | nil =>
    have hrelation : relation column topLevel = .nextItem ↔ topLevel = column := by
      unfold relation
      split
      · next h => simp [h]
      · next h => split <;> simp [Ne.symm h]
    simp [dedentColumns, hrelation]
  | cons block outer ih =>
    simp only [dedentColumns, relation]
    by_cases heq : column = block
    · simp [heq]
    · by_cases hlt : column < block
      · simp [heq, hlt, ih]
      · simp [heq, hlt, eq_comm]

theorem dedent_closed (b : Blocks) (column : Int) :
    (b.dedent column).closed = b.columns.takeWhile (column < ·) := by
  rw [dedent, dedentColumns_eq]

theorem dedent_remaining (b : Blocks) (column : Int) :
    (b.dedent column).remaining = ⟨b.columns.dropWhile (column < ·)⟩ := by
  rw [dedent, dedentColumns_eq]

theorem dedent_separates (b : Blocks) (column : Int) :
    (b.dedent column).separates = true ↔ (b.dedent column).remaining.peek = column := by
  rw [dedent, dedentColumns_eq, decide_eq_true_iff]
  rfl

end Blocks

/-- The gap behind the last code begins at the end of its line. -/
theorem gap_of_code (endOfLine : Kind) {newer older : List Token} {v : Token} (hv : v.code = true)
    (hnewer : ∀ u ∈ newer, u.code = false) :
    gap endOfLine (newer ++ v :: older) =
      ⟨(newer.reverse.dropWhile fun t => t.kind != some endOfLine).reverse,
        (newer.reverse.takeWhile fun t => t.kind != some endOfLine).reverse ++ v :: older⟩ := by
  have hcode : ∀ u ∈ newer, (!u.code) = true := fun u hu => by simp [hnewer u hu]
  have htake : (newer ++ v :: older).takeWhile (fun t => !t.code) = newer := by
    rw [List.takeWhile_append_of_pos hcode]
    simp [hv]
  have hdrop : (newer ++ v :: older).dropWhile (fun t => !t.code) = v :: older := by
    rw [List.dropWhile_append_of_pos hcode]
    simp [hv]
  simp [gap, htake, hdrop]

theorem gap_append (endOfLine : Kind) (output : List Token) :
    (gap endOfLine output).later ++ (gap endOfLine output).earlier = output := by
  unfold gap
  simp only
  split
  · rfl
  · rw [← List.append_assoc, ← List.reverse_append, List.takeWhile_append_dropWhile,
      List.reverse_reverse, List.takeWhile_append_dropWhile]

theorem gap_later_not_code (endOfLine : Kind) (output : List Token) :
    ∀ t ∈ (gap endOfLine output).later, t.code = false := by
  unfold gap
  simp only
  split
  · simp
  · intro t ht
    have htrailing := (List.dropWhile_sublist _).subset (List.mem_reverse.mp ht)
    simpa using List.mem_takeWhile_imp (List.mem_reverse.mp htrailing)

/-- No delimiter is in the gap, since delimiters are code. -/
theorem gap_later_real (endOfLine : Kind) {output : List Token}
    (hcoded : ∀ t ∈ output, t.virtual = true → t.code = true) :
    ∀ t ∈ (gap endOfLine output).later, t.virtual = false := by
  intro t ht
  have hmem : t ∈ output := gap_append endOfLine output ▸ List.mem_append_left _ ht
  have hcode := gap_later_not_code endOfLine output t ht
  cases hvirtual : t.virtual with
  | false => rfl
  | true => simp [hcoded t hmem hvirtual] at hcode

theorem suffix_of_suffix_append {u : Token} {older front back : List Token} (hu : u ∉ front)
    (h : u :: older <:+ front ++ back) : u :: older <:+ back := by
  obtain ⟨newer, hnewer⟩ := h
  rcases List.append_eq_append_iff.mp hnewer with ⟨mid, hfront, hmid⟩ | ⟨mid, _, hback⟩
  · cases mid with
    | nil => exact ⟨[], by simpa using hmid⟩
    | cons v mid =>
      obtain ⟨rfl, _⟩ := List.cons_eq_cons.mp hmid
      exact absurd (by rw [hfront]; simp) hu
  · exact ⟨mid, hback.symm⟩

/-- The output up to a code token lies before the gap. -/
theorem suffix_gap_earlier (endOfLine : Kind) {output older : List Token} {u : Token}
    (hcode : u.code = true) (h : u :: older <:+ output) :
    u :: older <:+ (gap endOfLine output).earlier := by
  rw [← gap_append endOfLine output] at h
  refine suffix_of_suffix_append (fun hu => ?_) h
  simp [gap_later_not_code endOfLine output u hu] at hcode

/-- What layout may add to the output. -/
inductive Delimiter (c : Config) : Token → Prop
  | opens (anchor : Token) : Delimiter c (.before c.openKind anchor)
  | separates (anchor : Token) : Delimiter c (.before c.separatorKind anchor)
  | closes (anchor : Token) : Delimiter c (.before c.closeKind anchor)

theorem Delimiter.kind_eq {c : Config} {u : Token} (h : Delimiter c u) :
    u.kind = some c.openKind ∨ u.kind = some c.separatorKind ∨ u.kind = some c.closeKind := by
  cases h with
  | opens _ => exact Or.inl rfl
  | separates _ => exact Or.inr (Or.inl rfl)
  | closes _ => exact Or.inr (Or.inr rfl)

/-- No delimiter ends the input. -/
theorem Delimiter.isEnd {c : Config} {u : Token} (h : Delimiter c u) : u.isEnd = false := by
  rcases h.kind_eq with hkind | hkind | hkind <;> simp [Token.isEnd, hkind]

namespace State

/-- The code of the output, newest first. -/
def codes (s : State) : List Token :=
  s.output.filter (·.code)

/-- The token before which the line that begins with `t` puts its delimiters. -/
def anchor (c : Config) (s : State) (t : Token) : Token :=
  (gap c.endOfLine s.output).later.getLast?.getD t

/-- The delimiters that the line beginning with `t` adds, newest first. -/
def delimiters (c : Config) (s : State) (t : Token) : List Token :=
  (if (s.blocks.dedent t.column).separates then [Token.before c.separatorKind (s.anchor c t)]
    else []) ++
    (s.blocks.dedent t.column).closed.map fun _ => Token.before c.closeKind (s.anchor c t)

/-- Whether `t` closes the block of a binding that began on its line. -/
def endsBinding (c : Config) (s : State) (t : Token) : Bool :=
  t.kind == some c.inKind && kindOnLine c.letKind t.line s.output && s.blocks.peek > topLevel

end State

/-- The warning about the block of an opener that is given up. -/
def Token.givenUp (opener : Token) : Warning :=
  ⟨"empty or unindented block after '" ++ (opener.kind.map Kind.label).getD "EOF" ++ "'",
    opener.start, opener.stop⟩

namespace State

variable (c : Config) (s : State) (t opener : Token)

@[simp] theorem emit_output : (s.emit t).output = t :: s.output := rfl
@[simp] theorem emit_blocks : (s.emit t).blocks = s.blocks := rfl
@[simp] theorem emit_phase : (s.emit t).phase = s.phase := rfl
@[simp] theorem emit_warnings : (s.emit t).warnings = s.warnings := rfl

@[simp] theorem await_output : (s.await c t).output = s.output := by
  unfold await
  split <;> rfl

@[simp] theorem await_blocks : (s.await c t).blocks = s.blocks := by
  unfold await
  split <;> rfl

@[simp] theorem await_phase :
    (s.await c t).phase = if c.isOpener t.kind then .awaiting t else s.phase := by
  unfold await
  split <;> rfl

@[simp] theorem await_warnings : (s.await c t).warnings = s.warnings := by
  unfold await
  split <;> rfl

@[simp] theorem openBlock_output :
    (s.openBlock c t).output = t :: Token.before c.openKind t :: s.output := by
  simp [openBlock, log]

@[simp] theorem openBlock_blocks : (s.openBlock c t).blocks = s.blocks.push t.column := by
  simp [openBlock]

@[simp] theorem openBlock_phase :
    (s.openBlock c t).phase = if c.isOpener t.kind then .awaiting t else .running := by
  simp [openBlock]

@[simp] theorem openBlock_warnings : (s.openBlock c t).warnings = s.warnings := by
  simp [openBlock, log]

@[simp] theorem abandon_output : (s.abandon opener).output = s.output := rfl
@[simp] theorem abandon_blocks : (s.abandon opener).blocks = s.blocks := rfl
@[simp] theorem abandon_phase : (s.abandon opener).phase = .running := rfl
@[simp] theorem abandon_warnings :
    (s.abandon opener).warnings = opener.givenUp :: s.warnings := rfl

theorem startLine_output :
    (s.startLine c t).output = (gap c.endOfLine s.output).later ++ s.delimiters c t ++
      (gap c.endOfLine s.output).earlier := by
  simp [startLine, delimiters, anchor]

@[simp] theorem startLine_blocks :
    (s.startLine c t).blocks = (s.blocks.dedent t.column).remaining := rfl
@[simp] theorem startLine_phase : (s.startLine c t).phase = s.phase := rfl
@[simp] theorem startLine_warnings : (s.startLine c t).warnings = s.warnings := rfl

theorem closeLet_output :
    (s.closeLet c t).output =
      if s.endsBinding c t then Token.before c.closeKind t :: s.output else s.output := by
  unfold closeLet endsBinding
  split <;> rfl

theorem closeLet_blocks :
    (s.closeLet c t).blocks = if s.endsBinding c t then s.blocks.pop else s.blocks := by
  unfold closeLet endsBinding
  split <;> rfl

@[simp] theorem closeLet_phase : (s.closeLet c t).phase = s.phase := by
  unfold closeLet
  split <;> rfl

@[simp] theorem closeLet_warnings : (s.closeLet c t).warnings = s.warnings := by
  unfold closeLet
  split <;> rfl

theorem endsBinding_await : (s.await c t).endsBinding c t = s.endsBinding c t := by
  simp only [endsBinding, await_output, await_blocks]

theorem delimiters_await : (s.await c t).delimiters c t = s.delimiters c t := by
  simp only [delimiters, anchor, await_output, await_blocks]

theorem mem_delimiters {u : Token} (hu : u ∈ s.delimiters c t) :
    u = Token.before c.separatorKind (s.anchor c t) ∨
      u = Token.before c.closeKind (s.anchor c t) := by
  rw [delimiters, List.mem_append, List.mem_map] at hu
  rcases hu with hu | ⟨_, _, rfl⟩
  · split at hu
    · exact Or.inl (List.mem_singleton.mp hu)
    · contradiction
  · exact Or.inr rfl

theorem delimiters_code : ∀ u ∈ s.delimiters c t, u.code = true := by
  intro u hu
  rcases s.mem_delimiters c t hu with rfl | rfl <;> rfl

/-- The delimiters come behind all code. -/
theorem codes_startLine : (s.startLine c t).codes = s.delimiters c t ++ s.codes := by
  have hlater : (gap c.endOfLine s.output).later.filter (·.code) = [] :=
    List.filter_eq_nil_iff.mpr fun u hu => by simp [gap_later_not_code _ _ u hu]
  have hold : s.codes = (gap c.endOfLine s.output).earlier.filter (·.code) := by
    rw [codes, ← gap_append c.endOfLine s.output, List.filter_append, hlater, gap_append]
    rfl
  rw [codes, startLine_output, List.filter_append, List.filter_append, hlater, List.nil_append,
    List.filter_eq_self.mpr (s.delimiters_code c t), hold]

theorem codes_emit : (s.emit t).codes = if t.code then t :: s.codes else s.codes := by
  rw [codes, emit_output, List.filter_cons]
  rfl

theorem codes_closeLet :
    (s.closeLet c t).codes =
      if s.endsBinding c t then Token.before c.closeKind t :: s.codes else s.codes := by
  rw [codes, closeLet_output]
  split <;> rfl

/-- The end of the input adds delimiters right before the end and nothing else. -/
theorem finish_added (atEnd : Token) :
    ∃ added, (s.finish c atEnd).output = atEnd :: (added ++ s.output) ∧
      ∀ u ∈ added, u = .before c.openKind atEnd ∨ u = .before c.closeKind atEnd := by
  refine ⟨_, rfl, fun u hu => ?_⟩
  rcases List.mem_append.mp hu with hu | hu
  · obtain ⟨_, _, rfl⟩ := List.mem_map.mp hu
    exact Or.inr rfl
  · split at hu
    · simp only [List.mem_cons, List.not_mem_nil, or_false] at hu
      exact hu.symm
    · contradiction

end State

end OffsideRule.Layout
