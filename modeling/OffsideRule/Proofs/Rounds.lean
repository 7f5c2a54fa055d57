import OffsideRule.Proofs.Operations

/-! The comparison of a line with the open blocks, round by round. Each round compares the column
of the line's first code with the innermost block and closes this block if it lies right of the
column. Where the last block is closed, the column is compared with that of the block around the
whole source, which no round takes away. So the rounds come to an end, and do to the state what
`State.startLine` does, unless the column lies left of all blocks; then they close blocks forever. -/

namespace OffsideRule.Layout

/-- What a round leaves: a state for the next round, or the one in which the comparison ends. -/
inductive Round
  | again (s : State)
  | last (s : State)
  deriving DecidableEq, Repr

namespace Blocks

variable {b : Blocks} {column : Int}

theorem dedent_of_peek_le (h : b.peek ≤ column) :
    b.dedent column = ⟨[], decide (b.peek = column), b⟩ := by
  obtain ⟨columns⟩ := b
  rw [dedent, dedentColumns_eq]
  cases columns with
  | nil => rfl
  | cons block outer =>
    have hblock : ¬ column < block := Int.not_lt.mpr h
    simp [hblock, peek]

theorem dedent_of_lt_peek (hcolumn : topLevel ≤ column) (h : column < b.peek) :
    b.dedent column =
      { b.pop.dedent column with closed := b.peek :: (b.pop.dedent column).closed } := by
  obtain ⟨columns⟩ := b
  cases columns with
  | nil => exact absurd h (Int.not_lt.mpr hcolumn)
  | cons block outer =>
    have hblock : column < block := h
    have hne : ¬ column = block := by omega
    simp [dedent, dedentColumns, relation, hne, hblock, peek, pop]

end Blocks

namespace State

/-- The state behind the closing of the innermost block at `anchor`. -/
def closeInnermost (c : Config) (anchor : Token) (s : State) : State :=
  { (s.emit (.before c.closeKind anchor)).log (.closed s.blocks.peek anchor.start) with
    blocks := s.blocks.pop }

/-- One round of the comparison of `column` with the open blocks, whose output ends at the gap. -/
def compare (c : Config) (anchor : Token) (column : Int) (s : State) : Round :=
  match Blocks.relation column s.blocks.peek with
  | .nextItem => .last (s.emit (.before c.separatorKind anchor))
  | .outside => .again (s.closeInnermost c anchor)
  | .continuation => .last s

/-- At most `n` rounds. -/
def rounds (c : Config) (anchor : Token) (column : Int) : Nat → State → Round
  | 0, s => .again s
  | n + 1, s =>
    match s.compare c anchor column with
    | .again s' => rounds c anchor column n s'
    | .last s' => .last s'

/-- What the comparison as a whole makes of a state whose output ends at the gap. -/
def dedent (c : Config) (anchor : Token) (column : Int) (s : State) : State :=
  let d := s.blocks.dedent column
  { s with
    output := (if d.separates then [Token.before c.separatorKind anchor] else []) ++
      d.closed.map (fun _ => Token.before c.closeKind anchor) ++ s.output
    blocks := d.remaining
    events := (d.closed.map fun block => Event.closed block anchor.start).reverse ++ s.events }

variable {c : Config} {anchor : Token} {column : Int} {s : State}

theorem compare_outside (h : column < s.blocks.peek) :
    s.compare c anchor column = .again (s.closeInnermost c anchor) := by
  have hne : ¬ column = s.blocks.peek := by omega
  simp [compare, Blocks.relation, hne, h]

/-- A round that closes no block is all there is to compare. -/
theorem compare_inside (h : s.blocks.peek ≤ column) :
    s.compare c anchor column = .last (s.dedent c anchor column) := by
  have hnot : ¬ column < s.blocks.peek := by omega
  rw [dedent, Blocks.dedent_of_peek_le h]
  by_cases heq : s.blocks.peek = column
  · simp [compare, Blocks.relation, heq, emit]
  · simp [compare, Blocks.relation, heq, Ne.symm heq, hnot]

/-- To close the innermost block first makes no difference where the column lies left of it. -/
theorem dedent_closeInnermost (hcolumn : topLevel ≤ column) (h : column < s.blocks.peek) :
    (s.closeInnermost c anchor).dedent c anchor column = s.dedent c anchor column := by
  have hcloses (n : Nat) (close : Token) (older : List Token) :
      List.replicate n close ++ close :: older = close :: List.replicate n close ++ older := by
    rw [← List.replicate_succ, List.replicate_succ', List.append_assoc, List.singleton_append]
  rw [dedent, dedent, Blocks.dedent_of_lt_peek hcolumn h]
  simp only [closeInnermost, emit, log, List.map_const', hcloses, List.append_assoc, List.map_cons,
    List.reverse_cons, List.singleton_append]
  rfl

/-- The rounds close the blocks right of the column, and one more finds the block that stays. -/
theorem rounds_dedent (hcolumn : topLevel ≤ column) (s : State) :
    s.rounds c anchor column ((s.blocks.dedent column).closed.length + 1) =
      .last (s.dedent c anchor column) := by
  by_cases h : column < s.blocks.peek
  · have hclosed : (s.blocks.dedent column).closed.length =
        (s.blocks.pop.dedent column).closed.length + 1 := by
      rw [Blocks.dedent_of_lt_peek hcolumn h, List.length_cons]
    -- each round takes a block away, so there are no more rounds than blocks
    have hrest := rounds_dedent hcolumn (s.closeInnermost c anchor)
    rw [dedent_closeInnermost hcolumn h] at hrest
    rw [hclosed, rounds, compare_outside h]
    exact hrest
  · have hpeek : s.blocks.peek ≤ column := Int.not_lt.mp h
    rw [Blocks.dedent_of_peek_le hpeek, List.length_nil, rounds, compare_inside hpeek]
termination_by s.blocks.depth
decreasing_by
  obtain ⟨output, ⟨columns⟩, phase, warnings, events⟩ := s
  cases columns with
  | nil => exact absurd h (Int.not_lt.mpr hcolumn)
  | cons block outer => simp [closeInnermost, Blocks.depth, Blocks.pop]

/-- The output before the gap is compared, and the output behind it put back. -/
theorem startLine_eq_dedent (t : Token) :
    s.startLine c t =
      let compared := { s with output := (gap c.endOfLine s.output).earlier }.dedent c (s.anchor c t)
        t.column
      { compared with output := (gap c.endOfLine s.output).later ++ compared.output } := by
  simp only [startLine, dedent, anchor, List.append_assoc]

/-- Left of all blocks every round closes a block, and there is always a next one. -/
theorem rounds_of_lt_topLevel (c : Config) (anchor : Token) (hcolumn : column < topLevel)
    (hblocks : ∀ block ∈ s.blocks.columns, topLevel ≤ block) (n : Nat) :
    ∃ s', s.rounds c anchor column n = .again s' ∧
      s'.output = List.replicate n (Token.before c.closeKind anchor) ++ s.output := by
  induction n generalizing s with
  | zero => exact ⟨s, rfl, rfl⟩
  | succ n ih =>
    have hpeek : column < s.blocks.peek := by
      cases hcolumns : s.blocks.columns with
      | nil =>
        rw [Blocks.peek, hcolumns]
        exact hcolumn
      | cons block outer =>
        have hblock := hblocks block (by simp [hcolumns])
        rw [Blocks.peek, hcolumns]
        exact Int.lt_of_lt_of_le hcolumn hblock
    obtain ⟨s', hs', houtput⟩ := ih (s := s.closeInnermost c anchor) fun block hblock =>
      hblocks block (List.mem_of_mem_tail hblock)
    refine ⟨s', ?_, ?_⟩
    · rw [rounds, compare_outside hpeek]
      exact hs'
    · rw [houtput, List.replicate_succ', List.append_assoc]
      rfl

/-- The comparison comes to an end exactly if the column does not lie left of all blocks. -/
theorem ends_iff (hblocks : ∀ block ∈ s.blocks.columns, topLevel ≤ block) :
    (∃ n s', s.rounds c anchor column n = .last s') ↔ topLevel ≤ column := by
  constructor
  · rintro ⟨n, s', hlast⟩
    by_contra hcolumn
    obtain ⟨s'', hagain, _⟩ := rounds_of_lt_topLevel c anchor (Int.not_le.mp hcolumn) hblocks n
    rw [hlast] at hagain
    contradiction
  · intro hcolumn
    exact ⟨_, _, rounds_dedent hcolumn s⟩

end State

end OffsideRule.Layout
