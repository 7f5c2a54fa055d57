import OffsideRule.Proofs.Steps
import OffsideRule.Proofs.Variant

/-! Nesting of the added delimiters. A reader of the output who keeps a stack of columns, pushing at
each opening delimiter and popping at each closing one, always holds the open blocks of the
resolution (`Tracks`), and never pops an empty stack (`Bracketed`). -/

namespace OffsideRule.Layout

namespace Token

def isOpening (c : Config) (t : Token) : Bool :=
  t.virtual && t.kind == some c.openKind

def isSeparator (c : Config) (t : Token) : Bool :=
  t.virtual && t.kind == some c.separatorKind

def isClosing (c : Config) (t : Token) : Bool :=
  t.virtual && t.kind == some c.closeKind

end Token

/-- The open columns behind a token, given those before it. -/
def track (c : Config) (columns : List Int) (t : Token) : List Int :=
  if t.isOpening c then t.column :: columns
  else if t.isClosing c then columns.tail
  else columns

/-- Columns of the blocks that are open behind the given tokens, innermost first. -/
def openColumns (c : Config) (tokens : List Token) : List Int :=
  tokens.foldl (track c) []

/-- Column of the innermost open block behind the given tokens. -/
def innermost (c : Config) (tokens : List Token) : Int :=
  (openColumns c tokens).headD topLevel

theorem not_isClosing_of_isOpening {c : Config} (hc : c.Distinct) {t : Token}
    (h : t.isOpening c = true) : ¬ t.isClosing c = true := by
  simp only [Token.isOpening, Token.isClosing, Bool.and_eq_true, beq_iff_eq] at h ⊢
  simp [h.2, hc.open_ne_close]

theorem isOpening_before (c : Config) (t : Token) :
    (Token.before c.openKind t).isOpening c = true := by
  simp [Token.isOpening, Token.before]

section Track

variable {c : Config} {columns : List Int} {t : Token}

theorem track_real (ht : t.virtual = false) : track c columns t = columns := by
  simp [track, Token.isOpening, Token.isClosing, ht]

theorem track_open : track c columns (.before c.openKind t) = t.column :: columns := by
  rw [track, if_pos (isOpening_before c t)]
  rfl

theorem track_close (hc : c.Distinct) :
    track c columns (.before c.closeKind t) = columns.tail := by
  simp [track, Token.isOpening, Token.isClosing, Token.before, hc.open_ne_close.symm]

theorem track_separator (hc : c.Distinct) :
    track c columns (.before c.separatorKind t) = columns := by
  simp [track, Token.isOpening, Token.isClosing, Token.before, hc.open_ne_separator.symm,
    hc.separator_ne_close]

end Track

theorem openColumns_reverse_cons (c : Config) (t : Token) (output : List Token) :
    openColumns c (t :: output).reverse = track c (openColumns c output.reverse) t := by
  simp [openColumns]

theorem drop_takeWhile (p : Int → Bool) (columns : List Int) :
    columns.drop (columns.takeWhile p).length = columns.dropWhile p := by
  have hdrop := List.prefix_iff_eq_append.mp (List.takeWhile_prefix (p := p) (l := columns))
  exact List.append_cancel_left (hdrop.trans List.takeWhile_append_dropWhile.symm)

/-- Behind the given output, newest first, no closing delimiter was without an open block. -/
def Bracketed (c : Config) : List Token → Prop
  | [] => True
  | t :: older => (t.isClosing c = true → openColumns c older.reverse ≠ []) ∧ Bracketed c older

namespace Bracketed

variable {c : Config} {output later : List Token}

theorem count (hc : c.Distinct) (h : Bracketed c output) :
    output.countP (·.isOpening c) =
      output.countP (·.isClosing c) + (openColumns c output.reverse).length := by
  induction output with
  | nil => rfl
  | cons t older ih =>
    have hold := ih h.2
    rw [openColumns_reverse_cons, List.countP_cons, List.countP_cons, track]
    by_cases hopening : t.isOpening c = true
    · rw [if_pos hopening, if_pos hopening, if_neg (not_isClosing_of_isOpening hc hopening),
        List.length_cons]
      omega
    · by_cases hclosing : t.isClosing c = true
      · have hpos := List.length_pos_iff.mpr (h.1 hclosing)
        rw [if_neg hopening, if_neg hopening, if_pos hclosing, if_pos hclosing, List.length_tail]
        omega
      · rw [if_neg hopening, if_neg hopening, if_neg hclosing, if_neg hclosing]
        exact hold

theorem of_suffix (h : Bracketed c output) (hlater : later <:+ output) : Bracketed c later := by
  induction output with
  | nil =>
    rw [List.suffix_nil.mp hlater]
    trivial
  | cons t older ih =>
    rcases List.suffix_cons_iff.mp hlater with rfl | hlater
    · exact h
    · exact ih h.2 hlater

theorem cons_real {t : Token} (ht : t.virtual = false) (h : Bracketed c output) :
    Bracketed c (t :: output) :=
  ⟨by simp [Token.isClosing, ht], h⟩

/-- Closing delimiters take off one open block each. -/
theorem closes (hc : c.Distinct) (t : Token) (n : Nat) (h : Bracketed c output)
    (hn : n ≤ (openColumns c output.reverse).length) :
    Bracketed c (List.replicate n (Token.before c.closeKind t) ++ output) ∧
      openColumns c (List.replicate n (Token.before c.closeKind t) ++ output).reverse =
        (openColumns c output.reverse).drop n := by
  induction n with
  | zero => exact ⟨h, by simp⟩
  | succ n ih =>
    obtain ⟨hbracketed, hcolumns⟩ := ih (by omega)
    rw [List.replicate_succ, List.cons_append]
    refine ⟨⟨fun _ => ?_, hbracketed⟩, ?_⟩
    · rw [hcolumns]
      intro hnil
      rw [List.drop_eq_nil_iff] at hnil
      omega
    · rw [openColumns_reverse_cons, hcolumns, track_close hc, List.tail_drop]

theorem append_real (hlater : ∀ t ∈ later, t.virtual = false) (h : Bracketed c output) :
    Bracketed c (later ++ output) ∧
      openColumns c (later ++ output).reverse = openColumns c output.reverse := by
  induction later with
  | nil => exact ⟨h, rfl⟩
  | cons t later ih =>
    obtain ⟨hbracketed, hcolumns⟩ := ih fun t ht => hlater t (by simp [ht])
    have ht := hlater t (by simp)
    rw [List.cons_append]
    refine ⟨hbracketed.cons_real ht, ?_⟩
    rw [openColumns_reverse_cons, track_real ht, hcolumns]

end Bracketed

/-- The stack of blocks is what a reader of the output holds, above the block around the whole
source, and deeper blocks lie further right. -/
structure Tracks (c : Config) (s : State) : Prop where
  columns : s.blocks.columns = openColumns c s.output.reverse ++ [topLevel]
  descending : s.blocks.columns.Pairwise (· > ·)
  bracketed : Bracketed c s.output
  coded : ∀ t ∈ s.output, t.virtual = true → t.code = true

namespace Tracks

variable {c : Config} {s : State} {t : Token}

theorem initial (c : Config) : Tracks c State.initial where
  columns := rfl
  descending := List.pairwise_singleton _ _
  bracketed := trivial
  coded := by simp [State.initial]

theorem peek_eq (h : Tracks c s) : s.blocks.peek = innermost c s.output.reverse := by
  rw [Blocks.peek, h.columns, innermost]
  cases openColumns c s.output.reverse <;> rfl

theorem topLevel_lt (h : Tracks c s) : ∀ column ∈ openColumns c s.output.reverse,
    topLevel < column := by
  have hpair := h.descending
  rw [h.columns] at hpair
  intro column hcolumn
  exact (List.pairwise_append.mp hpair).2.2 column hcolumn topLevel (by simp)

theorem le_peek (h : Tracks c s) : ∀ column ∈ s.blocks.columns, column ≤ s.blocks.peek := by
  intro column hcolumn
  have hdescending := h.descending
  unfold Blocks.peek
  cases hcolumns : s.blocks.columns with
  | nil => rw [hcolumns] at hcolumn; contradiction
  | cons block outer =>
    rw [hcolumns] at hcolumn hdescending
    rcases List.mem_cons.mp hcolumn with rfl | hcolumn
    · exact Int.le_refl _
    · exact Int.le_of_lt ((List.pairwise_cons.mp hdescending).1 column hcolumn)

/-- The invariant reads no more of a state than its output and blocks. -/
theorem of_eq {s' : State} (h : Tracks c s) (houtput : s'.output = s.output)
    (hblocks : s'.blocks = s.blocks) : Tracks c s' where
  columns := by rw [houtput, hblocks, h.columns]
  descending := hblocks ▸ h.descending
  bracketed := houtput ▸ h.bracketed
  coded := houtput ▸ h.coded

theorem emit (ht : t.virtual = false) (h : Tracks c s) : Tracks c (s.emit t) where
  columns := by
    rw [State.emit_output, State.emit_blocks, openColumns_reverse_cons, track_real ht, h.columns]
  descending := h.descending
  bracketed := h.bracketed.cons_real ht
  coded := by
    intro u hu hvirtual
    rcases List.mem_cons.mp hu with rfl | hu
    · simp [ht] at hvirtual
    · exact h.coded u hu hvirtual

theorem openBlock (hc : c.Distinct) (ht : t.virtual = false) (hpeek : s.blocks.peek < t.column)
    (h : Tracks c s) : Tracks c (s.openBlock c t) where
  columns := by
    rw [State.openBlock_output, State.openBlock_blocks, openColumns_reverse_cons, track_real ht,
      openColumns_reverse_cons, track_open, Blocks.push, h.columns]
    rfl
  descending := by
    rw [State.openBlock_blocks, Blocks.push]
    refine List.pairwise_cons.mpr ⟨fun column hcolumn => ?_, h.descending⟩
    have := h.le_peek column hcolumn
    omega
  bracketed := by
    rw [State.openBlock_output]
    exact Bracketed.cons_real ht
      ⟨fun hclosing => absurd hclosing (not_isClosing_of_isOpening hc (isOpening_before c t)),
        h.bracketed⟩
  coded := by
    intro u hu hvirtual
    rw [State.openBlock_output] at hu
    rcases List.mem_cons.mp hu with rfl | hu
    · simp [ht] at hvirtual
    · rcases List.mem_cons.mp hu with rfl | hu
      · rfl
      · exact h.coded u hu hvirtual

theorem closeLet (hc : c.Distinct) (h : Tracks c s) : Tracks c (s.closeLet c t) := by
  cases hends : s.endsBinding c t with
  | false =>
    refine h.of_eq ?_ ?_
    · rw [State.closeLet_output, if_neg (by simp [hends])]
    · rw [State.closeLet_blocks, if_neg (by simp [hends])]
  | true =>
    have hopen : openColumns c s.output.reverse ≠ [] := by
      intro hnil
      have hpeek : topLevel < s.blocks.peek := by
        simp only [State.endsBinding, Bool.and_eq_true, decide_eq_true_eq] at hends
        exact hends.2
      rw [Blocks.peek, h.columns, hnil] at hpeek
      exact Int.lt_irrefl _ hpeek
    have houtput : (s.closeLet c t).output = Token.before c.closeKind t :: s.output := by
      rw [State.closeLet_output, if_pos hends]
    have hblocks : (s.closeLet c t).blocks = s.blocks.pop := by
      rw [State.closeLet_blocks, if_pos hends]
    refine ⟨?_, ?_, ?_, ?_⟩
    · rw [hblocks, houtput, openColumns_reverse_cons, track_close hc, Blocks.pop, h.columns,
        List.tail_append_of_ne_nil hopen]
    · rw [hblocks]
      exact h.descending.sublist (List.tail_sublist _)
    · rw [houtput]
      exact ⟨fun _ => hopen, h.bracketed⟩
    · rw [houtput]
      intro u hu hvirtual
      rcases List.mem_cons.mp hu with rfl | hu
      · rfl
      · exact h.coded u hu hvirtual

/-- A line that begins right of the outermost block closes some of the inner ones. -/
theorem dedent (h : Tracks c s) {column : Int} (hcolumn : topLevel ≤ column) :
    (s.blocks.dedent column).closed =
        (openColumns c s.output.reverse).takeWhile (column < ·) ∧
      (s.blocks.dedent column).remaining.columns =
        (openColumns c s.output.reverse).dropWhile (column < ·) ++ [topLevel] := by
  rw [Blocks.dedent_closed, Blocks.dedent_remaining, h.columns]
  have htop : decide (column < topLevel) = false := by simp [hcolumn]
  generalize openColumns c s.output.reverse = columns
  induction columns with
  | nil => simp [htop]
  | cons block outer ih =>
    rw [List.cons_append]
    by_cases hblock : column < block
    · simp only [List.takeWhile_cons, List.dropWhile_cons, hblock, decide_true, if_true]
      exact ⟨congrArg _ ih.1, ih.2⟩
    · simp [hblock]

theorem startLine (hc : c.Distinct) (hcolumn : topLevel ≤ t.column) (h : Tracks c s) :
    Tracks c (s.startLine c t) := by
  obtain ⟨hclosed, hremaining⟩ := h.dedent hcolumn
  have hlater := gap_later_real c.endOfLine h.coded
  have hearlier : Bracketed c (gap c.endOfLine s.output).earlier :=
    h.bracketed.of_suffix ⟨_, gap_append c.endOfLine s.output⟩
  have hcolumns := (hearlier.append_real hlater).2
  rw [gap_append] at hcolumns
  -- first the closing delimiters, then the separator, then the end of the line before
  have hlength := (List.takeWhile_prefix (p := (t.column < ·))
    (l := openColumns c s.output.reverse)).length_le
  obtain ⟨hcloses, hafter⟩ := hearlier.closes hc (s.anchor c t)
    (s.blocks.dedent t.column).closed.length (by rw [hclosed, ← hcolumns]; exact hlength)
  have hdelimiters : Bracketed c (s.delimiters c t ++ (gap c.endOfLine s.output).earlier) ∧
      openColumns c (s.delimiters c t ++ (gap c.endOfLine s.output).earlier).reverse =
        (openColumns c s.output.reverse).dropWhile (t.column < ·) := by
    rw [State.delimiters, List.map_const', List.append_assoc, ← drop_takeWhile, ← hclosed, hcolumns,
      ← hafter]
    split
    · exact ⟨⟨by simp [Token.isClosing, Token.before, hc.separator_ne_close], hcloses⟩,
        by rw [List.singleton_append, openColumns_reverse_cons, track_separator hc]⟩
    · exact ⟨hcloses, rfl⟩
  obtain ⟨hbracketed, hall⟩ := hdelimiters.1.append_real hlater
  rw [← List.append_assoc, ← State.startLine_output] at hbracketed hall
  refine ⟨?_, ?_, hbracketed, ?_⟩
  · rw [State.startLine_blocks, hremaining, hall, hdelimiters.2]
  · rw [State.startLine_blocks, Blocks.dedent_remaining]
    exact h.descending.sublist (List.dropWhile_sublist _)
  · intro u hu hvirtual
    rw [State.startLine_output, List.append_assoc, List.mem_append, List.mem_append] at hu
    rcases hu with hu | hu | hu
    · simp [hlater u hu] at hvirtual
    · exact s.delimiters_code c t u hu
    · refine h.coded u ?_ hvirtual
      rw [← gap_append c.endOfLine s.output]
      exact List.mem_append_right _ hu

theorem started (hc : c.Distinct) (atMargin : Bool)
    (hcolumn : atMargin = true → topLevel ≤ t.column) (h : Tracks c s) :
    Tracks c (s.started c t atMargin) := by
  have hawait : Tracks c (s.await c t) := h.of_eq (s.await_output c t) (s.await_blocks c t)
  cases atMargin with
  | false => exact hawait
  | true => exact hawait.startLine hc (hcolumn rfl)

theorem proceed (hc : c.Distinct) (ht : t.virtual = false) (atMargin : Bool)
    (hcolumn : atMargin = true → topLevel ≤ t.column) (h : Tracks c s) :
    Tracks c (s.proceed c t atMargin) :=
  ((h.started hc atMargin hcolumn).closeLet hc).emit ht

theorem step (hc : c.Distinct) {m : Margins} {s' : State} (ht : t.virtual = false)
    (hcolumn : t.code = true → topLevel ≤ t.column) (h : Tracks c s) (hstep : Step c m s t s') :
    Tracks c s' := by
  cases hstep with
  | idles _ => exact (h.of_eq (s.await_output c t) (s.await_blocks c t)).emit ht
  | opens _ _ hpeek => exact h.openBlock hc ht hpeek
  | passes _ _ _ => exact h.emit ht
  | @givesUp opener _ hcode _ _ =>
    have habandon : Tracks c (s.abandon opener) := h.of_eq rfl rfl
    exact habandon.proceed hc ht true fun _ => hcolumn hcode
  | @proceeds atMargin _ hin =>
    exact h.proceed hc ht atMargin fun hmargin => hcolumn (code_of_inMargin (hmargin ▸ hin))

theorem run (hc : c.Distinct) {m : Margins} {tokens : List Token} {s' : State}
    (hreal : ∀ t ∈ tokens, t.virtual = false)
    (hcolumn : ∀ t ∈ tokens, t.code = true → topLevel ≤ t.column)
    (h : s.run c m tokens = .ok s') (hs : Tracks c s) : Tracks c s' :=
  State.run_invariant h hs fun t _ _ ht h hstep => h.step hc (hreal t ht) (hcolumn t ht) hstep

end Tracks

end OffsideRule.Layout
