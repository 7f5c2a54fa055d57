import OffsideRule.Proofs.Nesting

/-! Balance of the added delimiters. At the end of the input all open blocks are closed, an awaited
one as an empty block. Without the delimiter of the outermost block the output is balanced, and this
delimiter comes right before the end. -/

namespace OffsideRule.Layout

/-- In every front part at most as many blocks are closed as were opened, and in the end all. -/
structure Balanced (c : Config) (tokens : List Token) : Prop where
  nested : ∀ front, front <+: tokens →
    front.countP (·.isClosing c) ≤ front.countP (·.isOpening c)
  complete : tokens.countP (·.isClosing c) = tokens.countP (·.isOpening c)

theorem Bracketed.balanced {c : Config} (hc : c.Distinct) {output : List Token}
    (h : Bracketed c output) (hopen : openColumns c output.reverse = []) :
    Balanced c output.reverse where
  nested := by
    intro front hfront
    have hsuffix : front.reverse <:+ output := by
      rw [← List.reverse_reverse output]
      exact List.reverse_suffix.mpr hfront
    have hcount := (h.of_suffix hsuffix).count hc
    rw [List.countP_reverse, List.countP_reverse] at hcount
    omega
  complete := by
    have hcount := h.count hc
    rw [hopen, List.length_nil] at hcount
    rw [List.countP_reverse, List.countP_reverse]
    omega

/-- What resolution does to a stream that reaches its end. -/
theorem resolve_append (c : Config) (m : Margins) {front : List Token} {atEnd : Token}
    (rest : List Token) (hfront : ∀ t ∈ front, t.isEnd = false) (hend : atEnd.isEnd = true) :
    resolve c m (front ++ atEnd :: rest) = (State.initial.run c m front).map fun s =>
      .ofState (s.finish c atEnd) (front ++ atEnd :: rest).length s.blocks.depth := by
  have htake : (front ++ atEnd :: rest).takeWhile (!·.isEnd) = front := by
    rw [List.takeWhile_append_of_pos fun t ht => by simp [hfront t ht]]
    simp [hend]
  have hdrop : (front ++ atEnd :: rest).dropWhile (!·.isEnd) = atEnd :: rest := by
    rw [List.dropWhile_append_of_pos fun t ht => by simp [hfront t ht]]
    simp [hend]
  simp only [resolve, htake, hdrop, List.head?_cons]

namespace State

/-- The empty block of an opener that still waits at the end, newest first. -/
def emptyBlock (c : Config) (s : State) (atEnd : Token) : List Token :=
  match s.phase with
  | .awaiting _ => [Token.before c.closeKind atEnd, Token.before c.openKind atEnd]
  | _ => []

/-- Number of blocks that the end of the input closes. -/
def unclosed (c : Config) (s : State) : Nat :=
  (openColumns c s.output.reverse).length + if c.closeTopLevel then 1 else 0

theorem finish_output {c : Config} {s : State} (h : Tracks c s) (atEnd : Token) :
    (s.finish c atEnd).output =
      atEnd :: (List.replicate (s.unclosed c) (Token.before c.closeKind atEnd) ++
        s.emptyBlock c atEnd ++ s.output) := by
  have hinner : (openColumns c s.output.reverse).filter
      (fun column => column > topLevel || c.closeTopLevel) = openColumns c s.output.reverse :=
    List.filter_eq_self.mpr fun column hcolumn => by simp [h.topLevel_lt column hcolumn]
  have hlength : (s.blocks.columns.filter
      fun column => column > topLevel || c.closeTopLevel).length = s.unclosed c := by
    rw [h.columns, List.filter_append, hinner, List.length_append, unclosed]
    cases c.closeTopLevel <;> simp
  cases hphase : s.phase <;>
    simp only [finish, emptyBlock, hphase, List.map_const', hlength, List.cons_append]

@[simp] theorem finish_warnings (c : Config) (s : State) (atEnd : Token) :
    (s.finish c atEnd).warnings = s.warnings := rfl

/-- An empty block opens and closes. -/
theorem emptyBlock_bracketed {c : Config} (hc : c.Distinct) {s : State} (atEnd : Token)
    (h : Bracketed c s.output) :
    Bracketed c (s.emptyBlock c atEnd ++ s.output) ∧
      openColumns c (s.emptyBlock c atEnd ++ s.output).reverse =
        openColumns c s.output.reverse := by
  unfold emptyBlock
  split
  · simp only [List.cons_append, List.nil_append, Bracketed, openColumns_reverse_cons, track_open,
      track_close hc, List.tail_cons, and_true]
    exact ⟨fun _ => by simp, fun hclosing =>
      absurd hclosing (not_isClosing_of_isOpening hc (isOpening_before c atEnd)), h⟩
  · exact ⟨h, rfl⟩

theorem finish_bracketed {c : Config} (hc : c.Distinct) (hclose : c.closeTopLevel = false)
    {s : State} {atEnd : Token} (hreal : atEnd.virtual = false) (h : Tracks c s) :
    Bracketed c (s.finish c atEnd).output ∧
      openColumns c (s.finish c atEnd).output.reverse = [] := by
  obtain ⟨hempty, hcolumns⟩ := emptyBlock_bracketed hc atEnd h.bracketed
  have hunclosed :
      s.unclosed c = (openColumns c (s.emptyBlock c atEnd ++ s.output).reverse).length := by
    rw [hcolumns, unclosed, hclose]
    rfl
  obtain ⟨hcloses, hnone⟩ := hempty.closes hc atEnd (s.unclosed c) (Nat.le_of_eq hunclosed)
  rw [finish_output h, List.append_assoc]
  refine ⟨hcloses.cons_real hreal, ?_⟩
  rw [openColumns_reverse_cons, track_real hreal, hnone, hunclosed, List.drop_length]

end State

/-- Only the end of the input looks at whether the outermost block is closed. -/
theorem run_withCloseTopLevel (c : Config) (close : Bool) (m : Margins) (s : State)
    (tokens : List Token) : s.run (c.withCloseTopLevel close) m tokens = s.run c m tokens := rfl

/-- Real tokens that reach an end and do not lie left of the outermost block resolve to a balanced
stream, if the outermost block is not closed. Closing it adds one delimiter right before the end
and nothing else. -/
theorem resolve_balanced (c : Config) (hc : c.Distinct) (m : Margins) (tokens : List Token)
    (hreal : ∀ t ∈ tokens, t.virtual = false) (hend : ∃ t ∈ tokens, t.isEnd = true)
    (hcode : ∀ t ∈ tokens, t.code = true → -1 ≤ t.column ∧ m.Covers t.line) :
    ∃ inner outer body atEnd,
      resolve (c.withCloseTopLevel false) m tokens = .ok inner ∧
      resolve (c.withCloseTopLevel true) m tokens = .ok outer ∧
      Balanced c inner.tokens ∧
      tokens.find? (·.isEnd) = some atEnd ∧
      inner.tokens = body ++ [atEnd] ∧
      outer.tokens = body ++ [Token.before c.closeKind atEnd, atEnd] ∧
      outer.warnings = inner.warnings := by
  obtain ⟨atEnd, hfind⟩ := Option.isSome_iff_exists.mp (List.find?_isSome.mpr hend)
  obtain ⟨hatEnd, front, rest, rfl, hfront⟩ := List.find?_eq_some_iff_append.mp hfind
  have hfront : ∀ t ∈ front, t.isEnd = false := fun t ht => by simpa using hfront t ht
  obtain ⟨s, hrun⟩ := State.initial.run_of_covers c fun t ht hcodes =>
    (hcode t (List.mem_append_left (atEnd :: rest) ht) hcodes).2
  have hdistinct (close : Bool) : (c.withCloseTopLevel close).Distinct :=
    ⟨hc.open_ne_separator, hc.open_ne_close, hc.separator_ne_close⟩
  have htracks (close : Bool) : Tracks (c.withCloseTopLevel close) s :=
    (Tracks.initial _).run (hdistinct close)
      (fun t ht => hreal t (List.mem_append_left _ ht))
      (fun t ht hcodes => (hcode t (List.mem_append_left _ ht) hcodes).1) hrun
  obtain ⟨hbracketed, hopen⟩ := State.finish_bracketed (hdistinct false) rfl
    (hreal atEnd (by simp)) (htracks false)
  have hbalanced := hbracketed.balanced (hdistinct false) hopen
  have hinner := resolve_append (c.withCloseTopLevel false) m rest hfront hatEnd
  have houter := resolve_append (c.withCloseTopLevel true) m rest hfront hatEnd
  rw [run_withCloseTopLevel, hrun, Except.map] at hinner houter
  refine ⟨_, _, s.output.reverse ++ (s.emptyBlock c atEnd).reverse ++
    List.replicate (openColumns c s.output.reverse).length (Token.before c.closeKind atEnd), atEnd,
    hinner, houter, ⟨hbalanced.nested, hbalanced.complete⟩, hfind, ?_, ?_, rfl⟩
  · have houtput : (s.finish (c.withCloseTopLevel false) atEnd).output =
        atEnd :: (List.replicate (openColumns c s.output.reverse).length
          (Token.before c.closeKind atEnd) ++ s.emptyBlock c atEnd ++ s.output) :=
      State.finish_output (htracks false) atEnd
    rw [Resolution.ofState, houtput]
    simp
  · have houtput : (s.finish (c.withCloseTopLevel true) atEnd).output =
        atEnd :: (List.replicate ((openColumns c s.output.reverse).length + 1)
          (Token.before c.closeKind atEnd) ++ s.emptyBlock c atEnd ++ s.output) :=
      State.finish_output (htracks true) atEnd
    rw [Resolution.ofState, houtput, List.replicate_succ]
    simp

/-- A block of two lines as it is placed. -/
def twoLines : List Token :=
  [⟨some (.keyword .doK), 0, 2, 0, 0, true, false⟩, ⟨some .variableId, 3, 4, 3, 0, true, false⟩,
    ⟨some .newline, 4, 5, 4, 0, false, false⟩, ⟨some .variableId, 5, 6, 0, 1, true, false⟩,
    ⟨none, 6, 6, 1, 1, false, false⟩]

theorem resolve_balanced_twoLines :
    ∃ inner outer body atEnd,
      resolve (Config.haskell.withCloseTopLevel false) ⟨#[some 0, some 0]⟩ twoLines = .ok inner ∧
      resolve (Config.haskell.withCloseTopLevel true) ⟨#[some 0, some 0]⟩ twoLines = .ok outer ∧
      Balanced .haskell inner.tokens ∧
      twoLines.find? (·.isEnd) = some atEnd ∧
      inner.tokens = body ++ [atEnd] ∧
      outer.tokens = body ++ [Token.before .virtualRightBrace atEnd, atEnd] ∧
      outer.warnings = inner.warnings :=
  resolve_balanced .haskell ⟨by decide, by decide, by decide⟩ ⟨#[some 0, some 0]⟩ twoLines
    (by decide) (by decide) (by decide)

end OffsideRule.Layout
