import OffsideRule.Proofs.Spans

/-! Positions in a source. A position that tells the line and the column of its offset leads, by one
character of the source after the other, to positions that do the same. So all positions of a lexer
are right, also where it is stopped within a lexeme and run again from there. -/

namespace OffsideRule

/-- `i` is the index of the last line feed before an offset, or -1 if there is none. -/
structure Text.LastFeed (s : Text) (p : Nat) (i : Int) : Prop where
  feed : i = -1 ∨ ∃ k : Nat, i = k ∧ k < p ∧ s[k]? = some '\n'
  last : ∀ k : Nat, k < p → s[k]? = some '\n' → (k : Int) ≤ i

/-- The position tells the line and the column of its offset in a source. -/
structure Position.Locates (p : Position) (source : Text) : Prop where
  offset_le : p.offset ≤ source.length
  line : p.line = 1 + Text.lineFeeds (source.take p.offset)
  column : ∃ feed, source.LastFeed p.offset feed ∧ (p.column : Int) = p.offset - feed

/-- Both ends of a token are located in a source, and its text is what stands between them. -/
structure Token.LiesIn (t : Token) (source : Text) : Prop where
  start : t.start.Locates source
  stop : t.stop.Locates source
  ordered : t.start.offset ≤ t.stop.offset
  text : t.text = source.slice t.start.offset t.stop.offset

/-- A cursor is located in a source, and what is left to read is what stands behind it. -/
structure Cursor.LiesIn (c : Cursor) (source : Text) : Prop where
  position : c.position.Locates source
  rest : c.rest = source.drop c.position.offset

namespace Text.LastFeed

variable {s : Text} {p : Nat} {i : Int}

theorem behind_feed (h : s[p]? = some '\n') : s.LastFeed (p + 1) p where
  feed := Or.inr ⟨p, rfl, Nat.lt_succ_self p, h⟩
  last := fun k hk _ => by omega

theorem behind_other {c : Char} (h : s.LastFeed p i) (hc : s[p]? = some c) (hfeed : c ≠ '\n') :
    s.LastFeed (p + 1) i where
  feed := h.feed.imp_right fun ⟨k, hi, hk, hs⟩ => ⟨k, hi, by omega, hs⟩
  last := by
    intro k hk hs
    rcases Nat.lt_or_eq_of_le (Nat.le_of_lt_succ hk) with hk | rfl
    · exact h.last k hk hs
    · rw [hc, Option.some.injEq] at hs
      exact absurd hs hfeed

end Text.LastFeed

namespace Position.Locates

variable {p : Position} {source w rest : Text}

theorem origin (source : Text) : Position.origin.Locates source where
  offset_le := Nat.zero_le _
  line := rfl
  column := ⟨-1, ⟨Or.inl rfl, fun k hk => absurd hk (Nat.not_lt_zero k)⟩, rfl⟩

/-- One more character of the source leads to a position that is right again. -/
theorem next {c : Char} (h : p.Locates source) (hc : source[p.offset]? = some c) :
    (p.next c).Locates source := by
  obtain ⟨hlength, -⟩ := List.getElem?_eq_some_iff.mp hc
  have htake : source.take (p.offset + 1) = source.take p.offset ++ [c] := by
    rw [List.take_add_one, hc]
    rfl
  obtain ⟨feed, hfeed, hcolumn⟩ := h.column
  have hline := h.line
  unfold Position.next
  by_cases hbreak : c = '\n'
  · rw [if_pos hbreak]
    rw [hbreak] at hc htake
    refine ⟨hlength, ?_, p.offset, .behind_feed hc, by simp only; omega⟩
    simp only [htake, Text.lineFeeds, List.count_append, List.count_singleton_self] at hline ⊢
    omega
  · rw [if_neg hbreak]
    refine ⟨hlength, ?_, feed, hfeed.behind_other hc hbreak, by simp only; omega⟩
    simpa [htake, Text.lineFeeds, List.count_append, List.count_singleton, hbreak] using hline

/-- So does a piece of the source. -/
theorem advance (h : p.Locates source) (hw : source.drop p.offset = w ++ rest) :
    (p.advance w).Locates source := by
  induction w generalizing p with
  | nil => exact h
  | cons c more ih =>
    have hc : source[p.offset]? = some c := by
      rw [← List.head?_drop, hw]
      rfl
    apply ih (h.next hc)
    rw [offset_next, ← List.drop_drop, hw]
    rfl

end Position.Locates

namespace Cursor.LiesIn

variable {c c' : Cursor} {source : Text} {tokens : List Token}

theorem start (source : Text) : (Cursor.start source).LiesIn source where
  position := .origin source
  rest := rfl

theorem move (h : c.LiesIn source) (n : Nat) : (c.move n).LiesIn source where
  position := by
    apply h.position.advance
    rw [← h.rest]
    exact (List.take_append_drop n c.rest).symm
  rest := by
    rw [Cursor.move, Position.offset_advance, ← List.drop_drop, ← h.rest, List.length_take]
    rcases Nat.le_total n c.rest.length with hn | hn
    · rw [Nat.min_eq_left hn]
    · rw [Nat.min_eq_right hn, List.drop_length, List.drop_of_length_le hn]

theorem token (h : c.LiesIn source) (lx : Lexeme) : (c.token lx).LiesIn source where
  start := h.position
  stop := (h.move lx.length).position
  ordered := by
    rw [Cursor.token, Cursor.move, Position.offset_advance]
    exact Nat.le_add_right _ _
  text := by
    have hstop := (h.move lx.length).position.offset_le
    simp only [Cursor.token, Cursor.move, Position.offset_advance] at hstop ⊢
    rw [Text.slice_natCast (Nat.le_add_right _ _) hstop, Nat.add_sub_cancel_left, ← h.rest,
      List.length_take, ← List.take_eq_take_min]

theorem reads (h : c.LiesIn source) (hreads : Reads c tokens c') : c'.LiesIn source := by
  induction hreads with
  | refl c => exact h
  | step _ _ ih => exact ih (h.move _)

theorem reads_tokens (h : c.LiesIn source) (hreads : Reads c tokens c') :
    ∀ t ∈ tokens, t.LiesIn source := by
  induction hreads with
  | refl c => simp
  | @step c c' lx more _ _ ih =>
    intro t ht
    rcases List.mem_cons.mp ht with rfl | ht
    · exact h.token lx
    · exact ih (h.move _) t ht

theorem ending (h : c.LiesIn source) : (Token.ending c.position).LiesIn source where
  start := h.position
  stop := h.position
  ordered := Nat.le_refl _
  text := (Text.slice_self source _).symm

end Cursor.LiesIn

section

variable {source : Text} {tokens : List Token} {c : Cursor}

/-- What is read of a source is located in it, and so is the place that is read up to. -/
theorem Reads.liesIn (h : Reads (.start source) tokens c) : c.LiesIn source :=
  (Cursor.LiesIn.start source).reads h

theorem Reads.tokens_lieIn (h : Reads (.start source) tokens c) : ∀ t ∈ tokens, t.LiesIn source :=
  (Cursor.LiesIn.start source).reads_tokens h

end

/-- A pass reads tokens, and then ends with the text or stops at a problem. -/
theorem Pass.run_cases (c : Cursor) :
    ∃ tokens c', Reads c tokens c' ∧
      (run c = ⟨tokens ++ [.ending c'.position], c', none⟩ ∨
        ∃ o : Obstacle, run c = ⟨tokens, c'.move o.length, some (o.problem, c'.position)⟩) := by
  obtain ⟨tokens, c', hreads, hhalts⟩ := exists_reads c
  have hrun := run_of_reads hreads
  refine ⟨tokens, c', hreads, ?_⟩
  rcases hhalts with hend | ⟨o, herror⟩
  · left
    rw [hrun, run_of_nil hend]
  · right
    rw [run_of_error herror, List.append_nil] at hrun
    exact ⟨o, hrun⟩

namespace Lexer

/-- The lexer behind a number of runs, whatever they report. -/
def runs (l : Lexer) : Nat → Lexer
  | 0 => l
  | n + 1 => (l.runs n).run.2

/-- All that a lexer has read of a source is located there, one token behind the other, and so is
the place where it goes on. -/
structure Located (source : Text) (l : Lexer) : Prop where
  cursor : l.cursor.LiesIn source
  tokens : ∀ t ∈ l.tokens, t.LiesIn source
  ordered : l.tokens.Pairwise fun a b => a.stop.offset ≤ b.start.offset
  behind : ∀ t ∈ l.tokens, t.stop.offset ≤ l.cursor.position.offset

namespace Located

variable {source : Text} {l : Lexer}

theorem start (source : Text) : Located source (Lexer.start source) where
  cursor := .start source
  tokens := by simp [Lexer.start]
  ordered := List.Pairwise.nil
  behind := by simp [Lexer.start]

theorem take {tokens : List Token} {c : Cursor} (h : Located source l)
    (hreads : Reads l.cursor tokens c) :
    Located source { l with cursor := c, tokens := l.tokens ++ tokens } where
  cursor := h.cursor.reads hreads
  tokens := fun t ht => (List.mem_append.mp ht).elim (h.tokens t) (h.cursor.reads_tokens hreads t)
  ordered := by
    refine List.pairwise_append.mpr ⟨h.ordered, hreads.tiles.ordered, fun a ha b hb => ?_⟩
    exact Nat.le_trans (h.behind a ha) (hreads.tiles.offset_le b hb)
  behind := by
    intro t ht
    rcases List.mem_append.mp ht with ht | ht
    · exact Nat.le_trans (h.behind t ht) hreads.tiles.offset_mono
    · exact hreads.tiles.stop_le t ht

theorem finish (h : Located source l) :
    Located source { l with tokens := l.tokens ++ [.ending l.cursor.position] } where
  cursor := h.cursor
  tokens := by
    intro t ht
    rcases List.mem_append.mp ht with ht | ht
    · exact h.tokens t ht
    · exact List.mem_singleton.mp ht ▸ h.cursor.ending
  ordered := by
    refine List.pairwise_append.mpr ⟨h.ordered, List.pairwise_singleton _ _, fun a ha b hb => ?_⟩
    exact List.mem_singleton.mp hb ▸ h.behind a ha
  behind := by
    intro t ht
    rcases List.mem_append.mp ht with ht | ht
    · exact h.behind t ht
    · rw [List.mem_singleton.mp ht]
      exact Nat.le_refl _

theorem move (h : Located source l) (n : Nat) :
    Located source { l with cursor := l.cursor.move n } where
  cursor := h.cursor.move n
  tokens := h.tokens
  ordered := h.ordered
  behind := by
    intro t ht
    rw [Cursor.move, Position.offset_advance]
    exact Nat.le_trans (h.behind t ht) (Nat.le_add_right _ _)

/-- A run keeps all located, and locates the fault that it reports. -/
theorem run (h : Located source l) :
    Located source l.run.2 ∧ ∀ f, l.run.1 = some f → f.position.Locates source := by
  obtain ⟨tokens, c, hreads, hrun | ⟨o, hrun⟩⟩ := Pass.run_cases l.cursor
  · rw [Lexer.run, hrun]
    refine ⟨?_, by simp⟩
    rw [← List.append_assoc]
    exact (h.take hreads).finish
  · rw [Lexer.run, hrun]
    refine ⟨(h.take hreads).move o.length, fun f hf => ?_⟩
    cases hf
    exact (h.cursor.reads hreads).position

theorem runs (h : Located source l) (n : Nat) : Located source (l.runs n) := by
  induction n with
  | zero => exact h
  | succ n ih => exact ih.run.1

end Located

/-- Behind any number of runs over a source, whether they succeeded or not, the place where the
lexer goes on, both ends of each of its tokens, the fault that the next run reports and all places
that this run gets to have the line and the column of their offsets; each token has the text of its
span, and the spans lie one behind the other. -/
theorem runs_located (source : Text) (n : Nat) :
    Located source ((start source).runs n) ∧
    (∀ f, ((start source).runs n).run.1 = some f → f.position.Locates source) ∧
    ∀ tokens c, Reads ((start source).runs n).cursor tokens c →
      ∀ k, (c.move k).position.Locates source := by
  have hlocated : Located source ((start source).runs n) := (Located.start source).runs n
  refine ⟨hlocated, hlocated.run.2, fun tokens c hreads k => ?_⟩
  exact ((hlocated.cursor.reads hreads).move k).position

/-- A string that is open behind an escaped line feed, and an open character on the line below. -/
def reopened : Text :=
  "\"a\\\nb\ny '".toList

/-- The second run goes on within the string, on the second line, and is stopped on the third. -/
theorem runs_located_reopened :
    ((start reopened).runs 1).cursor.position = ⟨2, 2, 5⟩ ∧
    (∃ f, ((start reopened).runs 1).run.1 = some f ∧ f.position = ⟨3, 3, 8⟩ ∧
      f.position.Locates reopened) ∧
    (∀ k, (((start reopened).runs 1).cursor.move k).position.Locates reopened) ∧
    ((start reopened).runs 2).tokens.length = 3 ∧ Located reopened ((start reopened).runs 2) := by
  obtain ⟨-, hfault, hplaces⟩ := runs_located reopened 1
  obtain ⟨hlocated, -⟩ := runs_located reopened 2
  have hreport : ((start reopened).runs 1).run.1 =
      some ⟨.openCharacter, ⟨3, 3, 8⟩, reopened⟩ := by decide +kernel
  exact ⟨by decide +kernel, ⟨_, hreport, rfl, hfault _ hreport⟩, hplaces [] _ (.refl _),
    by decide +kernel, hlocated⟩

end Lexer

end OffsideRule
