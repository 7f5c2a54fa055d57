import OffsideRule.Proofs.Histories

/-! The two ways to count lines and columns. A position counts line feeds and characters, a placed
token counts the ends of lines before it and the widths of the tokens since then. The lines differ
by the line feeds within tokens that end no line, the columns only behind such a token. -/

namespace OffsideRule

/-- A token of a source together with the one that layout places for it. -/
abbrev Pair := Token × Layout.Token

/-- Line feeds within tokens that end no line. -/
def innerFeeds (tokens : List Token) : Nat :=
  Text.lineFeeds ((tokens.filter (·.kind ≠ .newline)).flatMap Token.text)

/-- Offset behind the last end of line, 0 if there is none. -/
def behindNewline (tokens : List Token) : Nat :=
  ((tokens.filter (·.kind = .newline)).getLast?.map (·.stop.offset)).getD 0

/-- How a placed line and column follow from the position `p` at which they are counted, and from
the pairs before it. -/
structure Agree (before : List Pair) (p : Position) (line column : Int) : Prop where
  line_eq : line = p.line - 1 - innerFeeds (before.map Prod.fst)
  column_eq : column = p.offset - behindNewline (before.map Prod.fst)
  aligned : (∀ q ∈ before, q.2.line = line → q.1.kind ≠ .newline → '\n' ∉ q.1.text) →
    column = p.column - 1

theorem Position.column_advance (p : Position) {w : Text} (hw : '\n' ∉ w) :
    (p.advance w).column = p.column + w.length := by
  induction w generalizing p with
  | nil => rfl
  | cons c more ih =>
    have hc : c ≠ '\n' := fun h => hw (h ▸ List.mem_cons_self)
    have hadvance : p.advance (c :: more) = (p.next c).advance more := rfl
    rw [hadvance, ih _ fun h => hw (List.mem_cons_of_mem c h), next, if_neg hc, List.length_cons,
      Nat.add_comm more.length, Nat.add_assoc]

section Pairs

variable {before : List Pair} {t : Token} {u : Layout.Token}

theorem innerFeeds_newline (h : t.kind = .newline) :
    innerFeeds ((before ++ [(t, u)]).map Prod.fst) = innerFeeds (before.map Prod.fst) := by
  simp [innerFeeds, h]

theorem innerFeeds_other (h : t.kind ≠ .newline) :
    innerFeeds ((before ++ [(t, u)]).map Prod.fst) =
      innerFeeds (before.map Prod.fst) + Text.lineFeeds t.text := by
  simp [innerFeeds, h, Text.lineFeeds]

theorem behindNewline_newline (h : t.kind = .newline) :
    behindNewline ((before ++ [(t, u)]).map Prod.fst) = t.stop.offset := by
  simp [behindNewline, h]

theorem behindNewline_other (h : t.kind ≠ .newline) :
    behindNewline ((before ++ [(t, u)]).map Prod.fst) = behindNewline (before.map Prod.fst) := by
  simp [behindNewline, h]

end Pairs

namespace Agree

variable {before : List Pair} {p : Position} {line column : Int} {t : Token} {u : Layout.Token}

theorem origin : Agree [] .origin 0 0 where
  line_eq := rfl
  column_eq := rfl
  aligned := fun _ => rfl

/-- An end of line begins a line for both, in the first column. -/
theorem newline (h : Agree before p line column) (hkind : t.kind = .newline)
    (htext : t.text = ['\n'] ∨ t.text = ['\r', '\n']) (hstop : t.stop = p.advance t.text) :
    Agree (before ++ [(t, u)]) t.stop (line + 1) 0 := by
  have hposition : t.stop.line = p.line + 1 ∧ t.stop.column = 1 := by
    rcases htext with htext | htext <;> rw [hstop, htext] <;> exact ⟨rfl, rfl⟩
  have hline := h.line_eq
  refine ⟨?_, ?_, fun _ => ?_⟩
  · rw [innerFeeds_newline hkind]
    omega
  · rw [behindNewline_newline hkind]
    omega
  · omega

/-- Any other token moves the column by its width. Its line feeds begin lines for positions only,
and behind them the columns differ. -/
theorem other (h : Agree before p line column) (hkind : t.kind ≠ .newline) (hu : u.line = line)
    (hstop : t.stop = p.advance t.text) :
    Agree (before ++ [(t, u)]) t.stop line (column + t.text.length) := by
  have hline := h.line_eq
  have hcolumn := h.column_eq
  refine ⟨?_, ?_, fun hnone => ?_⟩
  · rw [innerFeeds_other hkind, hstop, Position.line_advance]
    omega
  · rw [behindNewline_other hkind, hstop, Position.offset_advance]
    omega
  · have haligned := h.aligned fun q hq => hnone q (List.mem_append_left _ hq)
    have hfeed : '\n' ∉ t.text := hnone (t, u) (by simp) hu hkind
    rw [hstop, p.column_advance hfeed]
    omega

end Agree

namespace Layout

open Placement

/-- The two ways agree behind a lexeme if they agree before it. -/
theorem agree_behind {c : Config} (hc : c.endOfLine = .newline) {k : Cursor} {lx : Lexeme}
    (hheads : Lexeme.Heads k.rest lx) {before : List Pair} {column : Int} {m : Margins}
    (h : Agree before k.position m.lastLine column) {r : Raw} (hr : r.kind = some lx.kind)
    (hwidth : r.stop - r.start = (k.token lx).text.length) {u : Token} (hu : u.line = m.lastLine) :
    Agree (before ++ [(k.token lx, u)]) (k.move lx.length).position
      (marginsBehind c column m r).lastLine (columnBehind c column r) := by
  rw [lastLine_marginsBehind, columnBehind, hc, hr, hwidth]
  by_cases hkind : lx.kind = .newline
  · rw [if_pos (congrArg some hkind), if_pos (congrArg some hkind)]
    exact h.newline hkind (Cursor.token_newline hheads hkind) rfl
  · have hother : some lx.kind ≠ some Kind.newline := by simpa using hkind
    rw [if_neg hother, if_neg hother]
    exact h.other hkind hu rfl

/-- Placement goes on in agreement with the positions of what is read. -/
theorem agree_run {c : Config} (hc : c.endOfLine = .newline) (bufferEnd : Int) {k k' : Cursor}
    {tokens : List OffsideRule.Token} (hreads : Reads k tokens k') {before : List Pair}
    {column : Int} {m : Margins} (h : Agree before k.position m.lastLine column) :
    ∀ front t u back,
      (tokens ++ [OffsideRule.Token.ending k'.position]).zip (run c bufferEnd column m
        (rawTokens (tokens ++ [OffsideRule.Token.ending k'.position]))).tokens =
          front ++ (t, u) :: back →
      Agree (before ++ front) t.start u.line u.column := by
  induction hreads generalizing before column m with
  | refl k =>
    intro front t u back hsplit
    cases front with
    | nil =>
      cases hsplit
      rwa [List.append_nil]
    | cons q front => simp [rawTokens, run] at hsplit
  | @step k k' lx more hheads hmore ih =>
    intro front t u back hsplit
    rw [rawTokens_concat, List.map_cons, run_cons, ← rawTokens_concat, List.cons_append,
      List.zip_cons_cons] at hsplit
    cases front with
    | nil =>
      obtain ⟨hhead, -⟩ := List.cons_eq_cons.mp hsplit
      cases hhead
      rwa [List.append_nil]
    | cons q front =>
      obtain ⟨rfl, hrest⟩ := List.cons_eq_cons.mp hsplit
      rw [← List.singleton_append, ← List.append_assoc]
      have hstop : (k.token lx).stop.offset =
          (k.token lx).start.offset + (k.token lx).text.length :=
        Position.offset_advance _ _
      refine ih (agree_behind hc hheads h rfl ?_ rfl) front t u back hrest
      simp only
      omega

/-- Line and column of each token of a source, as a position counts them, against those that layout
counts for the token with the same index, be the source taken from a stream that was started before
or not. The lines differ by the line feeds within tokens before that end no line. The layout column
counts from behind the last end of line; it is that of the position, counted from zero, unless a
token before it on its layout line holds a line feed. -/
theorem place_agrees {source : Text} {tokens : List OffsideRule.Token}
    (h : tokenize source = .ok tokens) (idle : TokenStream) (state : Int) :
    ∃ stream, idle.start { buffer := source, state := state } = (none, stream) ∧
      (place .haskell stream.remaining stream.bufferEnd).tokens.length = tokens.length ∧
      ∀ before t u after,
        tokens.zip (place .haskell stream.remaining stream.bufferEnd).tokens =
          before ++ (t, u) :: after →
        Agree before t.start u.line u.column := by
  have htext : tokenize (Start.text { buffer := source, state := state }) = .ok tokens := by
    rw [show Start.text { buffer := source, state := state } = source from source.slice_length]
    exact h
  obtain ⟨hfault, hremaining, -⟩ := started_of_ok idle rfl htext
  refine ⟨_, Prod.ext hfault rfl, ?_, ?_⟩
  · rw [hremaining]
    have hlength := congrArg List.length (run_raws .haskell
      (idle.start { buffer := source, state := state }).2.bufferEnd 0 Margins.empty.newLine
      (rawTokens tokens))
    obtain ⟨front, q, rfl, -⟩ := tokenize_tiles h
    rw [List.length_map, rawTokens_concat, List.length_append, List.length_map] at hlength
    rw [List.length_append, place, rawTokens_concat, hlength]
    rfl
  · obtain ⟨front, c, hreads, -, rfl⟩ := exists_reads_of_tokenize h
    rw [hremaining]
    exact agree_run rfl _ hreads (m := Margins.empty.newLine) .origin

/-- A comment over two lines with a name behind it, and a second line of layout. -/
def wrapped : Text :=
  "\x7b-\n-\x7dx\r\ny".toList

/-- The last name stands on the third line, and on the second line of layout. -/
theorem place_agrees_wrapped :
    ∃ tokens stream before after, tokenize wrapped = .ok tokens ∧
      TokenStream.empty.start { buffer := wrapped } = (none, stream) ∧
      tokens.zip (place .haskell stream.remaining stream.bufferEnd).tokens =
        before ++ (⟨.variableId, ['y'], ⟨3, 1, 8⟩, ⟨3, 2, 9⟩⟩,
          ⟨some .variableId, 8, 9, 0, 1, true, false⟩) :: after ∧
      Agree before ⟨3, 1, 8⟩ 1 0 := by
  have h : tokenize wrapped = .ok _ := tokenize_of_problem (by decide +kernel)
  obtain ⟨stream, hstart, -, hagree⟩ := place_agrees h .empty 0
  have hstream : stream = (TokenStream.empty.start { buffer := wrapped }).2 := by rw [hstart]
  subst hstream
  have hsplit (pairs : List Pair) : pairs = pairs.take 3 ++ pairs.drop 3 :=
    (List.take_append_drop 3 pairs).symm
  have hlast : ((Pass.run (.start wrapped)).tokens.zip (place .haskell
      (TokenStream.empty.start { buffer := wrapped }).2.remaining
      (TokenStream.empty.start { buffer := wrapped }).2.bufferEnd).tokens).drop 3 =
      [(⟨.variableId, ['y'], ⟨3, 1, 8⟩, ⟨3, 2, 9⟩⟩, ⟨some .variableId, 8, 9, 0, 1, true, false⟩),
        (.ending ⟨3, 2, 9⟩, ⟨none, 9, 9, 1, 1, false, false⟩)] := by
    decide +kernel
  have hpairs := hlast ▸ hsplit _
  exact ⟨_, _, _, _, h, hstart, hpairs, hagree _ _ _ _ hpairs⟩

end Layout

end OffsideRule
