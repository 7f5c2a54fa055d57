import Mathlib.Data.List.Chain
import OffsideRule.Proofs.Positions

/-! Nothing of a text is lost. Each turn of reading takes a token with at least one character or
halts, so reading ends, and the tokens of a text that can be read lie end to end and spell it. -/

namespace OffsideRule

/-- The tokens lie end to end from the start of a source to its end, each with the text that stands
at its place, and only the last is empty. -/
structure Lossless (source : Text) (tokens : List Token) : Prop where
  first : tokens.head?.map (·.start) = some .origin
  joined : tokens.IsChain fun a b => a.stop = b.start
  sliced : ∀ t ∈ tokens, t.text = source.slice t.start.offset t.stop.offset
  proper : ∀ t ∈ tokens.dropLast, t.text ≠ [] ∧ t.kind ≠ .endOfInput
  last : ∃ q, tokens.getLast? = some (.ending q) ∧ q.offset = source.length
  whole : tokens.flatMap Token.text = source

namespace Tiles

variable {p q : Position} {tokens : List Token}

theorem head_ending (h : Tiles p tokens q) :
    (tokens ++ [Token.ending q]).head?.map (·.start) = some p := by
  cases h <;> rfl

theorem chain_ending (h : Tiles p tokens q) :
    (tokens ++ [Token.ending q]).IsChain fun a b => a.stop = b.start := by
  induction h with
  | nil p => exact List.IsChain.singleton _
  | @cons t more q _ _ hmore ih =>
    rw [List.cons_append]
    apply ih.cons
    intro u hu
    have hhead := hmore.head_ending
    rw [hu, Option.map_some, Option.some.injEq] at hhead
    exact hhead.symm

end Tiles

namespace Reads

variable {source : Text} {tokens : List Token} {c c' : Cursor}

theorem offset_eq (h : Reads (.start source) tokens c) :
    c.position.offset = (tokens.flatMap Token.text).length := by
  rw [h.position_eq, Position.offset_advance]
  exact Nat.zero_add _

/-- The rest of the text at a cursor stands behind its offset. -/
theorem rest_eq_drop (h : Reads (.start source) tokens c) :
    c.rest = source.drop c.position.offset :=
  h.liesIn.rest

theorem offset_of_nil (h : Reads (.start source) tokens c) (hend : c.rest = []) :
    c.position.offset = source.length := by
  have hsource : source = tokens.flatMap Token.text ++ c.rest := h.rest_eq
  rw [h.offset_eq, hsource, hend, List.append_nil]

/-- The first token that is read stands at the cursor. -/
theorem head_eq {t : Token} {more : List Token} (h : Reads c (t :: more) c') :
    t.start = c.position ∧ t.stop = c.position.advance t.text ∧
      c.rest = t.text ++ (more.flatMap Token.text ++ c'.rest) := by
  refine ⟨?_, ?_, ?_⟩
  · cases h
    rfl
  · cases h
    rfl
  · rw [h.rest_eq, List.flatMap_cons, List.append_assoc]

theorem sliced (h : Reads (.start source) tokens c) :
    ∀ t ∈ tokens, t.text = source.slice t.start.offset t.stop.offset :=
  fun t ht => (h.tokens_lieIn t ht).text

/-- A place that is read up to lies on the line that the line feeds before it leave. -/
theorem line_eq (h : Reads (.start source) tokens c) :
    c.position.line = 1 + Text.lineFeeds (source.take c.position.offset) :=
  h.liesIn.position.line

theorem line_of_mem (h : Reads (.start source) tokens c) :
    ∀ t ∈ tokens, t.start.line = 1 + Text.lineFeeds (source.take t.start.offset) ∧
      t.stop.line = 1 + Text.lineFeeds (source.take t.stop.offset) :=
  fun t ht => ⟨(h.tokens_lieIn t ht).start.line, (h.tokens_lieIn t ht).stop.line⟩

/-- The lines that begin within a token begin behind its line feeds. -/
theorem lineFeeds_of_mem (h : Reads (.start source) tokens c) :
    ∀ t ∈ tokens, Text.lineFeeds (source.take t.stop.offset) =
      Text.lineFeeds (source.take t.start.offset) + Text.lineFeeds t.text := by
  intro t ht
  obtain ⟨hstart, hstop⟩ := h.line_of_mem t ht
  rw [h.tiles.stop_eq t ht, Position.line_advance, hstart, ← h.tiles.stop_eq t ht] at hstop
  omega

end Reads

/-- In each turn a pass stops at a problem, or takes a lexeme of at least one character and goes on
behind it. -/
theorem Pass.turn {c : Cursor} (h : c.rest ≠ []) :
    (∃ o, Lexeme.read c.rest = .error o ∧
      run c = ⟨[], c.move o.length, some (o.problem, c.position)⟩) ∨
    ∃ lx, Lexeme.read c.rest = .ok lx ∧ 0 < lx.length ∧ lx.length ≤ c.rest.length ∧
      run c = cons (c.token lx) (run (c.move lx.length)) := by
  cases hread : Lexeme.read c.rest with
  | error o => exact Or.inl ⟨o, rfl, run_of_error hread⟩
  | ok lx =>
    have hheads : Lexeme.Heads c.rest lx := (Lexeme.read_eq_ok_iff h).mp hread
    exact Or.inr ⟨lx, rfl, hheads.length_pos, hheads.length_le, run_of_heads hheads⟩

theorem lossless_of_reads {source : Text} {front : List Token} {c : Cursor}
    (h : Reads (.start source) front c) (hend : c.rest = []) :
    Lossless source (front ++ [.ending c.position]) where
  first := h.tiles.head_ending
  joined := h.tiles.chain_ending
  sliced := by
    intro t ht
    rcases List.mem_append.mp ht with ht | ht
    · exact h.sliced t ht
    · rw [List.mem_singleton.mp ht, Token.ending, Text.slice_self]
  proper := by
    rw [List.dropLast_concat]
    exact h.proper
  last := ⟨c.position, List.getLast?_concat, h.offset_of_nil hend⟩
  whole := by
    have hsource := h.rest_eq
    rw [hend] at hsource
    rw [List.flatMap_append]
    exact hsource.symm

/-- Each turn of reading stops at a problem or takes at least one character. So reading ends, after
at most as many tokens as there are characters, and a source is read to its end or has a fault where
reading halts. Of a source that is read to its end nothing is lost. -/
theorem tokenize_lossless (source : Text) :
    (∀ c : Cursor, c.rest ≠ [] →
      (∃ o, Lexeme.read c.rest = .error o ∧
        Pass.run c = ⟨[], c.move o.length, some (o.problem, c.position)⟩) ∨
      ∃ lx, Lexeme.read c.rest = .ok lx ∧ 0 < lx.length ∧ lx.length ≤ c.rest.length ∧
        Pass.run c = Pass.cons (c.token lx) (Pass.run (c.move lx.length))) ∧
    (∃ tokens c, Reads (.start source) tokens c ∧ tokens.length ≤ source.length ∧
      (c.rest = [] ∧ tokenize source = .ok (tokens ++ [.ending c.position]) ∨
        ∃ o, Lexeme.read c.rest = .error o ∧
          tokenize source = .error ⟨o.problem, c.position, source⟩)) ∧
    ∀ tokens, tokenize source = .ok tokens → Lossless source tokens := by
  refine ⟨fun c => Pass.turn, ?_, fun tokens h => ?_⟩
  · obtain ⟨tokens, c, hreads, hhalts⟩ := exists_reads (.start source)
    have hlength : tokens.length + c.rest.length ≤ source.length := hreads.length_le
    refine ⟨tokens, c, hreads, by omega, ?_⟩
    rcases hhalts with hend | ⟨o, herror⟩
    · exact Or.inl ⟨hend, tokenize_of_nil hreads hend⟩
    · exact Or.inr ⟨o, herror, tokenize_of_error hreads herror⟩
  · obtain ⟨front, c, hreads, hend, rfl⟩ := exists_reads_of_tokenize h
    exact lossless_of_reads hreads hend

/-- A block whose one statement is followed by a comment without an end of line. -/
def doBlock : Text :=
  "do x\r\n  -- end".toList

theorem tokenize_lossless_doBlock :
    (Cursor.start doBlock).rest ≠ [] ∧
    ((∃ o, Lexeme.read doBlock = .error o ∧ Pass.run (.start doBlock) =
        ⟨[], (Cursor.start doBlock).move o.length, some (o.problem, .origin)⟩) ∨
      ∃ lx, Lexeme.read doBlock = .ok lx ∧ 0 < lx.length ∧ lx.length ≤ doBlock.length ∧
        Pass.run (.start doBlock) = Pass.cons ((Cursor.start doBlock).token lx)
          (Pass.run ((Cursor.start doBlock).move lx.length))) ∧
    ∃ tokens, tokenize doBlock = .ok tokens ∧ Lossless doBlock tokens := by
  obtain ⟨hturn, _, hlossless⟩ := tokenize_lossless doBlock
  have hrest : (Cursor.start doBlock).rest ≠ [] := by decide
  have h : tokenize doBlock = .ok _ := tokenize_of_problem (by decide +kernel)
  exact ⟨hrest, hturn (.start doBlock) hrest, _, h, hlossless _ h⟩

end OffsideRule
