import Mathlib.Data.List.Forall2
import OffsideRule.Proofs.Lossless
import OffsideRule.Proofs.Relocation
import OffsideRule.Proofs.Returns
import OffsideRule.Proofs.Sources

/-! Line ends. If a carriage return is put before every line feed of a source, the same tokens are
read at the same lines and columns, and layout resolves them alike. Only offsets change, each by the
number of line feeds before it. -/

namespace OffsideRule

/-- Where a position lies once a carriage return stands before every line feed. -/
def Position.addReturns (p : Position) : Position :=
  { p with offset := p.offset + (p.line - 1) }

def Token.addReturns (t : Token) : Token :=
  ⟨t.kind, Text.addReturns t.text, t.start.addReturns, t.stop.addReturns⟩

def Cursor.addReturns (c : Cursor) : Cursor :=
  ⟨c.position.addReturns, Text.addReturns c.rest⟩

theorem Position.advance_addReturns {p : Position} (hp : 1 ≤ p.line) (w : Text) :
    p.addReturns.advance (Text.addReturns w) = (p.advance w).addReturns := by
  induction w generalizing p with
  | nil => rfl
  | cons c rest ih =>
    have hcons (p : Position) (c : Char) (rest : Text) :
        p.advance (c :: rest) = (p.next c).advance rest := rfl
    by_cases hc : c = '\n'
    · subst hc
      have hnext : (p.addReturns.next '\r').next '\n' = (p.next '\n').addReturns := by
        simp [next, addReturns]
        omega
      rw [Text.addReturns_lineFeed, hcons, hcons, hcons, hnext]
      exact ih (Nat.le_add_left 1 p.line)
    · have hnext : p.addReturns.next c = (p.next c).addReturns := by
        simp [next, addReturns, hc]
        omega
      have hline : (p.next c).line = p.line := by simp [next, hc]
      rw [Text.addReturns_cons hc, hcons, hcons, hnext]
      exact ih (hline.symm ▸ hp)

namespace Cursor

theorem take_addReturns (c : Cursor) (n : Nat) :
    c.addReturns.rest.take (Text.addReturns (c.rest.take n)).length =
      Text.addReturns (c.rest.take n) := by
  have hsplit := Text.addReturns_append (c.rest.take n) (c.rest.drop n)
  rw [List.take_append_drop] at hsplit
  rw [addReturns, hsplit, List.take_left]

theorem drop_addReturns (c : Cursor) (n : Nat) :
    c.addReturns.rest.drop (Text.addReturns (c.rest.take n)).length =
      Text.addReturns (c.rest.drop n) := by
  have hsplit := Text.addReturns_append (c.rest.take n) (c.rest.drop n)
  rw [List.take_append_drop] at hsplit
  rw [addReturns, hsplit, List.drop_left]

theorem move_addReturns {c : Cursor} (hline : 1 ≤ c.position.line) (n : Nat) :
    c.addReturns.move (Text.addReturns (c.rest.take n)).length = (c.move n).addReturns := by
  rw [move, take_addReturns, drop_addReturns, addReturns, Position.advance_addReturns hline]
  rfl

theorem token_addReturns {c : Cursor} (hline : 1 ≤ c.position.line) (lx : Lexeme) :
    c.addReturns.token ⟨lx.kind, (Text.addReturns (c.rest.take lx.length)).length⟩ =
      (c.token lx).addReturns := by
  rw [token, move_addReturns hline, take_addReturns]
  rfl

theorem line_move {c : Cursor} (hline : 1 ≤ c.position.line) (n : Nat) :
    1 ≤ (c.move n).position.line := by
  rw [move, Position.line_advance]
  exact Nat.le_trans hline (Nat.le_add_right _ _)

end Cursor

/-- A lexeme is read again, an end of line with the carriage return before it. -/
theorem Lexeme.Heads.widened {s : Text} {lx : Lexeme} (h : Heads s lx) (hreturn : '\r' ∉ s)
    (hfeed : lx.kind ≠ .newline → '\n' ∉ s.take lx.length) :
    Heads (Text.addReturns s) ⟨lx.kind, (Text.addReturns (s.take lx.length)).length⟩ := by
  by_cases hkind : lx.kind = .newline
  · rcases h.of_newline hkind with ⟨rest, rfl, hlength⟩ | ⟨rest, rfl, _⟩
    · rw [hkind, hlength]
      exact .returnLineFeed (Text.addReturns rest)
    · exact absurd List.mem_cons_self hreturn
  · rw [Text.addReturns_of_not_mem (hfeed hkind), List.length_take_of_le h.length_le]
    exact h.addReturns hreturn hkind (hfeed hkind)

namespace Reads

variable {source : Text} {c c' : Cursor} {tokens : List Token}

theorem addReturns (h : Reads c tokens c') (hline : 1 ≤ c.position.line) (hreturn : '\r' ∉ c.rest)
    (hfeed : ∀ t ∈ tokens, t.kind ≠ .newline → '\n' ∉ t.text) :
    Reads c.addReturns (tokens.map Token.addReturns) c'.addReturns := by
  induction h with
  | refl c => exact .refl _
  | @step c c' lx more hheads _ ih =>
    have hwidened := hheads.widened hreturn (hfeed _ List.mem_cons_self)
    have hmore := ih (c.line_move hline lx.length) (fun hmem => hreturn (List.mem_of_mem_drop hmem))
      fun t ht => hfeed t (List.mem_cons_of_mem _ ht)
    rw [List.map_cons, ← Cursor.token_addReturns hline]
    rw [← Cursor.move_addReturns hline] at hmore
    exact .step hwidened hmore

end Reads

/-- Carriage returns before the line feeds change no token but the ends of lines. -/
theorem tokenize_addReturns {source : Text} {tokens : List Token} (h : tokenize source = .ok tokens)
    (hreturn : '\r' ∉ source) (hfeed : ∀ t ∈ tokens, t.kind ≠ .newline → '\n' ∉ t.text) :
    tokenize (Text.addReturns source) = .ok (tokens.map Token.addReturns) := by
  obtain ⟨front, c, hreads, hend, rfl⟩ := exists_reads_of_tokenize h
  have hwide : Reads (.start (Text.addReturns source)) (front.map Token.addReturns) c.addReturns :=
    hreads.addReturns (Nat.le_refl 1) hreturn fun t ht => hfeed t (List.mem_append_left _ ht)
  have hrest : c.addReturns.rest = [] := by rw [Cursor.addReturns, hend, Text.addReturns_nil]
  rw [tokenize_of_nil hwide hrest, List.map_append]
  rfl

/-- Where an offset of a source lies once a carriage return stands before every line feed. -/
def Text.behindReturns (source : Text) (offset : Int) : Int :=
  offset + lineFeeds (source.take offset.toNat)

namespace Layout

variable {c : Config} {source : Text} {tokens : List OffsideRule.Token}

theorem offset_addReturns {p : Position} (h : p.line = 1 + Text.lineFeeds (source.take p.offset)) :
    (p.addReturns.offset : Int) = source.behindReturns p.offset := by
  have hoffset : p.addReturns.offset = p.offset + (p.line - 1) := rfl
  rw [hoffset, h, Text.behindReturns, Int.toNat_natCast]
  omega

theorem rawTokens_addReturns (h : tokenize source = .ok tokens) :
    rawTokens (tokens.map OffsideRule.Token.addReturns) =
      (rawTokens tokens).map (Raw.moved source.behindReturns) := by
  obtain ⟨front, p, hreads, _, rfl⟩ := exists_reads_of_tokenize h
  rw [List.map_append, List.map_singleton, rawTokens_concat, rawTokens_concat, List.map_map,
    List.map_map]
  apply List.map_congr_left
  intro t ht
  obtain ⟨hstart, hstop⟩ := hreads.line_of_mem t ht
  simp only [Function.comp_apply, Raw.moved, OffsideRule.Token.addReturns,
    offset_addReturns hstart, offset_addReturns hstop]

/-- Tokens without a line feed keep their widths. -/
theorem keepsWidths_behindReturns (hc : c.endOfLine = .newline) (h : tokenize source = .ok tokens)
    (hfeed : ∀ t ∈ tokens, t.kind ≠ .newline → '\n' ∉ t.text) :
    KeepsWidths c source.behindReturns (rawTokens tokens) := by
  obtain ⟨front, p, hreads, _, rfl⟩ := exists_reads_of_tokenize h
  rw [rawTokens_concat]
  intro r hr hkind
  obtain ⟨t, ht, rfl⟩ := List.mem_map.mp hr
  have hlines := hreads.lineFeeds_of_mem t ht
  have hnone : '\n' ∉ t.text :=
    hfeed t (List.mem_append_left _ ht) fun hnewline => hkind (by rw [hnewline, hc])
  rw [Text.lineFeeds, Text.lineFeeds, Text.lineFeeds, List.count_eq_zero.mpr hnone] at hlines
  simp only [Text.behindReturns, Text.lineFeeds, Int.toNat_natCast]
  omega

/-- Carriage returns before the line feeds move all that layout makes of a source, and change
nothing else. -/
theorem resolveText_moved (hc : c.Variant) (h : tokenize source = .ok tokens)
    (hreturn : '\r' ∉ source)
    (hfeed : ∀ t ∈ tokens, t.kind ≠ .newline → '\n' ∉ t.text) :
    resolveText c (Text.addReturns source) =
      (resolveText c source).map (Resolution.moved source.behindReturns) := by
  have hnewline : c.endOfLine = .newline := by
    obtain ⟨kinds, close, _, rfl⟩ := hc.shape
    rfl
  have hlength : ((Text.addReturns source).length : Int) = source.behindReturns source.length := by
    rw [Text.length_addReturns, Text.behindReturns, Int.toNat_natCast, List.take_length,
      Int.natCast_add]
  rw [resolveText_of_tokenize c (tokenize_addReturns h hreturn hfeed),
    resolveText_of_tokenize c h, Except.map, rawTokens_addReturns h, hlength,
    layOut_moved (keepsWidths_behindReturns hnewline h hfeed)]

/-- The same token on the same line in the same column. Only ends of lines may be written in another
way. -/
structure SameToken (t u : OffsideRule.Token) : Prop where
  kind : u.kind = t.kind
  line : u.start.line = t.start.line
  column : u.start.column = t.start.column
  text : t.kind ≠ .newline → u.text = t.text

/-- The same for layout, wherever it lies in the buffer. -/
structure SamePlace (t u : Token) : Prop where
  kind : u.kind = t.kind
  column : u.column = t.column
  line : u.line = t.line
  code : u.code = t.code
  virtual : u.virtual = t.virtual

/-- A source with a carriage return before every line feed is read as the same tokens and has the
same layout, unless a token other than an end of line goes over several lines. -/
theorem resolveText_addReturns (hc : c.Variant) (h : tokenize source = .ok tokens)
    (hreturn : '\r' ∉ source) (hfeed : ∀ t ∈ tokens, t.kind ≠ .newline → '\n' ∉ t.text) :
    ∃ tokens' r r', tokenize (Text.addReturns source) = .ok tokens' ∧
      List.Forall₂ SameToken tokens tokens' ∧ resolveText c source = .ok r ∧
      resolveText c (Text.addReturns source) = .ok r' ∧
      List.Forall₂ SamePlace r.tokens r'.tokens ∧ r'.warnings.length = r.warnings.length := by
  have hmoved := resolveText_moved hc h hreturn hfeed
  have hr := resolveText_of_tokenize c h
  rw [hr, Except.map] at hmoved
  refine ⟨_, _, _, tokenize_addReturns h hreturn hfeed, ?_, hr, hmoved, ?_, List.length_map _⟩
  · rw [List.forall₂_map_right_iff, List.forall₂_same]
    exact fun t ht => ⟨rfl, rfl, rfl, fun hkind => Text.addReturns_of_not_mem (hfeed t ht hkind)⟩
  · rw [Resolution.moved, List.forall₂_map_right_iff, List.forall₂_same]
    exact fun t _ => ⟨rfl, rfl, rfl, rfl, rfl⟩

/-- Two items, a comment between them, and a block that is closed by the last line. -/
def fourLines : Text :=
  "f = do -- note\n  x\n  y\nz".toList

theorem resolveText_addReturns_fourLines :
    ∃ tokens tokens' r r', tokenize fourLines = .ok tokens ∧ '\r' ∉ fourLines ∧
      (∀ t ∈ tokens, t.kind ≠ .newline → '\n' ∉ t.text) ∧
      tokenize "f = do -- note\r\n  x\r\n  y\r\nz".toList = .ok tokens' ∧
      List.Forall₂ SameToken tokens tokens' ∧ resolveText .haskell fourLines = .ok r ∧
      resolveText .haskell "f = do -- note\r\n  x\r\n  y\r\nz".toList = .ok r' ∧
      List.Forall₂ SamePlace r.tokens r'.tokens ∧ r'.warnings.length = r.warnings.length := by
  have h : tokenize fourLines = .ok _ := tokenize_of_problem (by decide +kernel)
  have hreturn : '\r' ∉ fourLines := by decide +kernel
  have hfeed : ∀ t ∈ (Pass.run (.start fourLines)).tokens, t.kind ≠ .newline → '\n' ∉ t.text := by
    decide +kernel
  have hwide : Text.addReturns fourLines = "f = do -- note\r\n  x\r\n  y\r\nz".toList := by
    decide +kernel
  obtain ⟨tokens', r, r', htokens, hsame, hr, hr', hplaces, hwarnings⟩ :=
    resolveText_addReturns .haskell h hreturn hfeed
  rw [hwide] at htokens hr'
  exact ⟨_, tokens', r, r', h, hreturn, hfeed, htokens, hsame, hr, hr', hplaces, hwarnings⟩

end Layout

end OffsideRule
