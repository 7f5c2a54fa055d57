import OffsideRule.Proofs.Splitting

/-! What a pass makes of the text at one place. At a place that its reading comes to, a pass emits
the lexeme that stands there, or it stops there. So where the lexeme is delimited, the pass
recognizes exactly the words that the scanner of the lexeme accepts. -/

namespace OffsideRule

/-- The place of an offset in a source. -/
def Cursor.ofOffset (source : Text) (p : Nat) : Cursor :=
  (Cursor.start source).move p

theorem Cursor.rest_ofOffset {source : Text} {p : Nat} {c : Char} (h : source[p]? = some c) :
    (Cursor.ofOffset source p).rest = c :: source.drop (p + 1) := by
  obtain ⟨hp, rfl⟩ := List.getElem?_eq_some_iff.mp h
  exact List.drop_eq_getElem_cons hp

namespace Pass

/-- The pass has a token of that kind and text that begins at the position `p`. -/
def Emits (pass : Pass) (p : Position) (kind : Kind) (w : Text) : Prop :=
  ⟨kind, w, p, p.advance w⟩ ∈ pass.tokens

instance (pass : Pass) (p : Position) (kind : Kind) (w : Text) : Decidable (pass.Emits p kind w) :=
  inferInstanceAs (Decidable (_ ∈ pass.tokens))

/-- The pass is stopped at the position `p` by a problem with that message. -/
def StopsAt (pass : Pass) (p : Position) (message : String) : Prop :=
  ∃ problem, pass.problem = some (problem, p) ∧ problem.message = message

/-- At a cursor, a pass recognizes a form of words by a kind of token. `Form w rest` says that `w`
has the form where `rest` follows it. At most one front of the text has the form; if there is one,
it is the token, and if there is none, the pass stops with the message. -/
structure Recognizes (pass : Pass) (c : Cursor) (kind : Kind) (message : String)
    (Form : Text → Text → Prop) : Prop where
  emits_iff : ∀ w, pass.Emits c.position kind w ↔ ∃ rest, c.rest = w ++ rest ∧ Form w rest
  unique : ∀ w rest w' rest', c.rest = w ++ rest → Form w rest →
    c.rest = w' ++ rest' → Form w' rest' → w = w'
  stops : (∀ w rest, c.rest = w ++ rest → ¬ Form w rest) → pass.StopsAt c.position message

/-- The tokens of a pass begin at its cursor at the earliest. -/
theorem offset_le_of_mem {c : Cursor} {t : Token} (ht : t ∈ (run c).tokens) :
    c.position.offset ≤ t.start.offset := by
  obtain ⟨tokens, c', hreads, hhalts⟩ := exists_reads c
  rw [run_of_reads hreads] at ht
  rcases List.mem_append.mp ht with ht | ht
  · exact hreads.tiles.offset_le t ht
  · rw [eq_ending_of_halts hhalts ht]
    exact hreads.tiles.offset_mono

end Pass

namespace Reads

variable {start c : Cursor} {front : List Token} {kind : Kind} {w : Text}

/-- A token that begins at the cursor is none of those that were read before. -/
theorem emits_iff_run (h : Reads start front c) :
    (Pass.run start).Emits c.position kind w ↔ (Pass.run c).Emits c.position kind w := by
  have hfront : ∀ t ∈ front, t.start ≠ c.position := by
    intro t ht heq
    have hstart := h.tiles.start_lt_stop t ht
    have hstop := h.tiles.stop_le t ht
    rw [heq] at hstart
    omega
  rw [Pass.Emits, Pass.run_of_reads h, List.mem_append]
  exact ⟨fun ht => ht.resolve_left fun ht => hfront _ ht rfl, Or.inr⟩

/-- The token at a cursor is the lexeme that stands there. -/
theorem emits_iff (h : Reads start front c) (hrest : c.rest ≠ []) :
    (Pass.run start).Emits c.position kind w ↔
      ∃ lx, Lexeme.read c.rest = .ok lx ∧ kind = lx.kind ∧ w = c.rest.take lx.length := by
  rw [h.emits_iff_run]
  rcases Pass.turn hrest with ⟨o, herror, hrun⟩ | ⟨lx, hread, hpos, hle, hrun⟩
  · simp [Pass.Emits, hrun, herror]
  · have hmore : ∀ t ∈ (Pass.run (c.move lx.length)).tokens, t.start ≠ c.position := by
      intro t ht heq
      have hoffset := Pass.offset_le_of_mem ht
      rw [heq, Cursor.move, Position.offset_advance, List.length_take_of_le hle] at hoffset
      omega
    rw [Pass.Emits, hrun, Pass.cons, List.mem_cons, or_iff_left fun ht => hmore _ ht rfl, hread]
    constructor
    · intro ht
      obtain ⟨hkind, htext, -, -⟩ := Token.mk.inj ht
      exact ⟨lx, rfl, hkind, htext⟩
    · rintro ⟨_, hlx, rfl, rfl⟩
      cases hlx
      rfl

theorem stopsAt {o : Obstacle} (h : Reads start front c) (herror : Lexeme.read c.rest = .error o) :
    (Pass.run start).StopsAt c.position o.problem.message := by
  refine ⟨o.problem, ?_, rfl⟩
  rw [Pass.run_of_reads h, Pass.run_of_error herror]

/-- A pass recognizes what the scanner of a delimited lexeme accepts. -/
theorem recognizes {problem : Problem} {e : Extent} {Form : Text → Text → Prop}
    (h : Reads start front c) (hrest : c.rest ≠ [])
    (hread : Lexeme.read c.rest = Lexeme.delimited kind problem e)
    (hsound : e.closed = true → ∃ w rest, c.rest = w ++ rest ∧ Form w rest)
    (hcomplete : ∀ w rest, c.rest = w ++ rest → Form w rest → e = ⟨w.length, true⟩) :
    (Pass.run start).Recognizes c kind problem.message Form where
  emits_iff := by
    intro w
    rw [h.emits_iff hrest, hread]
    constructor
    · rintro ⟨lx, hlx, -, rfl⟩
      obtain ⟨hclosed, rfl⟩ := Lexeme.delimited_eq_ok_iff.mp hlx
      obtain ⟨w, rest, hw, hform⟩ := hsound hclosed
      simp only [hcomplete w rest hw hform]
      rw [hw, List.take_left]
      exact ⟨rest, rfl, hform⟩
    · rintro ⟨rest, hw, hform⟩
      have he := hcomplete w rest hw hform
      exact ⟨⟨kind, w.length⟩, Lexeme.delimited_eq_ok_iff.mpr (by simp [he]), rfl,
        by rw [hw, List.take_left]⟩
  unique := by
    intro w rest w' rest' hw hform hw' hform'
    have hlength : w.length = w'.length := by
      have he := (hcomplete w rest hw hform).symm.trans (hcomplete w' rest' hw' hform')
      exact congrArg Extent.length he
    exact (List.append_inj (hw.symm.trans hw') hlength).1
  stops := by
    intro hnone
    have hopen : ¬ e.closed = true := by
      intro hclosed
      obtain ⟨w, rest, hw, hform⟩ := hsound hclosed
      exact hnone w rest hw hform
    have herror : Lexeme.read c.rest = .error ⟨problem, e.length⟩ := by
      rw [hread, Lexeme.delimited, if_neg hopen]
    exact h.stopsAt herror

/-- Reading a source comes to the place of its offset. -/
theorem eq_ofOffset {source : Text} (h : Reads (.start source) front c) :
    c = .ofOffset source c.position.offset := by
  have hsource : source = front.flatMap Token.text ++ c.rest := h.rest_eq
  have htake : source.take c.position.offset = front.flatMap Token.text := by
    rw [h.offset_eq, hsource, List.take_left' rfl]
  obtain ⟨position, rest⟩ := c
  have hposition : position = _ := h.position_eq
  have hrest : rest = _ := h.rest_eq_drop
  simp only at htake
  rw [Cursor.ofOffset, Cursor.move, Cursor.start, htake, hrest]
  rw [hposition]
  rfl

end Reads

theorem Boundary.reads_ofOffset {source : Text} {p : Nat} (h : Boundary source p) :
    ∃ front, Reads (.start source) front (.ofOffset source p) := by
  obtain ⟨front, c, _, _, hfront, _, _, rfl⟩ := h.reads
  exact ⟨front, hfront.eq_ofOffset ▸ hfront⟩

end OffsideRule
