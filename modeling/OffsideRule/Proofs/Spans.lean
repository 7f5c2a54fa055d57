import Mathlib.Data.List.Induction
import OffsideRule.Layout.Stream
import OffsideRule.Proofs.Reading

/-! The spans of the tokens of a text. Reading leaves no gap: each token begins where the one before
it ended and holds at least one character. What layout takes over of a text is a list of nonempty
spans in order. -/

namespace OffsideRule

namespace Position

theorem offset_next (p : Position) (c : Char) : (p.next c).offset = p.offset + 1 := by
  unfold next
  split <;> rfl

theorem offset_advance (p : Position) (s : Text) : (p.advance s).offset = p.offset + s.length := by
  induction s generalizing p with
  | nil => rfl
  | cons c rest ih =>
    have h : p.advance (c :: rest) = (p.next c).advance rest := rfl
    rw [h, ih, offset_next, List.length_cons]
    omega

theorem advance_singleton (p : Position) (c : Char) : p.advance [c] = p.next c := rfl

theorem line_advance (p : Position) (w : Text) :
    (p.advance w).line = p.line + Text.lineFeeds w := by
  induction w generalizing p with
  | nil => rfl
  | cons c rest ih =>
    have hcons : p.advance (c :: rest) = (p.next c).advance rest := rfl
    rw [hcons, ih, next, Text.lineFeeds, Text.lineFeeds, List.count_cons]
    by_cases hc : c = '\n'
    · simp [hc]
      omega
    · simp [hc]

/-- The column counts what stands behind the last line feed. -/
theorem column_advance_origin (w : Text) :
    (origin.advance w).column = (w.reverse.takeWhile (· ≠ '\n')).length + 1 := by
  induction w using List.reverseRecOn with
  | nil => rfl
  | append_singleton w c ih =>
    rw [advance_append, advance_singleton, next, List.reverse_concat]
    by_cases hc : c = '\n'
    · simp [hc]
    · rw [if_neg hc, List.takeWhile_cons_of_pos (by simpa using hc), List.length_cons, ← ih]

end Position

/-- The tokens fill the text between two positions without gaps. -/
inductive Tiles : Position → List Token → Position → Prop
  | nil (p : Position) : Tiles p [] p
  | cons {t : Token} {more : List Token} {q : Position} :
      t.text ≠ [] → t.stop = t.start.advance t.text → Tiles t.stop more q →
      Tiles t.start (t :: more) q

namespace Tiles

theorem offset_lt {t : Token} (htext : t.text ≠ []) (hstop : t.stop = t.start.advance t.text) :
    t.start.offset < t.stop.offset := by
  have hlength := List.length_pos_iff.mpr htext
  rw [hstop, Position.offset_advance]
  omega

theorem stop_eq {p q : Position} {tokens : List Token} (h : Tiles p tokens q) :
    ∀ t ∈ tokens, t.stop = t.start.advance t.text := by
  induction h with
  | nil => simp
  | cons _ hstop _ ih =>
    intro u hu
    rcases List.mem_cons.mp hu with rfl | hu
    · exact hstop
    · exact ih u hu

theorem start_lt_stop {p q : Position} {tokens : List Token} (h : Tiles p tokens q) :
    ∀ t ∈ tokens, t.start.offset < t.stop.offset := by
  induction h with
  | nil => simp
  | cons htext hstop _ ih =>
    intro u hu
    rcases List.mem_cons.mp hu with rfl | hu
    · exact offset_lt htext hstop
    · exact ih u hu

theorem offset_le {p q : Position} {tokens : List Token} (h : Tiles p tokens q) :
    ∀ t ∈ tokens, p.offset ≤ t.start.offset := by
  induction h with
  | nil => simp
  | cons htext hstop _ ih =>
    intro u hu
    rcases List.mem_cons.mp hu with rfl | hu
    · exact Nat.le_refl _
    · have := ih u hu
      have := offset_lt htext hstop
      omega

theorem offset_mono {p q : Position} {tokens : List Token} (h : Tiles p tokens q) :
    p.offset ≤ q.offset := by
  induction h with
  | nil => exact Nat.le_refl _
  | cons htext hstop _ ih =>
    have := offset_lt htext hstop
    omega

theorem stop_le {p q : Position} {tokens : List Token} (h : Tiles p tokens q) :
    ∀ t ∈ tokens, t.stop.offset ≤ q.offset := by
  induction h with
  | nil => simp
  | cons _ _ hmore ih =>
    intro u hu
    rcases List.mem_cons.mp hu with rfl | hu
    · exact hmore.offset_mono
    · exact ih u hu

theorem ordered {p q : Position} {tokens : List Token} (h : Tiles p tokens q) :
    tokens.Pairwise fun a b => a.stop.offset ≤ b.start.offset := by
  induction h with
  | nil => exact List.Pairwise.nil
  | cons _ _ hmore ih => exact List.pairwise_cons.mpr ⟨hmore.offset_le, ih⟩

end Tiles

theorem Reads.tiles {c c' : Cursor} {tokens : List Token} (h : Reads c tokens c') :
    Tiles c.position tokens c'.position := by
  induction h with
  | refl c => exact .nil c.position
  | @step c c' lx more hheads hmore ih =>
    have htext : (c.token lx).text ≠ [] :=
      ((Reads.step hheads hmore).proper _ List.mem_cons_self).1
    exact Tiles.cons (t := c.token lx) htext rfl ih

/-- The tokens before the one at the end fill the text. -/
theorem tokenize_tiles {source : Text} {tokens : List Token} (h : tokenize source = .ok tokens) :
    ∃ front q, tokens = front ++ [.ending q] ∧ Tiles .origin front q := by
  obtain ⟨front, c, hreads, _, htokens⟩ := exists_reads_of_tokenize h
  exact ⟨front, c.position, htokens, hreads.tiles⟩

namespace Layout

/-- Raw tokens that all have a kind and a span, each behind the one before. -/
structure Ordered (raws : List Raw) : Prop where
  kinded : ∀ r ∈ raws, r.kind ≠ none
  nonempty : ∀ r ∈ raws, r.start < r.stop
  behind : raws.Pairwise fun a b => a.stop ≤ b.start

theorem rawTokens_concat (front : List OffsideRule.Token) (last : OffsideRule.Token) :
    rawTokens (front ++ [last]) =
      front.map fun t => ⟨some t.kind, t.start.offset, t.stop.offset⟩ := by
  rw [rawTokens, List.dropLast_concat]

theorem ordered_rawTokens {source : Text} {tokens : List OffsideRule.Token}
    (h : tokenize source = .ok tokens) : Ordered (rawTokens tokens) := by
  obtain ⟨front, q, rfl, htiles⟩ := tokenize_tiles h
  rw [rawTokens_concat]
  refine ⟨?_, ?_, ?_⟩
  · intro r hr
    obtain ⟨t, _, rfl⟩ := List.mem_map.mp hr
    exact Option.some_ne_none _
  · intro r hr
    obtain ⟨t, ht, rfl⟩ := List.mem_map.mp hr
    exact Int.ofNat_lt.mpr (htiles.start_lt_stop t ht)
  · exact List.pairwise_map.mpr (htiles.ordered.imp fun hab => Int.ofNat_le.mpr hab)

end Layout

end OffsideRule
