import OffsideRule.Layout.Render
import OffsideRule.Proofs.Anchors
import OffsideRule.Proofs.Lossless
import OffsideRule.Proofs.Sources

/-! The source with braces. The placed tokens of a source lie end to end. A delimiter is empty and
stands where the real token behind it begins, so the resolved tokens lie end to end too, and writing
them puts one character into the source for each delimiter, at its offset, and changes no other. -/

namespace OffsideRule.Layout

/-- The tokens lie end to end from one offset to another. -/
inductive Fills : Nat → List Token → Nat → Prop
  | nil (p : Nat) : Fills p [] p
  | cons {t : Token} {more : List Token} {p q r : Nat} : t.start = p → t.stop = q → p ≤ q →
      Fills q more r → Fills p (t :: more) r

namespace Fills

variable {p q r : Nat} {t : Token} {tokens xs ys : List Token}

theorem singleton (hstart : t.start = p) (hstop : t.stop = q) (hle : p ≤ q) : Fills p [t] q :=
  .cons hstart hstop hle (.nil q)

theorem le (h : Fills p tokens q) : p ≤ q := by
  induction h with
  | nil p => exact Nat.le_refl p
  | cons _ _ hle _ ih => exact Nat.le_trans hle ih

theorem append (h : Fills p xs q) (h' : Fills q ys r) : Fills p (xs ++ ys) r := by
  induction h with
  | nil p => exact h'
  | cons hstart hstop hle _ ih => exact .cons hstart hstop hle (ih h')

theorem split (h : Fills p (xs ++ ys) r) : ∃ q, Fills p xs q ∧ Fills q ys r := by
  induction xs generalizing p with
  | nil => exact ⟨p, .nil p, h⟩
  | cons t more ih =>
    cases h with
    | cons hstart hstop hle hmore =>
      obtain ⟨q, hxs, hys⟩ := ih hmore
      exact ⟨q, .cons hstart hstop hle hxs, hys⟩

theorem start_eq (h : Fills p (t :: tokens) q) : t.start = p := by
  cases h with
  | cons hstart _ _ _ => exact hstart

theorem chain (h : Fills p tokens q) : tokens.IsChain fun a b => a.stop = b.start := by
  induction h with
  | nil p => exact List.isChain_nil
  | @cons t more p q r _ hstop _ hmore ih =>
    apply ih.cons
    intro u hu
    obtain ⟨rest, rfl⟩ := List.head?_eq_some_iff.mp hu
    rw [hstop, hmore.start_eq]

/-- The pieces of the real tokens are what stands there, if the added ones are empty. -/
theorem reals_piece {source : Text} (h : Fills p tokens q) (hq : q ≤ source.length)
    (hempty : ∀ t ∈ tokens, t.virtual = true → t.start = t.stop) :
    (tokens.filter (!·.virtual)).flatMap (Token.piece source) = source.slice p q := by
  induction h with
  | nil p => rw [Text.slice_self, List.filter_nil, List.flatMap_nil]
  | @cons t more p q r hstart hstop hle hmore ih =>
    have hlater := ih hq fun u hu => hempty u (by simp [hu])
    cases ht : t.virtual with
    | false =>
      have hpiece : t.piece source = source.slice p q := by simp [Token.piece, ht, hstart, hstop]
      rw [List.filter_cons_of_pos (by simp [ht]), List.flatMap_cons, hpiece, hlater,
        Text.slice_append hle hmore.le hq]
    | true =>
      have hsame : p = q := by
        have := hempty t (by simp) ht
        omega
      rw [List.filter_cons_of_neg (by simp [ht]), hlater, hsame]

end Fills

/-- Tokens of layout that have the spans of tokens of a text fill what these fill. -/
theorem fills_of_tiles {p q : Position} {tokens : List OffsideRule.Token} (h : Tiles p tokens q)
    {laid : List Token}
    (hraw : laid.map Token.raw =
      tokens.map fun t => ⟨some t.kind, t.start.offset, t.stop.offset⟩) :
    Fills p.offset laid q.offset := by
  induction h generalizing laid with
  | nil p =>
    rw [List.map_nil, List.map_eq_nil_iff] at hraw
    rw [hraw]
    exact .nil p.offset
  | cons htext hstop hmore ih =>
    rw [List.map_cons] at hraw
    obtain ⟨u, later, rfl, hu, hlater⟩ := List.map_eq_cons_iff.mp hraw
    obtain ⟨_, hstart, hend⟩ := Raw.mk.inj hu
    exact .cons hstart hend (Nat.le_of_lt (Tiles.offset_lt htext hstop)) (ih hlater)

/-- The placed tokens of a source fill it. -/
theorem fills_placed (c : Config) {source : Text} {tokens : List OffsideRule.Token}
    (h : tokenize source = .ok tokens) : Fills 0 (placed c source tokens) source.length := by
  obtain ⟨front, p, hreads, hend, rfl⟩ := exists_reads_of_tokenize h
  have hoffset := hreads.offset_of_nil hend
  have hraws := Placement.run_raws c source.length 0 Margins.empty.newLine
    (rawTokens (front ++ [.ending p.position]))
  rw [rawTokens_concat] at hraws
  obtain ⟨body, last, hplaced, hbody, hlast⟩ := List.map_eq_append_iff.mp hraws
  obtain ⟨atEnd, rfl, hatEnd⟩ := List.map_eq_singleton_iff.mp hlast
  obtain ⟨_, hstart, hstop⟩ := Raw.mk.inj hatEnd
  rw [placed, place, rawTokens_concat, hplaced]
  refine (hoffset ▸ fills_of_tiles hreads.tiles hbody).append ?_
  exact .singleton hstart hstop (Nat.le_refl _)

/-- If the real tokens of an output lie end to end, so do all: an anchored delimiter fits in front of
the real token behind it. -/
theorem Anchored.fills {behind : Option Token} {output : List Token} {p q : Nat}
    (h : Anchored behind output) (hbehind : ∀ anchor, behind = some anchor → anchor.start = q)
    (hreals : Fills p (output.filter (!·.virtual)).reverse q) : Fills p output.reverse q := by
  induction output generalizing behind q with
  | nil => exact hreals
  | cons t older ih =>
    rw [List.reverse_cons]
    cases ht : t.virtual with
    | false =>
      rw [List.filter_cons_of_pos (by simp [ht]), List.reverse_cons] at hreals
      obtain ⟨m, holder, hlast⟩ := hreals.split
      refine (ih ((cons_real ht).mp h) ?_ holder).append hlast
      rintro _ ⟨⟩
      exact hlast.start_eq
    | true =>
      rw [List.filter_cons_of_neg (by simp [ht])] at hreals
      obtain ⟨⟨kind, anchor, hanchor, rfl⟩, holder⟩ := (cons_virtual ht).mp h
      have hstart : anchor.start = q := hbehind anchor hanchor
      exact (ih holder hbehind hreals).append (.singleton hstart hstart (Nat.le_refl q))

theorem Delimiter.start_eq_stop {c : Config} {t : Token} (h : Delimiter c t) : t.start = t.stop := by
  cases h <;> rfl

/-- A delimiter of a variant is written as one character. -/
theorem Delimiter.length_piece {c : Config} (hc : c.Variant) {t : Token} (h : Delimiter c t)
    (source : Text) : (t.piece source).length = 1 := by
  obtain ⟨kinds, close, _, rfl⟩ := hc.shape
  cases h <;> rfl

theorem length_braces {source : Text} {tokens : List Token}
    (h : ∀ t ∈ tokens, t.virtual = true → (t.piece source).length = 1) :
    (braces tokens source).length =
      ((tokens.filter (!·.virtual)).flatMap (Token.piece source)).length +
        tokens.countP (·.virtual) := by
  induction tokens with
  | nil => rfl
  | cons t more ih =>
    have hmore := ih fun u hu => h u (by simp [hu])
    rw [braces, List.flatMap_cons, List.length_append, ← braces, hmore, List.countP_cons]
    cases ht : t.virtual with
    | false =>
      rw [List.filter_cons_of_pos (by simp [ht]), List.flatMap_cons, List.length_append]
      simp only [Bool.false_eq_true, if_false]
      omega
    | true =>
      rw [List.filter_cons_of_neg (by simp [ht]), h t (by simp) ht]
      simp only [if_true]
      omega

/-- The resolved tokens of a source fill it, and those that layout added are delimiters. -/
theorem resolveText_fills (c : Config) {source : Text} {tokens : List OffsideRule.Token}
    (h : tokenize source = .ok tokens) :
    ∃ r, resolveText c source = .ok r ∧ Fills 0 r.tokens source.length ∧
      ∀ t ∈ r.tokens, t.virtual = true → Delimiter c t := by
  obtain ⟨m, body, atEnd, s, hplaced, hlaid, ⟨_, _, hreal⟩, hrun, hresolve⟩ := resolveText_eq c h
  have hanchored : Anchored none (s.finish c atEnd).output :=
    State.anchored_finish hreal (State.anchored_run hlaid.real hrun)
  have hreals : (s.finish c atEnd).reals = (placed c source tokens).reverse := by
    have hbody : body.filter (!·.virtual) = body :=
      List.filter_eq_self.mpr fun t ht => by simp [hlaid.real t ht]
    rw [State.reals_finish, State.run_reals hrun, hbody, hplaced, List.reverse_concat,
      List.filter_cons_of_pos (by simp [hreal])]
    simp [State.reals, State.initial]
  refine ⟨_, hresolve, ?_, fun t ht hvirtual => ?_⟩
  · apply hanchored.fills (by simp)
    rw [← State.reals, hreals, List.reverse_reverse]
    exact fills_placed c h
  · rw [Resolution.ofState, List.mem_reverse] at ht
    rcases State.mem_finish ht with rfl | ht | hdelimiter
    · simp [hreal] at hvirtual
    · rcases State.run_mem_output hrun ht with ht | hdelimiter
      · simp [hlaid.real t ht] at hvirtual
      · exact hdelimiter
    · exact hdelimiter

/-- Written with braces, the tokens put one character into the source for each added token: the real
ones alone spell the source, and those before an added one spell the source up to its offset. -/
structure Inserts (source : Text) (tokens : List Token) : Prop where
  joined : tokens.IsChain fun a b => a.stop = b.start
  length : (braces tokens source).length = source.length + tokens.countP (·.virtual)
  whole : (tokens.filter (!·.virtual)).flatMap (Token.piece source) = source
  before : ∀ before v after, tokens = before ++ v :: after → v.virtual = true →
    (before.filter (!·.virtual)).flatMap (Token.piece source) = source.slice 0 v.start

/-- Under a variant of the Haskell configuration, to write the resolved tokens of a source with
braces is to put the delimiters into the source at their offsets. -/
theorem resolveText_inserts {c : Config} (hc : c.Variant) {source : Text}
    {tokens : List OffsideRule.Token} (h : tokenize source = .ok tokens) :
    ∃ r, resolveText c source = .ok r ∧ Inserts source r.tokens := by
  obtain ⟨r, hresolve, hfills, hdelimiters⟩ := resolveText_fills c h
  have hempty : ∀ t ∈ r.tokens, t.virtual = true → t.start = t.stop :=
    fun t ht hvirtual => (hdelimiters t ht hvirtual).start_eq_stop
  have hwhole : (r.tokens.filter (!·.virtual)).flatMap (Token.piece source) = source := by
    rw [hfills.reals_piece (Nat.le_refl _) hempty]
    exact source.slice_length
  refine ⟨r, hresolve, hfills.chain, ?_, hwhole, fun before v after htokens hvirtual => ?_⟩
  · rw [length_braces fun t ht hvirtual => (hdelimiters t ht hvirtual).length_piece hc source, hwhole]
  · rw [htokens] at hfills hempty
    obtain ⟨q, hbefore, hafter⟩ := hfills.split
    rw [hbefore.reals_piece hafter.le fun t ht => hempty t (by simp [ht]), hafter.start_eq]
    rfl

example : (resolveText .haskell "do x -- y\n   z\nw".toList).map
    (fun r => braces r.tokens "do x -- y\n   z\nw".toList) =
      .ok "do \x7bx -- y;\n   z\x7d\nw\x7d".toList := by decide +kernel

/-- A comment stands between the lines, so that the second delimiter goes before it. -/
def commented : Text :=
  "do x -- y\nz".toList

theorem resolveText_inserts_commented :
    (Config.haskell.withCloseTopLevel false).Variant ∧ ∃ tokens r, tokenize commented = .ok tokens ∧
      resolveText (Config.haskell.withCloseTopLevel false) commented = .ok r ∧
      Inserts commented r.tokens := by
  have hc : (Config.haskell.withCloseTopLevel false).Variant := .withCloseTopLevel false .haskell
  have h : tokenize commented = .ok _ := tokenize_of_problem (by decide +kernel)
  obtain ⟨r, hr⟩ := resolveText_inserts hc h
  exact ⟨hc, _, r, h, hr⟩

end OffsideRule.Layout
