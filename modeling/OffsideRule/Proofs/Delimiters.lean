import OffsideRule.Proofs.Anchors
import OffsideRule.Proofs.Sources

/-! Where delimiters stand. The line that begins with some code puts its delimiters before the first
end of line behind the code read last. There is one, since this code lies on an earlier line; and
as long as no code was read, no block is open and no delimiter is needed. Besides, the word that
ends a binding closes a block right before itself, and the end of the input closes the rest. -/

namespace OffsideRule.Layout

/-- `e` is the first end of line behind the last code of `before`, and ends the line of it. -/
def EndsCode (c : Config) (before : List Token) (e : Token) : Prop :=
  e.kind = some c.endOfLine ∧ ∃ front k trailing, before = front ++ k :: trailing ∧
    k.code = true ∧ k.line = e.line ∧ ∀ u ∈ trailing, u.code = false ∧ u.kind ≠ some c.endOfLine

/-- What layout may put before `anchor`, which was read behind `before`. -/
inductive Delimits (c : Config) (before : List Token) (anchor : Token) : Token → Prop
  | opens : Delimits c before anchor (.before c.openKind anchor)
  | separates : EndsCode c before anchor →
      Delimits c before anchor (.before c.separatorKind anchor)
  | closes : EndsCode c before anchor → Delimits c before anchor (.before c.closeKind anchor)
  | endsBinding : anchor.kind = some c.inKind →
      Delimits c before anchor (.before c.closeKind anchor)
  | endsInput : anchor.isEnd = true → Delimits c before anchor (.before c.closeKind anchor)

namespace Delimits

variable {c : Config} {before : List Token} {anchor v : Token}

theorem of_isSeparator (hc : c.Distinct) (h : Delimits c before anchor v)
    (hv : v.isSeparator c = true) : EndsCode c before anchor := by
  rw [Token.isSeparator, Bool.and_eq_true, beq_iff_eq] at hv
  cases h with
  | opens => exact absurd (Option.some.inj hv.2) hc.open_ne_separator
  | separates hends => exact hends
  | closes hends => exact hends
  | endsBinding _ => exact absurd (Option.some.inj hv.2).symm hc.separator_ne_close
  | endsInput _ => exact absurd (Option.some.inj hv.2).symm hc.separator_ne_close

theorem of_isClosing (hc : c.Distinct) (h : Delimits c before anchor v)
    (hv : v.isClosing c = true) :
    EndsCode c before anchor ∨ anchor.kind = some c.inKind ∨ anchor.isEnd = true := by
  cases h with
  | opens => exact absurd hv (not_isClosing_of_isOpening hc (isOpening_before c anchor))
  | separates hends => exact Or.inl hends
  | closes hends => exact Or.inl hends
  | endsBinding hkind => exact Or.inr (Or.inl hkind)
  | endsInput hend => exact Or.inr (Or.inr hend)

/-- A separator or closing delimiter before an end of line is there because code ends. -/
theorem endsCode (hc : c.Regular) (h : Delimits c before anchor v)
    (hv : v.isSeparator c = true ∨ v.isClosing c = true) (hkind : anchor.kind = some c.endOfLine) :
    EndsCode c before anchor := by
  rcases hv with hv | hv
  · exact h.of_isSeparator hc.toDistinct hv
  · rcases h.of_isClosing hc.toDistinct hv with hends | hin | hend
    · exact hends
    · have hcode := hc.endOfLine_not_code
      rw [← hkind, hin, hc.code_of_in] at hcode
      contradiction
    · rw [Token.isEnd, hkind] at hend
      contradiction

/-- A delimiter shows the line and column of the token it stands before. -/
theorem place_eq (h : Delimits c before anchor v) :
    v.line = anchor.line ∧ v.column = anchor.column := by
  cases h <;> exact ⟨rfl, rfl⟩

end Delimits

namespace Consistent

variable {c : Config} {m : Margins} {s : State} {xs ys : List Token} {t k : Token}

/-- The output behind the code read last is what was read behind it. -/
theorem output_of_lastCode (hlaid : Laid c m (xs ++ ys)) (h : Consistent c xs s)
    (hlast : lastCode xs = some k) : ∃ front older back, xs = front ++ k :: back ∧
      s.output = back.reverse ++ k :: older ∧ k.code = true ∧ ∀ u ∈ back, u.code = false := by
  have hcodes : lastCode s.output.reverse = some k := by
    rw [lastCode_reverse]
    exact h.newest.trans hlast
  obtain ⟨front, back, hsplit, hcode, hback⟩ := exists_of_lastCode hcodes
  have houtput : s.output = back.reverse ++ k :: front.reverse := by
    rw [← List.reverse_reverse s.output, hsplit]
    simp
  refine ⟨front.filter (!·.virtual), front.reverse, back, ?_, houtput, hcode, hback⟩
  have hkreal : k.virtual = false := hlaid.real k (List.mem_append_left _ (mem_of_lastCode hlast).1)
  have hreal : back.filter (!·.virtual) = back := by
    refine List.filter_eq_self.mpr fun u hu => ?_
    have hucode := hback u hu
    cases hvirtual : u.virtual with
    | false => rfl
    | true =>
      rw [h.tracks.coded u (by simp [houtput, hu]) hvirtual] at hucode
      contradiction
  rw [← List.reverse_reverse xs, ← h.lined.reals, State.reals, ← List.filter_reverse, hsplit,
    List.filter_append, List.filter_cons_of_pos (by simp [hkreal]), hreal]

/-- Behind the last code there is an end of line when a new line begins, and the gap is there. -/
theorem exists_endsCode (hc : c.Regular) (hlaid : Laid c m (xs ++ t :: ys)) (h : Consistent c xs s)
    (hcode : t.code = true) (hbegins : BeginsLine (xs ++ t :: ys) t)
    (hlast : lastCode xs = some k) : ∃ before e after, xs = before ++ e :: after ∧
      EndsCode c before e ∧ (gap c.endOfLine s.output).later = (e :: after).reverse := by
  obtain ⟨front, older, back, rfl, houtput, hkcode, hback⟩ := h.output_of_lastCode hlaid hlast
  have hkline : k.line ≠ t.line := (hlaid.beginsLine_iff hcode).mp hbegins k (by simp) hkcode
  have hkend : k.kind ≠ some c.endOfLine := by
    intro hkind
    rw [hlaid.code k (by simp), hkind, hc.endOfLine_not_code] at hkcode
    contradiction
  have hchain := h.lined.chain_cons hlaid
  rw [houtput] at hchain
  -- a line is left by its end only
  have hline {trailing : List Token} {u : Token}
      (hchain : (u :: (trailing.reverse ++ k :: older)).IsChain (Above c))
      (hnone : ∀ w ∈ trailing, w.kind ≠ some c.endOfLine) : k.line = u.line := by
    refine line_eq_of_chain hchain fun w hw => ?_
    rcases List.mem_append.mp hw with hw | hw
    · exact hnone w (List.mem_reverse.mp hw)
    · rw [List.mem_singleton.mp hw]
      exact hkend
  cases hfind : back.find? (·.kind == some c.endOfLine) with
  | none => exact absurd (hline hchain (by simpa using List.find?_eq_none.mp hfind)) hkline
  | some e =>
    obtain ⟨hend, trailing, after, rfl, hnone⟩ := List.find?_eq_some_iff_append.mp hfind
    replace hend : e.kind = some c.endOfLine := by simpa using hend
    replace hnone : ∀ u ∈ trailing, u.kind ≠ some c.endOfLine := by simpa using hnone
    have hkeline : k.line = e.line := by
      rw [List.reverse_append, List.reverse_cons, List.append_assoc, List.append_assoc,
        List.singleton_append] at hchain
      exact hline hchain.tail.right_of_append hnone
    have hends : EndsCode c (front ++ k :: trailing) e :=
      ⟨hend, front, k, trailing, rfl, hkcode, hkeline,
        fun u hu => ⟨hback u (by simp [hu]), hnone u hu⟩⟩
    refine ⟨front ++ k :: trailing, e, after, by simp, hends, ?_⟩
    rw [houtput, gap_of_code c.endOfLine hkcode fun u hu => hback u (List.mem_reverse.mp hu)]
    simp only [List.reverse_reverse]
    rw [List.dropWhile_append_of_pos (by simpa using hnone),
      List.dropWhile_cons_of_neg (by simp [hend])]

/-- Before the first code there are no delimiters. -/
theorem delimiters_eq_nil (hlaid : Laid c m (xs ++ t :: ys)) (h : Consistent c xs s)
    (hlast : lastCode xs = none) : s.delimiters c t = [] := by
  have hcodes : s.codes = [] := List.head?_eq_none_iff.mp (h.newest.trans hlast)
  have hreal : ∀ u ∈ s.output, u.virtual = false := by
    intro u hu
    rw [← Bool.not_eq_true]
    intro hvirtual
    have hmem : u ∈ s.codes := List.mem_filter.mpr ⟨hu, h.tracks.coded u hu hvirtual⟩
    rw [hcodes] at hmem
    contradiction
  have hopen : openColumns c s.output.reverse = [] := by
    have hnil : Bracketed c [] := trivial
    rw [← List.append_nil s.output, (hnil.append_real hreal).2]
    rfl
  obtain ⟨hclosed, hremaining⟩ := h.tracks.dedent (topLevel_le hlaid)
  have hseparates : ¬ (s.blocks.dedent t.column).separates = true := by
    have hcolumn := hlaid.column_nonneg t (by simp)
    rw [Blocks.dedent_separates, Blocks.peek, hremaining, hopen, List.dropWhile_nil,
      List.nil_append, List.headD_cons, topLevel]
    omega
  rw [State.delimiters, if_neg hseparates, hclosed, hopen]
  rfl

/-- The delimiters of a line that begins stand before the first end of line behind the code read
last. -/
theorem delimits_of_mem_delimiters (hc : c.Regular) (hlaid : Laid c m (xs ++ t :: ys))
    (h : Consistent c xs s) (hcode : t.code = true) (hbegins : BeginsLine (xs ++ t :: ys) t)
    {v : Token} (hv : v ∈ s.delimiters c t) :
    ∃ before anchor after, xs = before ++ anchor :: after ∧ Delimits c before anchor v := by
  cases hlast : lastCode xs with
  | none =>
    rw [h.delimiters_eq_nil hlaid hlast] at hv
    contradiction
  | some k =>
    obtain ⟨before, e, after, hxs, hends, hlater⟩ := h.exists_endsCode hc hlaid hcode hbegins hlast
    have hanchor : s.anchor c t = e := by
      rw [State.anchor, hlater, List.getLast?_reverse]
      rfl
    refine ⟨before, e, after, hxs, ?_⟩
    rcases s.mem_delimiters c t hv with rfl | rfl
    · rw [hanchor]
      exact .separates hends
    · rw [hanchor]
      exact .closes hends

end Consistent

/-- Every added token of the output delimits what was taken. -/
def Delimited (c : Config) (taken output : List Token) : Prop :=
  ∀ v ∈ output, v.virtual = true →
    ∃ before anchor after, taken = before ++ anchor :: after ∧ Delimits c before anchor v

namespace Delimited

variable {c : Config} {m : Margins} {s s' : State} {xs ys output : List Token} {t : Token}

theorem append (h : Delimited c xs output) (more : List Token) :
    Delimited c (xs ++ more) output := by
  intro v hv hvirtual
  obtain ⟨before, anchor, after, rfl, hdelimits⟩ := h v hv hvirtual
  exact ⟨before, anchor, after ++ more, by simp, hdelimits⟩

/-- The token taken next may come with delimiters. -/
theorem cons (added : List Token) (ht : t.virtual = false) (hadded : ∀ v ∈ added, Delimits c xs t v)
    (h : Delimited c xs output) : Delimited c (xs ++ [t]) (t :: (added ++ output)) := by
  intro v hv hvirtual
  rcases List.mem_cons.mp hv with rfl | hv
  · rw [ht] at hvirtual
    contradiction
  · rcases List.mem_append.mp hv with hv | hv
    · exact ⟨xs, t, [], rfl, hadded v hv⟩
    · exact h.append [t] v hv hvirtual

theorem started (hc : c.Regular) (hlaid : Laid c m (xs ++ t :: ys)) (hs : Consistent c xs s)
    (hcode : t.code = true) {atMargin : Bool} (hin : inMargin m t = .ok atMargin)
    (h : Delimited c xs s.output) : Delimited c xs (s.started c t atMargin).output := by
  cases atMargin with
  | false => rwa [State.started_false, State.await_output]
  | true =>
    have hbegins := (Consistent.inMargin_iff hlaid hcode hin).mp rfl
    rw [State.started_true, State.startLine_output, State.await_output, State.delimiters_await,
      List.append_assoc]
    intro v hv hvirtual
    have hgap := gap_append c.endOfLine s.output
    rcases List.mem_append.mp hv with hv | hv
    · exact h v (hgap ▸ List.mem_append_left _ hv) hvirtual
    · rcases List.mem_append.mp hv with hv | hv
      · exact hs.delimits_of_mem_delimiters hc hlaid hcode hbegins hv
      · exact h v (hgap ▸ List.mem_append_right _ hv) hvirtual

theorem proceed (hc : c.Regular) (hlaid : Laid c m (xs ++ t :: ys)) (hs : Consistent c xs s)
    (hcode : t.code = true) {atMargin : Bool} (hin : inMargin m t = .ok atMargin)
    (h : Delimited c xs s.output) : Delimited c (xs ++ [t]) (s.proceed c t atMargin).output := by
  have ht : t.virtual = false := hlaid.real t (by simp)
  have hstarted := h.started hc hlaid hs hcode hin
  rw [State.proceed, State.emit_output, State.closeLet_output]
  split
  · next hends =>
    simp only [State.endsBinding, Bool.and_eq_true, beq_iff_eq] at hends
    refine hstarted.cons [.before c.closeKind t] ht fun v hv => ?_
    rw [List.mem_singleton.mp hv]
    exact .endsBinding hends.1.1
  · exact hstarted.cons [] ht (by simp)

theorem step (hc : c.Regular) (hlaid : Laid c m (xs ++ t :: ys)) (hs : Consistent c xs s)
    (hstep : Step c m s t s') (h : Delimited c xs s.output) :
    Delimited c (xs ++ [t]) s'.output := by
  have ht : t.virtual = false := hlaid.real t (by simp)
  have hemit : Delimited c (xs ++ [t]) (t :: s.output) := h.cons [] ht (by simp)
  cases hcode : t.code with
  | false =>
    rw [hstep.eq_emit hc (hlaid.code t (by simp)) hcode]
    exact hemit
  | true =>
    cases hstep with
    | idles _ =>
      rw [State.emit_output, State.await_output]
      exact hemit
    | opens _ _ _ =>
      rw [State.openBlock_output]
      refine h.cons [.before c.openKind t] ht fun v hv => ?_
      rw [List.mem_singleton.mp hv]
      exact .opens
    | passes _ _ _ => exact hemit
    | givesUp _ _ _ hin => exact proceed hc hlaid (hs.abandon _) hcode hin h
    | proceeds _ hin => exact h.proceed hc hlaid hs hcode hin

theorem run (hc : c.Regular) (hlaid : Laid c m (xs ++ ys))
    (hrun : State.initial.run c m xs = .ok s) : Delimited c xs s.output := by
  have hboth : Consistent c xs s ∧ Delimited c xs s.output := by
    refine State.run_induction (motive := fun xs s => Consistent c xs s ∧ Delimited c xs s.output)
      hrun ⟨.initial c, by simp [Delimited, State.initial]⟩ ?_
    rintro front t back u u' hxs ⟨hu, hdelimited⟩ hstep
    rw [hxs, List.append_assoc, List.cons_append] at hlaid
    exact ⟨hu.step hc hlaid hstep, hdelimited.step hc hlaid hu hstep⟩
  exact hboth.2

theorem finish {atEnd : Token} (hend : atEnd.isEnd = true) (hreal : atEnd.virtual = false)
    (h : Delimited c xs s.output) : Delimited c (xs ++ [atEnd]) (s.finish c atEnd).output := by
  obtain ⟨added, houtput, hadded⟩ := s.finish_added c atEnd
  rw [houtput]
  refine h.cons added hreal fun v hv => ?_
  rcases hadded v hv with rfl | rfl
  · exact .opens
  · exact .endsInput hend

end Delimited

/-- The first real token behind a delimiter is the one it delimits. -/
theorem exists_delimits {c : Config} (hc : c.Regular) {m : Margins} {body : List Token}
    {s : State} {atEnd v : Token} {before after : List Token} (hlaid : Laid c m body)
    (hordered : (body ++ [atEnd]).Pairwise Token.Before) (hend : atEnd.isEnd = true)
    (hendreal : atEnd.virtual = false) (hrun : State.initial.run c m body = .ok s)
    (htokens : (s.finish c atEnd).output.reverse = before ++ v :: after)
    (hvirtual : v.virtual = true) :
    ∃ added e rest, after = added ++ e :: rest ∧ (∀ u ∈ added, u.virtual = true) ∧
      e.virtual = false ∧ Delimits c (before.filter (!·.virtual)) e v ∧
      body ++ [atEnd] = before.filter (!·.virtual) ++ e :: rest.filter (!·.virtual) := by
  have hlaid' : Laid c m (body ++ []) := by rwa [List.append_nil]
  have houtput : (s.finish c atEnd).output = after.reverse ++ v :: before.reverse := by
    rw [← List.reverse_reverse (s.finish c atEnd).output, htokens]
    simp
  have hanchored := State.anchored_finish (c := c) hendreal (State.anchored_run hlaid.real hrun)
  rw [houtput] at hanchored
  obtain ⟨kind, e, hfind, hv⟩ := hanchored.find hvirtual
  rw [List.reverse_reverse, Option.or_none] at hfind
  obtain ⟨hreal, added, rest, rfl, hadded⟩ := List.find?_eq_some_iff_append.mp hfind
  replace hreal : e.virtual = false := by simpa using hreal
  replace hadded : ∀ u ∈ added, u.virtual = true := by simpa using hadded
  have hbody : body ++ [atEnd] = before.filter (!·.virtual) ++ e :: rest.filter (!·.virtual) := by
    have hreals := s.reals_finish c atEnd
    rw [(Consistent.run hc hlaid' hrun).lined.reals, State.reals, houtput,
      List.filter_cons_of_pos (by simp [hendreal])] at hreals
    have hnone : added.filter (!·.virtual) = [] := by simpa using hadded
    simpa [hvirtual, hreal, hnone] using (congrArg List.reverse hreals).symm
  obtain ⟨front, anchor, back, hsplit, hdelimits⟩ :=
    (Delimited.run hc hlaid' hrun).finish hend hendreal v (by simp [houtput]) hvirtual
  obtain ⟨hline, hcolumn⟩ := hdelimits.place_eq
  rw [hv] at hline hcolumn
  obtain ⟨rfl, rfl, rfl⟩ := split_unique (hbody ▸ hordered) (hbody.symm.trans hsplit) hline hcolumn
  exact ⟨added, e, rest, rfl, hadded, hreal, hdelimits, hbody⟩

/-- In a resolved source, the first real token behind a separator is an end of line, and behind a
closing delimiter it is an end of line, the word that ends a binding or the end of the input. Such
an end of line is the first behind the last code, so that what else stands on the line of this code
comes before the delimiter and what stands on later lines comes after it. -/
theorem resolveText_delimited {c : Config} (hc : c.Variant) {source : Text}
    {tokens : List OffsideRule.Token} (h : tokenize source = .ok tokens) :
    ∃ r, resolveText c source = .ok r ∧ ∀ before v after, r.tokens = before ++ v :: after →
      v.isSeparator c = true ∨ v.isClosing c = true →
      ∃ added e rest, after = added ++ e :: rest ∧ (∀ u ∈ added, u.virtual = true) ∧
        e.virtual = false ∧
        (v.isSeparator c = true → e.kind = some .newline) ∧
        (v.isClosing c = true →
          e.kind = some .newline ∨ e.kind = some (.keyword .inK) ∨ e.isEnd = true) ∧
        (e.kind = some .newline → EndsCode c (before.filter (!·.virtual)) e ∧
          (∀ u ∈ before, u.virtual = false → u.line ≤ e.line) ∧
          ∀ u ∈ rest, u.virtual = false → e.line < u.line) := by
  obtain ⟨m, body, atEnd, s, hplaced, hlaid, hend, hrun, hresolve⟩ := resolveText_eq c h
  refine ⟨_, hresolve, fun before v after htokens hv => ?_⟩
  obtain ⟨hnewline, -, hin⟩ := hc.kinds
  have hnext : (body ++ [atEnd]).IsChain (Token.Next c) := hplaced ▸ placed_next c source tokens
  have hordered := hlaid.ordered_concat hnext
  have hvirtual : v.virtual = true := by
    rcases hv with hv | hv
    · exact (Bool.and_eq_true_iff.mp hv).1
    · exact (Bool.and_eq_true_iff.mp hv).1
  have hisEnd : atEnd.isEnd = true := by rw [Token.isEnd, hend.1, Option.isNone_none]
  obtain ⟨added, e, rest, rfl, hadded, hreal, hdelimits, hbody⟩ :=
    exists_delimits hc.regular hlaid hordered hisEnd hend.2.2 hrun htokens hvirtual
  rw [hbody] at hnext hordered
  refine ⟨added, e, rest, rfl, hadded, hreal, fun hseparator => ?_, fun hclosing => ?_,
    fun hkind => ⟨?_, fun u hu hureal => ?_, fun u hu hureal => ?_⟩⟩
  · rw [← hnewline]
    exact (hdelimits.of_isSeparator hc.regular.toDistinct hseparator).1
  · rw [← hnewline, ← hin]
    exact (hdelimits.of_isClosing hc.regular.toDistinct hclosing).imp_left (·.1)
  · exact hdelimits.endsCode hc.regular hv (hnewline ▸ hkind)
  · have hbefore := (List.pairwise_append.mp hordered).2.2 u
      (List.mem_filter.mpr ⟨hu, by simp [hureal]⟩) e (by simp)
    unfold Token.Before at hbefore
    omega
  · exact line_lt_of_next (List.pairwise_append.mp hordered).2.1 hnext.right_of_append
      (hnewline ▸ hkind) u (List.mem_filter.mpr ⟨hu, by simp [hureal]⟩)

/-- Two items with a comment behind the first and a blank line and a comment before the second, and
a line that closes their block. -/
def annotated : Text :=
  "do a -- t\n\n   -- u\n   b\nc".toList

/-- The separator comes behind the first comment and before the blank line. -/
theorem resolveText_delimited_annotated :
    ∃ r before v added e rest, resolveText .haskell annotated = .ok r ∧
      r.tokens = before ++ v :: (added ++ e :: rest) ∧ v.isSeparator .haskell = true ∧
      v.start = 9 ∧ e.kind = some .newline ∧
      EndsCode .haskell (before.filter (!·.virtual)) e := by
  have h : tokenize annotated = .ok _ := tokenize_of_problem (by decide +kernel)
  obtain ⟨r, hr, hdelimited⟩ := resolveText_delimited .haskell h
  have htokens : r.tokens = r.tokens.take 6 ++ ⟨some .virtualSemicolon, 9, 9, 9, 0, true, true⟩ ::
      r.tokens.drop 7 := by
    obtain rfl := Except.ok.inj ((resolveText_of_tokenize .haskell h).symm.trans hr)
    decide +kernel
  obtain ⟨added, e, rest, hafter, -, -, hseparator, -, hends⟩ :=
    hdelimited _ _ _ htokens (Or.inl rfl)
  exact ⟨r, _, _, added, e, rest, hr, hafter ▸ htokens, rfl, rfl, hseparator rfl,
    (hends (hseparator rfl)).1⟩

end OffsideRule.Layout
