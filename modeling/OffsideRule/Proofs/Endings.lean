import OffsideRule.Proofs.Bindings
import OffsideRule.Proofs.Delimiters

/-! Which block the same-line rule closes. A delimiter that closes a block stands right before code
only where this code ends a binding: the delimiters of a line that begins stand before the end of
the line before it. It closes the innermost block, so the block of the binding itself only if no
other block is open inside. -/

namespace OffsideRule.Layout

section Closing

variable {c : Config} {newer older : List Token} {t e u : Token}

theorem virtual_of_isClosing (he : e.isClosing c = true) : e.virtual = true := by
  rw [Token.isClosing, Bool.and_eq_true] at he
  exact he.1

theorem virtual_of_head (he : e.virtual = true) (hnewer : ∀ v ∈ newer, v.virtual = true)
    (h : (newer ++ e :: older).head? = some u) : u.virtual = true := by
  cases newer with
  | nil =>
    cases h
    exact he
  | cons v newer =>
    cases h
    exact hnewer u (by simp)

end Closing

namespace Consistent

variable {c : Config} {m : Margins} {s s' : State} {xs ys newer older : List Token} {t e v : Token}

/-- The token taken last is none that layout added. -/
theorem output_ne (hlaid : Laid c m (xs ++ ys)) (h : Consistent c xs s) (he : e.virtual = true)
    (hnewer : ∀ v ∈ newer, v.virtual = true) : s.output ≠ newer ++ e :: older := by
  intro heq
  obtain ⟨v, hv⟩ : ∃ v, s.output.head? = some v := by
    rw [heq]
    cases newer with
    | nil => exact ⟨e, rfl⟩
    | cons v _ => exact ⟨v, rfl⟩
  have hvirtual : v.virtual = true := virtual_of_head he hnewer (heq ▸ hv)
  rw [h.lined.newest] at hv
  rw [hlaid.real v (List.mem_append_left _ (List.mem_of_getLast? hv))] at hvirtual
  contradiction

/-- The delimiters of a line that begins with code do not stand right before this code. -/
theorem started_output_ne (hc : c.Regular) (hlaid : Laid c m (xs ++ t :: ys))
    (h : Consistent c xs s) (hcode : t.code = true) (hbegins : BeginsLine (xs ++ t :: ys) t)
    (he : e.isClosing c = true) (hnewer : ∀ v ∈ newer, v.virtual = true) :
    (s.started c t true).output ≠ newer ++ e :: older := by
  have hevirtual := virtual_of_isClosing he
  rw [State.started_true, State.startLine_output, State.await_output, State.delimiters_await]
  intro houtput
  cases hlast : lastCode xs with
  | none =>
    rw [h.delimiters_eq_nil hlaid hlast, List.append_nil, gap_append] at houtput
    exact h.output_ne hlaid hevirtual hnewer houtput
  | some k =>
    obtain ⟨_, _, _, -, -, hbehind⟩ := h.exists_endsCode hc hlaid hcode hbegins hlast
    obtain ⟨u, later, hlater⟩ := List.exists_cons_of_ne_nil
      (hbehind.trans_ne (List.reverse_ne_nil_iff.mpr (List.cons_ne_nil _ _)))
    have hu : u.virtual = false := gap_later_real c.endOfLine h.tracks.coded u (by simp [hlater])
    rw [hlater] at houtput
    have hhead : (newer ++ e :: older).head? = some u := by rw [← houtput]; rfl
    rw [virtual_of_head hevirtual hnewer hhead] at hu
    contradiction

/-- A closing delimiter right before code is there because the code ends a binding, and it comes
right behind the token taken before. -/
theorem ends_binding (hc : c.Regular) (hlaid : Laid c m (xs ++ t :: ys)) (h : Consistent c xs s)
    (hcode : t.code = true) (hstep : Step c m s t s') (he : e.isClosing c = true)
    (hnewer : ∀ v ∈ newer, v.virtual = true) (houtput : s'.output = t :: (newer ++ e :: older)) :
    older = s.output ∧ s.endsBinding c t = true := by
  have hnot {newer : List Token} (hnewer : ∀ v ∈ newer, v.virtual = true) :
      s.output ≠ newer ++ e :: older :=
    h.output_ne hlaid (virtual_of_isClosing he) hnewer
  -- a delimiter right before the code is the only one there
  have hcons {d : Token} (hd : d :: s.output = newer ++ e :: older) : d = e ∧ older = s.output := by
    cases newer with
    | nil =>
      obtain ⟨rfl, holder⟩ := List.cons_eq_cons.mp hd
      exact ⟨rfl, holder.symm⟩
    | cons v newer =>
      obtain ⟨-, hrest⟩ := List.cons_eq_cons.mp hd
      exact absurd hrest (hnot fun w hw => hnewer w (by simp [hw]))
  have hfirst {s : State} (hs : Consistent c xs s) (hin : inMargin m t = .ok true) :
      (s.proceed c t true).output ≠ t :: (newer ++ e :: older) := by
    have hbegins := (inMargin_iff hlaid hcode hin).mp rfl
    rw [State.proceed, State.emit_output, State.closeLet_output,
      hs.lined.endsBinding_of_beginsLine hc hlaid hcode hbegins true, if_neg (by simp), ne_eq,
      List.cons.injEq, not_and]
    exact fun _ => hs.started_output_ne hc hlaid hcode hbegins he hnewer
  cases hstep with
  | idles _ =>
    rw [State.emit_output, State.await_output, List.cons.injEq] at houtput
    exact absurd houtput.2 (hnot hnewer)
  | opens _ _ _ =>
    rw [State.openBlock_output, List.cons.injEq] at houtput
    obtain ⟨rfl, -⟩ := hcons houtput.2
    exact absurd he (not_isClosing_of_isOpening hc.toDistinct (isOpening_before c t))
  | passes _ _ _ =>
    rw [State.emit_output, List.cons.injEq] at houtput
    exact absurd houtput.2 (hnot hnewer)
  | givesUp _ _ _ hin => exact absurd houtput (hfirst (h.abandon _) hin)
  | @proceeds atMargin _ hin =>
    cases atMargin with
    | true => exact absurd houtput (hfirst h hin)
    | false =>
      rw [State.proceed, State.emit_output, State.closeLet_output, State.started_false,
        State.endsBinding_await, State.await_output, List.cons.injEq] at houtput
      split at houtput
      · next hends => exact ⟨(hcons houtput.2).2, hends⟩
      · exact absurd houtput.2 (hnot hnewer)

end Consistent

namespace Owns

variable {c : Config} {m : Margins} {s : State} {xs ys : List Token} {t : Token}

/-- The nearest code before the innermost open block, seen from the line of `t`. -/
theorem innermost_owner (hlaid : Laid c m (xs ++ t :: ys)) (h : Owns c xs s) {before : List Token}
    {outside : List (List Token)} (hentries : entries c s.output = before :: outside) :
    ∃ k, lastCode before.reverse = some k ∧ c.isOpener k.kind = true ∧
      (openOnLine c (codeOnLine t.line xs)).head? = if k.line = t.line then some k else none := by
  obtain ⟨outer, howners, houter⟩ := h.owned t.line fun u hu _ => line_le hlaid u hu
  rw [State.owners, hentries, List.map_cons, ← lastCode_reverse] at howners
  cases hhere : openOnLine c (codeOnLine t.line xs) with
  | nil =>
    rw [hhere, List.nil_append] at howners
    cases outer with
    | nil => contradiction
    | cons k outer =>
      obtain ⟨hopener, hline⟩ := houter k (by simp)
      exact ⟨k, (List.cons_eq_cons.mp howners).1, hopener, by rw [if_neg (by omega)]; rfl⟩
  | cons k here =>
    rw [hhere, List.cons_append, List.map_cons] at howners
    obtain ⟨hk, hopener⟩ := mem_openOnLine (c := c) (k := k) (hhere ▸ List.mem_cons_self)
    have hline := (mem_codeOnLine.mp hk).2.2.2
    exact ⟨k, (List.cons_eq_cons.mp howners).1, hopener, by rw [if_pos hline]; rfl⟩

/-- The word that ends a binding closes the innermost open block. -/
theorem endsInnermost (hc : c.Regular) (hlaid : Laid c m (xs ++ t :: ys)) (h : Owns c xs s)
    (hends : s.endsBinding c t = true) : EndsInnermost c s.output.reverse t := by
  simp only [State.endsBinding, Bool.and_eq_true, beq_iff_eq, decide_eq_true_eq] at hends
  obtain ⟨⟨hin, hlet⟩, hpeek⟩ := hends
  have hreals : s.output.reverse.filter (!·.virtual) = xs := by
    rw [List.filter_reverse, ← State.reals, h.consistent.lined.reals, List.reverse_reverse]
  have hmem {u : Token} : u ∈ xs ↔ u ∈ s.output.reverse ∧ u.virtual = false := by
    rw [← hreals, List.mem_filter, Bool.not_eq_true']
  have hcode : ∀ u ∈ s.output.reverse, c.isOpener u.kind = true → u.code = true := by
    intro u hu hopener
    cases hvirtual : u.virtual with
    | true => exact h.consistent.tracks.coded u (List.mem_reverse.mp hu) hvirtual
    | false =>
      rw [hlaid.code u (List.mem_append_left _ (hmem.mpr ⟨hu, hvirtual⟩)),
        hc.code_of_opener _ hopener]
  obtain ⟨before, outside, hentries⟩ :
      ∃ before outside, entries c s.output = before :: outside := by
    apply List.exists_cons_of_ne_nil
    rw [ne_eq, State.entries_eq_nil_iff h.consistent.tracks]
    omega
  obtain ⟨d, inner, houtput, hd, hinner⟩ := balanced_of_entries hc.toDistinct hentries
  obtain ⟨k, hlast, hopener, hhead⟩ := h.innermost_owner hlaid hentries
  rw [← hreals, codeOnLine_filter] at hhead
  have hfront : s.output.reverse = before.reverse ++ d :: inner.reverse := by
    rw [houtput]
    simp
  refine ⟨?_, ⟨before.reverse, d, inner.reverse, k, hfront, hd, hinner, hlast, hopener, hhead⟩, ?_⟩
  · rw [← s.await_output c t, ← State.started_false,
      h.consistent.lined.letOnLine_iff hc hlaid] at hlet
    obtain ⟨u, hu, hkind, hline⟩ := hlet
    exact ⟨u, (hmem.mp hu).1, (hmem.mp hu).2, hkind, hline⟩
  · refine endsLet_iff hc.toDistinct (fun u hu => hcode u ?_) hfront hd hinner hlast hopener hhead
    rw [hfront]
    exact List.mem_append_left _ hu

end Owns

/-- In a resolved source, a closing delimiter with the word that ends a binding behind it closes the
innermost block, and on this line some binding began. -/
theorem resolveText_endsInnermost {c : Config} (hc : c.Variant) {source : Text}
    {tokens : List OffsideRule.Token} (h : tokenize source = .ok tokens) :
    ∃ r, resolveText c source = .ok r ∧ ∀ front e between t after,
      r.tokens = front ++ e :: (between ++ t :: after) → e.isClosing c = true →
      (∀ v ∈ between, v.virtual = true) → t.virtual = false → t.kind = some c.inKind →
      EndsInnermost c front t := by
  obtain ⟨m, body, atEnd, s, _, hlaid, hend, hrun, hresolve⟩ := resolveText_eq c h
  refine ⟨_, hresolve, fun front e between t after htokens he hbetween hreal hkind => ?_⟩
  have hlaid' : Laid c m (body ++ []) := by rwa [List.append_nil]
  have hconsistent := Consistent.run hc.regular hlaid' hrun
  have hsuffix : t :: (between.reverse ++ e :: front.reverse) <:+ (s.finish c atEnd).output := by
    refine ⟨after.reverse, ?_⟩
    have := congrArg List.reverse htokens
    simpa [Resolution.ofState] using this.symm
  have hcode : t.code = true := by
    have hmem : t ∈ (s.finish c atEnd).reals :=
      List.mem_filter.mpr ⟨hsuffix.subset (by simp), by simp [hreal]⟩
    rw [State.reals_finish, hconsistent.lined.reals] at hmem
    rcases List.mem_append.mp hmem with hmem | hmem
    · rw [List.mem_singleton.mp (List.mem_of_mem_filter hmem), hend.1] at hkind
      contradiction
    · rw [hlaid.code t (List.mem_reverse.mp hmem), hkind, hc.regular.code_of_in]
  have hs := State.suffix_of_suffix_finish hconsistent.tracks hend.2.1 hcode hreal hsuffix
  obtain ⟨xs, ys, s₀, s₁, rfl, hxs, hstep, houtput⟩ := State.run_took hrun hcode hreal hs
  have howns := Owns.run hc.regular hlaid hxs
  obtain ⟨hfront, hends⟩ := howns.consistent.ends_binding hc.regular hlaid hcode hstep he
    (fun v hv => hbetween v (List.mem_reverse.mp hv)) houtput
  rw [← List.reverse_reverse front, hfront]
  exact howns.endsInnermost hc.regular hlaid hends

/-- A line on which two words end a binding and only one binding began. -/
def secondIn : Text :=
  "do let x = 1 in x in y".toList

theorem resolved_secondIn : ∃ r, resolveText .haskell secondIn = .ok r ∧
    r.tokens = r.tokens.take 17 ++ ⟨some .virtualRightBrace, 18, 18, 18, 0, true, true⟩ ::
      ([] ++ ⟨some (.keyword .inK), 18, 20, 18, 0, true, false⟩ :: r.tokens.drop 19) ∧
    ∀ i < 17, (r.tokens.take 17)[i]?.any (·.isOpening .haskell) = true →
      ((r.tokens.take 17).drop (i + 1)).countP (·.isClosing .haskell) =
        ((r.tokens.take 17).drop (i + 1)).countP (·.isOpening .haskell) →
      (lastOpener .haskell ((r.tokens.take 17).take i)).bind Token.kind = some (.keyword .doK) := by
  have h : tokenize secondIn = .ok _ := tokenize_of_problem (by decide +kernel)
  exact ⟨_, resolveText_of_tokenize .haskell h, by decide +kernel, by decide +kernel⟩

theorem resolveText_endsInnermost_secondIn :
    ∃ r front e t after, resolveText .haskell secondIn = .ok r ∧
      r.tokens = front ++ e :: ([] ++ t :: after) ∧ e.isClosing .haskell = true ∧
      t.virtual = false ∧ t.kind = some Config.haskell.inKind ∧ t.start = 18 ∧
      EndsInnermost .haskell front t := by
  have h : tokenize secondIn = .ok _ := tokenize_of_problem (by decide +kernel)
  obtain ⟨r, hr, htokens, -⟩ := resolved_secondIn
  obtain ⟨r', hr', hends⟩ := resolveText_endsInnermost .haskell h
  obtain rfl : r = r' := Except.ok.inj (hr.symm.trans hr')
  exact ⟨r, _, _, _, _, hr, htokens, rfl, rfl, rfl, rfl,
    hends _ _ _ _ _ htokens rfl (by simp) rfl rfl⟩

/-- The second word closes the block of the first opener, which is no binding's. -/
theorem not_endsLet_of_closing :
    ¬ ∀ (source : Text) (tokens : List OffsideRule.Token), tokenize source = .ok tokens →
      ∃ r, resolveText .haskell source = .ok r ∧ ∀ front e between t after,
        r.tokens = front ++ e :: (between ++ t :: after) → e.isClosing .haskell = true →
        (∀ v ∈ between, v.virtual = true) → t.virtual = false →
        t.kind = some Config.haskell.inKind → EndsLet .haskell front t := by
  intro hall
  obtain ⟨r, hr, htokens, hopener⟩ := resolved_secondIn
  obtain ⟨r', hr', hends⟩ := hall secondIn _ (tokenize_of_problem (by decide +kernel))
  obtain rfl : r = r' := Except.ok.inj (hr.symm.trans hr')
  obtain ⟨before, d, inner, k, hfront, hd, hinner, hk, hkind, -⟩ :=
    hends _ _ _ _ _ htokens rfl (by simp) rfl rfl
  have hlength : before.length < 17 := by
    have := congrArg List.length hfront
    rw [List.length_take, List.length_append, List.length_cons] at this
    omega
  have hd' : (before ++ d :: inner)[before.length]? = some d := by simp
  have hinner' : (before ++ d :: inner).drop (before.length + 1) = inner := by simp
  have hdo := hopener before.length hlength
  rw [hfront, hd', hinner', List.take_left, hk] at hdo
  have hlet := hdo hd hinner.complete
  rw [Option.bind_some, hkind] at hlet
  contradiction

end OffsideRule.Layout
