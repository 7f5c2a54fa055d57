import OffsideRule.Proofs.Sources

/-! The offside law. In a resolved source every code token lies in the innermost open block: right
of its column in the middle of an item, and in its column exactly where an item begins. -/

namespace OffsideRule.Layout

/-- An item of a block begins behind the delimiter that opens the block and behind a separator. -/
def Token.beginsItem (c : Config) (t : Token) : Bool :=
  t.isOpening c || t.isSeparator c

/-- How code stands to the tokens before it: not left of the innermost open block, and in its column
if and only if the nearest code before begins an item. -/
def Offside (c : Config) (before : List Token) (t : Token) : Prop :=
  innermost c before ≤ t.column ∧
    (t.column = innermost c before ↔ ∃ d, lastCode before = some d ∧ d.beginsItem c = true)

section

variable {c : Config} {s : State} {t : Token}

theorem beginsItem_real (ht : t.virtual = false) : t.beginsItem c = false := by
  simp [Token.beginsItem, Token.isOpening, Token.isSeparator, ht]

theorem beginsItem_close (hc : c.Distinct) :
    (Token.before c.closeKind t).beginsItem c = false := by
  simp [Token.beginsItem, Token.isOpening, Token.isSeparator, Token.before, hc.open_ne_close.symm,
    hc.separator_ne_close.symm]

theorem beginsItem_separator : (Token.before c.separatorKind t).beginsItem c = true := by
  simp [Token.beginsItem, Token.isSeparator, Token.before]

/-- The law in terms of the state in which the code is emitted. -/
theorem offside_iff (h : Tracks c s) :
    Offside c s.output.reverse t ↔ s.blocks.peek ≤ t.column ∧
      (t.column = s.blocks.peek ↔ ∃ d, s.codes.head? = some d ∧ d.beginsItem c = true) := by
  rw [Offside, lastCode_reverse, h.peek_eq]
  rfl

end

namespace Consistent

variable {c : Config} {m : Margins} {s s' : State} {xs ys : List Token} {t : Token}

/-- Between two tokens no item has just begun. -/
theorem not_beginsItem (hlaid : Laid c m (xs ++ t :: ys)) (h : Consistent c xs s) :
    ¬ ∃ d, s.codes.head? = some d ∧ d.beginsItem c = true := by
  rintro ⟨d, hd, hbegins⟩
  rw [h.newest] at hd
  have hreal := hlaid.real d (List.mem_append_left _ (mem_of_lastCode hd).1)
  simp [beginsItem_real hreal] at hbegins

/-- A line begins an item exactly if its delimiters end with a separator. -/
theorem beginsItem_delimiters (hc : c.Distinct) (hlaid : Laid c m (xs ++ t :: ys))
    (h : Consistent c xs s) :
    (∃ d, (s.delimiters c t ++ s.codes).head? = some d ∧ d.beginsItem c = true) ↔
      (s.blocks.dedent t.column).separates = true := by
  unfold State.delimiters
  cases hseparates : (s.blocks.dedent t.column).separates with
  | true => simp [beginsItem_separator]
  | false =>
    have hcodes := h.not_beginsItem hlaid
    cases hclosed : (s.blocks.dedent t.column).closed with
    | nil => simpa using hcodes
    | cons block outer => simp [beginsItem_close hc]

theorem offside_proceed (hc : c.Regular) (hlaid : Laid c m (xs ++ t :: ys)) (h : Consistent c xs s)
    (hcode : t.code = true) {atMargin : Bool} (hin : inMargin m t = .ok atMargin) :
    Offside c ((s.started c t atMargin).closeLet c t).output.reverse t := by
  have htracks := h.tracks.started hc.toDistinct atMargin fun _ => topLevel_le hlaid
  rw [offside_iff (htracks.closeLet hc.toDistinct)]
  cases atMargin with
  | true =>
    -- a line that begins with `t` ends no binding, so its delimiters are the newest code
    have hbegins := (inMargin_iff hlaid hcode hin).mp rfl
    have hends := h.lined.endsBinding_of_beginsLine hc hlaid hcode hbegins true
    have hblocks : ((s.started c t true).closeLet c t).blocks =
        (s.blocks.dedent t.column).remaining := by
      rw [State.closeLet_blocks, hends, State.started_true, if_neg (by simp),
        State.startLine_blocks, State.await_blocks]
    have hcodes : ((s.started c t true).closeLet c t).codes = s.delimiters c t ++ s.codes := by
      rw [State.codes_closeLet, hends, State.codes_started, if_neg (by simp), if_pos rfl]
    rw [hblocks, hcodes, h.beginsItem_delimiters hc.toDistinct hlaid, Blocks.dedent_separates]
    exact ⟨s.blocks.peek_dedent_le (topLevel_le hlaid), eq_comm⟩
  | false =>
    have hnot : ¬ BeginsLine (xs ++ t :: ys) t := by
      rw [← inMargin_iff hlaid hcode hin]
      simp
    have hpeek : ((s.started c t false).closeLet c t).blocks.peek < t.column := by
      refine Int.lt_of_le_of_lt htracks.peek_closeLet_le ?_
      rw [State.started_false, State.await_blocks]
      exact h.peek_lt hlaid hcode hnot
    have hitem : ¬ ∃ d, ((s.started c t false).closeLet c t).codes.head? = some d ∧
        d.beginsItem c = true := by
      have hcodes : (s.started c t false).codes = s.codes := by
        rw [State.codes_started, if_neg (by simp)]
      rw [State.codes_closeLet, hcodes]
      split
      · simp [beginsItem_close hc.toDistinct]
      · exact h.not_beginsItem hlaid
    exact ⟨Int.le_of_lt hpeek, iff_of_false (by omega) hitem⟩

/-- Each code token is emitted according to the law. -/
theorem offside_step (hc : c.Regular) (hlaid : Laid c m (xs ++ t :: ys)) (h : Consistent c xs s)
    (hcode : t.code = true) (hstep : Step c m s t s') :
    ∃ before, s'.output = t :: before ∧ Offside c before.reverse t := by
  cases hstep with
  | idles hphase =>
    refine ⟨s.output, by simp, (offside_iff h.tracks).mpr ?_⟩
    have hcolumn := hlaid.column_nonneg t (by simp)
    have hlt : s.blocks.peek < t.column := by
      rw [h.dormant hphase]
      unfold topLevel
      omega
    exact ⟨Int.le_of_lt hlt, iff_of_false (by omega) (h.not_beginsItem hlaid)⟩
  | opens _ _ _ =>
    refine ⟨Token.before c.openKind t :: s.output, by simp, ?_⟩
    have hinnermost : innermost c (Token.before c.openKind t :: s.output).reverse = t.column := by
      rw [innermost, openColumns_reverse_cons, track_open]
      rfl
    have hlast : lastCode (Token.before c.openKind t :: s.output).reverse =
        some (Token.before c.openKind t) := by
      rw [lastCode_reverse]
      rfl
    rw [Offside, hinnermost, hlast]
    refine ⟨Int.le_refl _, iff_of_true rfl ⟨_, rfl, ?_⟩⟩
    simp [Token.beginsItem, isOpening_before]
  | passes _ hleft hin => exact absurd hin (h.not_passes hlaid hcode (hleft hcode))
  | givesUp _ _ _ hin => exact ⟨_, rfl, (h.abandon _).offside_proceed hc hlaid hcode hin⟩
  | proceeds _ hin => exact ⟨_, rfl, h.offside_proceed hc hlaid hcode hin⟩

end Consistent

/-- The law holds of all real code that a run over laid tokens has emitted. -/
theorem offside_run {c : Config} (hc : c.Regular) {m : Margins} {tokens : List Token} {s : State}
    (hlaid : Laid c m tokens) (hrun : State.initial.run c m tokens = .ok s) :
    ∀ u older, u :: older <:+ s.output → u.code = true → u.virtual = false →
      Offside c older.reverse u := by
  intro u older hu hcode hreal
  obtain ⟨xs, ys, s₀, s₁, rfl, hxs, hstep, houtput⟩ := State.run_took hrun hcode hreal hu
  obtain ⟨before, hbefore, hlaw⟩ := (Consistent.run hc hlaid hxs).offside_step hc hlaid hcode hstep
  rw [houtput, List.cons.injEq] at hbefore
  rw [hbefore.2]
  exact hlaw

/-- In a resolved source every code token lies in the innermost open block, and in its column if and
only if an item of the block begins there. -/
theorem resolveText_offside {c : Config} (hc : c.Variant) {source : Text}
    {tokens : List OffsideRule.Token} (h : tokenize source = .ok tokens) :
    ∃ r, resolveText c source = .ok r ∧
      ∀ before t after, r.tokens = before ++ t :: after → t.code = true → t.virtual = false →
        Offside c before t := by
  obtain ⟨m, body, atEnd, s, _, hlaid, hend, hrun, hresolve⟩ := resolveText_eq c h
  refine ⟨_, hresolve, fun before t after htokens hcode hreal => ?_⟩
  have hlaid' : Laid c m (body ++ []) := by rwa [List.append_nil]
  have htracks := (Consistent.run hc.regular hlaid' hrun).tracks
  have hsuffix : t :: before.reverse <:+ (s.finish c atEnd).output := by
    refine ⟨after.reverse, ?_⟩
    have := congrArg List.reverse htokens
    simpa [Resolution.ofState] using this.symm
  have hs := State.suffix_of_suffix_finish htracks hend.2.1 hcode hreal hsuffix
  have := offside_run hc.regular hlaid hrun t before.reverse hs hcode hreal
  rwa [List.reverse_reverse] at this

/-- Two items of one block. -/
theorem resolveText_offside_items : ∃ r, resolveText .haskell "do x\n   y".toList = .ok r ∧
    ∀ before t after, r.tokens = before ++ t :: after → t.code = true → t.virtual = false →
      Offside .haskell before t :=
  resolveText_offside .haskell (tokenize_of_problem (by decide +kernel))

end OffsideRule.Layout
