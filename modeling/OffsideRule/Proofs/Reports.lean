import OffsideRule.Diagnostics
import OffsideRule.Proofs.Accounting
import OffsideRule.Proofs.Histories
import OffsideRule.Proofs.Splitting

/-! Reports to an editor. Each update is answered by one report, on its text alone: a step answers
from what the update put into the workspace, and so does every step of a run. The places in a report
are those of the offsets that were found: the running line and column of the tokenizer and the count
of line feeds before an offset agree. A fault is reported at the character it lies at, and each block
that was given up at the keyword that should have opened it. -/

namespace OffsideRule

theorem Reads.text_of_keyword {c c' : Cursor} {tokens : List Token} (h : Reads c tokens c') :
    ∀ t ∈ tokens, ∀ k, t.kind = .keyword k → t.text = k.word.toList := by
  induction h with
  | refl c => simp
  | step hheads _ ih =>
    intro t ht k hk
    rcases List.mem_cons.mp ht with rfl | ht
    · exact hheads.take_of_keyword hk
    · exact ih t ht k hk

theorem Keyword.lineFeeds_word (k : Keyword) : Text.lineFeeds k.word.toList = 0 := by
  cases k <;> decide

namespace Layout

theorem Config.Variant.exists_keyword {c : Config} (hc : c.Variant) {kind : Option Kind}
    (h : c.isOpener kind = true) : ∃ word, kind = some (.keyword word) := by
  obtain ⟨kinds, close, hkinds, rfl⟩ := hc.shape
  cases kind with
  | none => contradiction
  | some kind =>
    obtain ⟨word, rfl⟩ := hkinds kind (by simpa [isOpener] using h)
    exact ⟨word, rfl⟩

/-- A placed token that has a kind stands where a token of the text stands. -/
theorem exists_token_of_placed {c : Config} {source : Text} {front : List OffsideRule.Token}
    {last : OffsideRule.Token} {k : Token} (hk : k ∈ placed c source (front ++ [last]))
    (hkind : k.kind ≠ none) :
    ∃ t ∈ front, k.kind = some t.kind ∧ k.start = t.start.offset ∧ k.stop = t.stop.offset := by
  have hraw := List.mem_map_of_mem (f := Token.raw) hk
  rw [placed, place, Placement.run_raws, rawTokens_concat] at hraw
  rcases List.mem_append.mp hraw with hraw | hraw
  · obtain ⟨t, ht, heq⟩ := List.mem_map.mp hraw
    simp only [Token.raw, Raw.mk.injEq] at heq
    exact ⟨t, ht, heq.1.symm, heq.2.1.symm, heq.2.2.symm⟩
  · simp only [Token.raw, List.mem_singleton, Raw.mk.injEq] at hraw
    exact absurd hraw.1 hkind

/-- The warnings are about the openers that were given up, in the order of the source. -/
theorem resolveText_given {c : Config} (hc : c.Variant) {source : Text}
    {tokens : List OffsideRule.Token} (h : tokenize source = .ok tokens) :
    ∃ (r : Resolution) (given : List Token), resolveText c source = .ok r ∧
      r.warnings = given.map Token.givenUp ∧ given.Sublist (placed c source tokens) ∧
      ∀ k, k ∈ given ↔ c.isOpener k.kind = true ∧
        ∃ front back, placed c source tokens = front ++ k :: back ∧
          Meets c r front k back .givenUp := by
  obtain ⟨m, body, atEnd, s, hplace, hlaid, hend, hrun, hresolve⟩ := resolveText_eq c h
  have haccounts := Accounts.run hc.regular hlaid hrun
  obtain ⟨given, hgiven, hwarnings⟩ := haccounts.warned
  replace hgiven : given.Sublist body := (List.sublist_append_left _ _).trans hgiven
  have haccounted := haccounts.accounted hc.regular.toDistinct hlaid hend
    (body ++ [atEnd]).length s.blocks.depth
  rw [hplace]
  generalize hr : Resolution.ofState (s.finish c atEnd) (body ++ [atEnd]).length s.blocks.depth = r
    at hresolve haccounted
  have hwarned : r.warnings = given.map Token.givenUp := by
    rw [← hr, Resolution.ofState, State.finish_warnings, hwarnings, List.reverse_reverse]
  have hbody {k : Token} (hk : k ∈ body ++ [atEnd]) (hopener : c.isOpener k.kind = true) :
      k ∈ body := by
    rcases List.mem_append.mp hk with hk | hk
    · exact hk
    · rw [List.mem_singleton.mp hk, hend.1] at hopener
      contradiction
  have hsame {k k' : Token} (hk : k ∈ body) (hk' : k' ∈ body) (heq : k.givenUp = k'.givenUp) :
      k = k' :=
    hlaid.eq_of_start hk hk' (congrArg Warning.start heq)
  refine ⟨r, given, hresolve, hwarned, hgiven.trans (List.sublist_append_left _ _), fun k => ⟨?_, ?_⟩⟩
  · intro hk
    have hw : k.givenUp ∈ r.warnings := hwarned ▸ List.mem_map_of_mem hk
    obtain ⟨front, k', back, hinput, hopener, heq, hmeets⟩ := haccounted.warnings _ hw
    have hk' : k' ∈ body := hbody (by simp [hinput]) hopener
    cases hsame (hgiven.subset hk) hk' heq
    exact ⟨hopener, front, back, hinput, hmeets⟩
  · rintro ⟨hopener, front, back, hinput, hmeets⟩
    have hk : k ∈ body := hbody (by simp [hinput]) hopener
    have hw : k.givenUp ∈ r.warnings := by
      cases hmeets with
      | givenUp _ _ _ _ _ _ _ hfilter =>
        have hself : k.givenUp ∈ [k.givenUp] := List.mem_singleton_self _
        rw [← hfilter] at hself
        exact List.mem_of_mem_filter hself
    rw [hwarned] at hw
    obtain ⟨k', hk', heq⟩ := List.mem_map.mp hw
    exact hsame (hgiven.subset hk') hk heq ▸ hk'

end Layout

namespace Editor

/-- The place of an offset: the line feeds before it, and its distance from the start of the line
that they leave. -/
structure Marks (source : Text) (offset : Nat) (p : Place) : Prop where
  within : offset ≤ source.length
  line : p.line = Text.lineFeeds (source.take offset)
  character : ∃ lines onLine, source.take offset = lines ++ onLine ∧
    (lines = [] ∨ lines.getLast? = some '\n') ∧ '\n' ∉ onLine ∧ p.character = onLine.length

/-- The diagnostic is about what stands between two offsets. -/
structure Covers (source : Text) (first last : Nat) (d : Diagnostic) : Prop where
  start : Marks source first d.start
  stop : Marks source last d.stop

/-- An error at the one character where a text becomes unreadable. -/
structure ReportsFault (source : Text) (f : Fault) (d : Diagnostic) : Prop where
  severity : d.severity = .error
  message : d.message = f.message
  covers : Covers source f.position.offset (f.position.offset + 1) d
  character : ∃ c, source[f.position.offset]? = some c ∧ c ≠ '\n'

/-- A warning at the keyword whose block was given up. -/
structure ReportsOpener (source : Text) (k : Layout.Token) (d : Diagnostic) : Prop where
  severity : d.severity = .warning
  message : d.message = k.givenUp.message
  covers : ∃ first last : Nat, k.start = first ∧ k.stop = last ∧ Covers source first last d
  line : d.start.line = d.stop.line
  keyword : ∃ word : Keyword, k.kind = some (.keyword word) ∧
    source.slice k.start k.stop = word.word.toList

/-- The numbers of a place do not exceed the length of the text. -/
def Place.Within (source : Text) (p : Place) : Prop :=
  p.line ≤ source.length ∧ p.character ≤ source.length

/-- Diagnostics of a text: its fault, or else the openers that layout gave up, each once and in the
order of the text. -/
structure Describes (text : Text) (diagnostics : List Diagnostic) : Prop where
  unreadable : ∀ f, tokenize text = .error f → ∃ d, diagnostics = [d] ∧ ReportsFault text f d
  readable : ∀ tokens, tokenize text = .ok tokens →
    ∃ (r : Layout.Resolution) (given : List Layout.Token),
      Layout.resolveText .haskell text = .ok r ∧
      given.Sublist (Layout.placed .haskell text tokens) ∧
      (∀ k, k ∈ given ↔ Layout.Config.haskell.isOpener k.kind = true ∧
        ∃ front back, Layout.placed .haskell text tokens = front ++ k :: back ∧
          Layout.Meets .haskell r front k back .givenUp) ∧
      List.Forall₂ (ReportsOpener text) given diagnostics
  within : ∀ d ∈ diagnostics, d.start.Within text ∧ d.stop.Within text

section Places

variable {source : Text} {offset : Nat}

theorem marks_ofOffset (h : offset ≤ source.length) :
    Marks source offset (.ofOffset source offset) where
  within := h
  line := rfl
  character := by
    have hlength : (source.take offset).length = offset := List.length_take_of_le h
    have hsplit := congrArg List.reverse
      (List.takeWhile_append_dropWhile (p := (· ≠ '\n')) (l := (source.take offset).reverse))
    rw [List.reverse_append, List.reverse_reverse] at hsplit
    refine ⟨_, _, hsplit.symm, ?_, ?_, ?_⟩
    · rw [List.getLast?_reverse]
      cases hrest : (source.take offset).reverse.dropWhile (· ≠ '\n') with
      | nil => exact Or.inl rfl
      | cons c more =>
        have hhead := List.head?_dropWhile_not (· ≠ '\n') (source.take offset).reverse
        rw [hrest] at hhead
        exact Or.inr (by simpa using hhead)
    · intro hmem
      simpa using List.mem_takeWhile_imp (List.mem_reverse.mp hmem)
    · have hle := congrArg List.length hsplit
      simp only [List.length_append, List.length_reverse] at hle
      simp only [Place.ofOffset, List.length_reverse]
      omega

/-- The running line and column are those that are counted from the offset. -/
theorem ofOffset_eq (w rest : Text) :
    Place.ofOffset (w ++ rest) w.length =
      ⟨(Position.origin.advance w).line - 1, (Position.origin.advance w).column - 1⟩ := by
  have hle := (List.takeWhile_sublist (· ≠ '\n') (l := w.reverse)).length_le
  rw [List.length_reverse] at hle
  rw [Position.line_advance, Position.column_advance_origin, Place.ofOffset, List.take_left]
  simp only [Place.mk.injEq, Position.origin]
  omega

theorem Marks.place_within {p : Place} (h : Marks source offset p) : p.Within source := by
  have htake := List.length_take_of_le h.within
  have hwithin := h.within
  obtain ⟨lines, onLine, hsplit, _, _, hcharacter⟩ := h.character
  have hline : p.line ≤ (source.take offset).length := h.line ▸ List.count_le_length
  rw [hsplit, List.length_append] at htake hline
  exact ⟨by omega, by omega⟩

end Places

theorem text_whole (source : Text) : Start.text { buffer := source } = source :=
  source.slice_length

section Diagnose

variable {source : Text} {f : Fault} {tokens : List OffsideRule.Token}

theorem diagnose_of_error (h : tokenize source = .error f) : diagnose source = [.ofFault f] := by
  have hstart : (TokenStream.empty.start { buffer := source }).1 = some f := by
    rw [TokenStream.start, text_whole, h]
  simp [diagnose, Layout.Stream.start, Layout.Stream.ofConfig, hstart]

theorem diagnose_of_ok (h : tokenize source = .ok tokens) {r : Layout.Resolution}
    (hr : Layout.resolveText .haskell source = .ok r) :
    diagnose source = r.warnings.map (.ofWarning source) := by
  have htext : tokenize (Start.text { buffer := source }) = .ok tokens := by rwa [text_whole]
  obtain ⟨hfault, hremaining, hbufferEnd⟩ := Layout.started_of_ok .empty rfl htext
  rw [Layout.resolveText_of_tokenize .haskell h, Except.ok.injEq] at hr
  simp [diagnose, Layout.Stream.start, Layout.Stream.ofConfig, hfault, hremaining, hbufferEnd,
    Layout.Stream.warnings, Start.bufferEnd, hr]

theorem reportsFault (h : tokenize source = .error f) :
    ReportsFault source f (.ofFault f) := by
  obtain ⟨front, c, o, hreads, herror, rfl⟩ := exists_reads_of_fault h
  have hsource : source = front.flatMap Token.text ++ c.rest := hreads.rest_eq
  have hposition := hreads.position_eq
  have hoffset := hreads.offset_eq
  generalize front.flatMap Token.text = w at hsource hposition hoffset
  cases hrest : c.rest with
  | nil =>
    rw [hrest] at herror
    contradiction
  | cons x more =>
    have hx : x ≠ '\n' := by
      rintro rfl
      rw [hrest] at herror
      contradiction
    rw [hrest] at hsource
    have hlength : w.length + 1 ≤ source.length := by simp [hsource]
    have hstart : Place.ofOffset source w.length = ⟨c.position.line - 1, c.position.column - 1⟩ := by
      rw [hsource, hposition]
      exact ofOffset_eq w _
    have hstop : Place.ofOffset source (w.length + 1) = ⟨c.position.line - 1, c.position.column⟩ := by
      have hconcat := ofOffset_eq (w ++ [x]) more
      rw [List.append_assoc, List.singleton_append, List.length_append, List.length_singleton,
        Position.advance_append, Position.advance_singleton, Position.next, if_neg hx] at hconcat
      rw [hsource, hposition]
      exact hconcat
    refine ⟨rfl, rfl, ⟨?_, ?_⟩, x, ?_, hx⟩
    · rw [Diagnostic.ofFault, ← hstart, hoffset]
      exact marks_ofOffset (by omega)
    · rw [Diagnostic.ofFault, ← hstop, hoffset]
      exact marks_ofOffset hlength
    · rw [hoffset, hsource]
      simp

theorem covers_ofWarning {w : Layout.Warning} {first last : Nat} (hfirst : w.start = first)
    (hlast : w.stop = last) (hle : first ≤ last) (hwithin : last ≤ source.length) :
    Covers source first last (.ofWarning source w) := by
  refine ⟨?_, ?_⟩
  · rw [Diagnostic.ofWarning, hfirst, Int.toNat_natCast]
    exact marks_ofOffset (Nat.le_trans hle hwithin)
  · rw [Diagnostic.ofWarning, hlast, Int.toNat_natCast]
    exact marks_ofOffset hwithin

theorem reportsOpener (h : tokenize source = .ok tokens) {k : Layout.Token}
    (hk : k ∈ Layout.placed .haskell source tokens)
    (hopener : Layout.Config.haskell.isOpener k.kind = true) :
    ReportsOpener source k (.ofWarning source k.givenUp) := by
  obtain ⟨front, c, hreads, hend, rfl⟩ := exists_reads_of_tokenize h
  obtain ⟨word, hword⟩ := Layout.Config.Variant.haskell.exists_keyword hopener
  obtain ⟨t, ht, hkind, hstart, hstop⟩ := Layout.exists_token_of_placed hk (by simp [hword])
  have hkeyword : t.kind = .keyword word := Option.some.inj (hkind.symm.trans hword)
  have htext := hreads.text_of_keyword t ht word hkeyword
  rw [hreads.sliced t ht] at htext
  have hle := Nat.le_of_lt (hreads.tiles.start_lt_stop t ht)
  have hwithin := hreads.tiles.stop_le t ht
  rw [hreads.offset_of_nil hend] at hwithin
  have hcovers := covers_ofWarning (w := k.givenUp) hstart hstop hle hwithin
  refine ⟨rfl, rfl, ⟨_, _, hstart, hstop, hcovers⟩, ?_, word, hword, by rw [hstart, hstop, htext]⟩
  -- the keyword holds no line feed
  have hlines := hreads.lineFeeds_of_mem t ht
  rw [hreads.text_of_keyword t ht word hkeyword, word.lineFeeds_word] at hlines
  rw [hcovers.start.line, hcovers.stop.line, hlines, Nat.add_zero]

theorem Covers.within {first last : Nat} {d : Diagnostic} (h : Covers source first last d) :
    d.start.Within source ∧ d.stop.Within source :=
  ⟨h.start.place_within, h.stop.place_within⟩

theorem describes_of_error (h : tokenize source = .error f) :
    Describes source (diagnose source) where
  unreadable := by
    intro f' hf
    rw [h, Except.error.injEq] at hf
    subst hf
    exact ⟨_, diagnose_of_error h, reportsFault h⟩
  readable := by
    intro tokens htokens
    rw [h] at htokens
    contradiction
  within := by
    intro d hd
    rw [diagnose_of_error h, List.mem_singleton] at hd
    subst hd
    exact (reportsFault h).covers.within

theorem describes_of_ok (h : tokenize source = .ok tokens) :
    Describes source (diagnose source) := by
  obtain ⟨r, given, hr, hwarnings, hgiven, hiff⟩ :=
    Layout.resolveText_given Layout.Config.Variant.haskell h
  have hdiagnose : diagnose source =
      given.map fun k => Diagnostic.ofWarning source k.givenUp := by
    rw [diagnose_of_ok h hr, hwarnings, List.map_map]
    rfl
  have hreports : ∀ k ∈ given, ReportsOpener source k (.ofWarning source k.givenUp) :=
    fun k hk => reportsOpener h (hgiven.subset hk) ((hiff k).mp hk).1
  refine ⟨fun f hf => ?_, fun tokens' htokens => ?_, fun d hd => ?_⟩
  · rw [h] at hf
    contradiction
  · rw [h, Except.ok.injEq] at htokens
    subst htokens
    refine ⟨r, given, hr, hgiven, hiff, ?_⟩
    rw [hdiagnose, List.forall₂_map_right_iff, List.forall₂_same]
    exact hreports
  · rw [hdiagnose] at hd
    obtain ⟨k, hk, rfl⟩ := List.mem_map.mp hd
    obtain ⟨_, _, _, _, hcovers⟩ := (hreports k hk).covers
    exact hcovers.within

end Diagnose

section Workspace

/-- One step answers the update with one report, on its text, whatever the workspace held before. -/
theorem Workspace.step_reports (w : Workspace) (u : Update) :
    (w.step u).1 = [⟨u.uri, diagnose u.text⟩] := by
  have htext : (w.put u).text? u.uri = some u.text := by simp [put, text?]
  rw [step, validate, htext]
  rfl

theorem Workspace.answers_eq (w : Workspace) (updates : List Update) :
    w.answers updates = updates.map fun u => [⟨u.uri, diagnose u.text⟩] := by
  induction updates generalizing w with
  | nil => rfl
  | cons u more ih =>
    have hanswers : w.answers (u :: more) = (w.step u).1 :: (w.step u).2.answers more := rfl
    rw [hanswers, w.step_reports, ih, List.map_cons]

end Workspace

/-- Each update is answered by one report, which is that of its text whatever came before, and the
diagnostics in it describe this text. -/
theorem reports_describe (w : Workspace) (updates : List Update) :
    w.answers updates = (updates.map fun u => [⟨u.uri, diagnose u.text⟩]) ∧
      ∀ text, Describes text (diagnose text) := by
  refine ⟨w.answers_eq updates, fun text => ?_⟩
  cases h : tokenize text with
  | error f => exact describes_of_error h
  | ok tokens => exact describes_of_ok h

/-- The second item of the block is an opener whose own block is missing. -/
def bareOpener : Text :=
  "do x\n   do\n   y".toList

/-- A text that cannot be read is changed to one that can. -/
theorem reports_describe_changed :
    ∃ f d k w, tokenize openString = .error f ∧
      Workspace.empty.answers [⟨"a.hs", openString⟩, ⟨"a.hs", bareOpener⟩] =
        [[⟨"a.hs", [d]⟩], [⟨"a.hs", [w]⟩]] ∧
      ReportsFault openString f d ∧ ReportsOpener bareOpener k w := by
  obtain ⟨hreports, hdescribes⟩ :=
    reports_describe .empty [⟨"a.hs", openString⟩, ⟨"a.hs", bareOpener⟩]
  have hproblem : (Pass.run (.start openString)).problem = some (.openString, ⟨1, 3, 2⟩) := by
    decide +kernel
  have herror : tokenize openString = .error ⟨.openString, ⟨1, 3, 2⟩, openString⟩ := by
    simp only [tokenize, hproblem]
  have hok : tokenize bareOpener = .ok _ := tokenize_of_problem (by decide +kernel)
  obtain ⟨d, hd, hfault⟩ := (hdescribes openString).unreadable _ herror
  obtain ⟨_, _, _, _, _, hopeners⟩ := (hdescribes bareOpener).readable _ hok
  have hone : (diagnose bareOpener).length = 1 := by decide +kernel
  obtain ⟨w, hw⟩ := List.length_eq_one_iff.mp hone
  rw [hw] at hopeners
  cases hopeners with
  | cons hopener _ =>
    rw [List.map_cons, List.map_cons, List.map_nil, hd, hw] at hreports
    exact ⟨_, d, _, w, herror, hreports, hfault, hopener⟩

end Editor

end OffsideRule
