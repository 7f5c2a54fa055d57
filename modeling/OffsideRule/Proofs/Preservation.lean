import OffsideRule.Proofs.Sources

/-! Resolution keeps the real tokens. It takes the tokens up to the first end of the input; each of
them that layout did not add is in the output once, unchanged and in order, and nothing follows
the end. -/

namespace OffsideRule.Layout

/-- The tokens that a resolution takes. -/
def upToEnd (tokens : List Token) : List Token :=
  tokens.takeWhile (!·.isEnd) ++ (tokens.find? (·.isEnd)).toList

structure Preserves (tokens output : List Token) : Prop where
  reals : output.filter (!·.virtual) = (upToEnd tokens).filter (!·.virtual)
  ends : output.filter (·.isEnd) = (tokens.find? (·.isEnd)).toList
  last : ∀ atEnd, tokens.find? (·.isEnd) = some atEnd → output.getLast? = some atEnd

/-- No end is put out before the end of the input. -/
theorem ends_run {c : Config} {m : Margins} {tokens : List Token} {s : State}
    (hrun : State.initial.run c m (tokens.takeWhile (!·.isEnd)) = .ok s) :
    s.output.filter (·.isEnd) = [] := by
  apply List.filter_eq_nil_iff.mpr
  intro u hu
  rcases State.run_mem_output hrun hu with hu | hdelimiter
  · simpa using List.mem_takeWhile_imp hu
  · simp [hdelimiter.isEnd]

/-- The end of the input is the only one that is put out. -/
theorem ends_finish {c : Config} {m : Margins} {tokens : List Token} {s : State} {atEnd : Token}
    (hend : atEnd.isEnd = true)
    (hrun : State.initial.run c m (tokens.takeWhile (!·.isEnd)) = .ok s) :
    (s.finish c atEnd).output.filter (·.isEnd) = [atEnd] := by
  obtain ⟨added, houtput, hadded⟩ := s.finish_added c atEnd
  have hnone : added.filter (·.isEnd) = [] := by
    refine List.filter_eq_nil_iff.mpr fun u hu => ?_
    rcases hadded u hu with rfl | rfl <;> simp [Token.isEnd, Token.before]
  rw [houtput, List.filter_cons_of_pos hend, List.filter_append, hnone, ends_run hrun,
    List.append_nil]

theorem exists_preserves (c : Config) {m : Margins} {tokens : List Token}
    (h : ∀ t ∈ tokens, t.code = true → m.Covers t.line) :
    ∃ r, resolve c m tokens = .ok r ∧ Preserves tokens r.tokens := by
  obtain ⟨s, r, hrun, hresolve, hr⟩ := resolve_run c h
  have hreals : s.reals = ((tokens.takeWhile (!·.isEnd)).filter (!·.virtual)).reverse := by
    rw [State.run_reals hrun]
    exact List.append_nil _
  refine ⟨r, hresolve, ?_⟩
  rcases hr with ⟨hfind, rfl⟩ | ⟨atEnd, hfind, rfl⟩
  · refine ⟨?_, ?_, by simp [hfind]⟩
    · rw [Resolution.ofState, List.filter_reverse, ← State.reals, hreals, List.reverse_reverse,
        upToEnd, hfind, Option.toList_none, List.append_nil]
    · rw [Resolution.ofState, List.filter_reverse, ends_run hrun, hfind]
      rfl
  · refine ⟨?_, ?_, ?_⟩
    · rw [Resolution.ofState, List.filter_reverse, ← State.reals, State.reals_finish, hreals,
        List.reverse_append, List.reverse_reverse, upToEnd, hfind, List.filter_append,
        ← List.filter_reverse]
      rfl
    · rw [Resolution.ofState, List.filter_reverse, ends_finish (List.find?_some hfind) hrun, hfind]
      rfl
    · intro last hlast
      rw [hfind] at hlast
      rw [Resolution.ofState, List.getLast?_reverse, ← hlast]
      rfl

/-- The end of an output that preserves its input is its last token and its only end. -/
theorem Preserves.eq_concat {tokens output : List Token} {atEnd : Token}
    (hfind : tokens.find? (·.isEnd) = some atEnd) (h : Preserves tokens output) :
    ∃ front, output = front ++ [atEnd] ∧ ∀ t ∈ front, t.isEnd = false := by
  obtain ⟨front, rfl⟩ := List.getLast?_eq_some_iff.mp (h.last atEnd hfind)
  have hend : atEnd.isEnd = true := List.find?_some hfind
  have hends := h.ends
  rw [hfind, List.filter_append, List.filter_cons_of_pos hend] at hends
  have hnone : front.filter (·.isEnd) = [] := by simpa using hends
  refine ⟨front, rfl, fun t ht => ?_⟩
  simpa using List.filter_eq_nil_iff.mp hnone t ht

/-- An input whose one end comes last is taken as a whole. -/
theorem upToEnd_concat {body : List Token} {atEnd : Token} (hbody : ∀ t ∈ body, t.isEnd = false)
    (hend : atEnd.isEnd = true) :
    upToEnd (body ++ [atEnd]) = body ++ [atEnd] ∧
      (body ++ [atEnd]).find? (·.isEnd) = some atEnd := by
  have hfind : (body ++ [atEnd]).find? (·.isEnd) = some atEnd := by
    rw [List.find?_append, List.find?_eq_none.mpr fun t ht => by simp [hbody t ht]]
    simp [hend]
  refine ⟨?_, hfind⟩
  rw [upToEnd, hfind, List.takeWhile_append_of_pos fun t ht => by simp [hbody t ht]]
  simp [hend]

/-- The layout of nonempty spans in order ends with its one end, and the real tokens before it are
those that were placed. -/
theorem layOut_preserves (c : Config) {raws : List Raw} (h : Ordered raws) (bufferEnd : Int) :
    ∃ front atEnd, (layOut c raws bufferEnd).tokens = front ++ [atEnd] ∧ atEnd.isEnd = true ∧
      (∀ t ∈ front, t.isEnd = false) ∧
      front.filter (!·.virtual) ++ [atEnd] = (place c raws bufferEnd).tokens := by
  obtain ⟨body, atEnd, hplace, hlaid, hkind, _, hreal⟩ := laid_place c h bufferEnd
  have hend : atEnd.isEnd = true := by simp [Token.isEnd, hkind]
  have hbody : ∀ t ∈ body, t.isEnd = false := fun t ht =>
    Option.isNone_eq_false_iff.mpr (Option.isSome_iff_ne_none.mpr (hlaid.kinded t ht))
  obtain ⟨htaken, hfind⟩ := upToEnd_concat hbody hend
  obtain ⟨r, hr, hpreserves⟩ :=
    exists_preserves c fun t ht _ => place_covers c raws bufferEnd t ht
  rw [resolve_place, Except.ok.injEq] at hr
  subst hr
  rw [hplace] at hpreserves ⊢
  obtain ⟨front, houtput, hfront⟩ := hpreserves.eq_concat hfind
  refine ⟨front, atEnd, houtput, hend, hfront, ?_⟩
  have hreals := hpreserves.reals
  have hall : (body ++ [atEnd]).filter (!·.virtual) = body ++ [atEnd] := by
    apply List.filter_eq_self.mpr
    intro t ht
    rcases List.mem_append.mp ht with ht | ht
    · simp [hlaid.real t ht]
    · simp [List.mem_singleton.mp ht, hreal]
  rw [htaken, hall, houtput, List.filter_append] at hreals
  rw [← hreals]
  simp [hreal]

/-- Resolving any tokens, of which the code does not lie left of the outermost block, keeps the real
ones up to the first end. Of a source that can be read, the output ends with the one end of the
input, and the real tokens before it are those that were placed. -/
theorem resolve_preserves (c : Config) :
    (∀ m tokens, (∀ t ∈ tokens, t.code = true → -1 ≤ t.column ∧ m.Covers t.line) →
      ∃ r, resolve c m tokens = .ok r ∧ Preserves tokens r.tokens) ∧
    ∀ source tokens, tokenize source = .ok tokens →
      ∃ r front atEnd, resolveText c source = .ok r ∧ r.tokens = front ++ [atEnd] ∧
        atEnd.isEnd = true ∧ (∀ t ∈ front, t.isEnd = false) ∧
        front.filter (!·.virtual) ++ [atEnd] = placed c source tokens := by
  constructor
  · intro m tokens hcode
    exact exists_preserves c fun t ht hcodes => (hcode t ht hcodes).2
  · intro source tokens htokens
    obtain ⟨front, atEnd, hlayOut⟩ := layOut_preserves c (ordered_rawTokens htokens) source.length
    exact ⟨_, front, atEnd, by rw [resolveText, htokens, Except.map], hlayOut⟩

/-- A block that does not reach its end, with a delimiter already in place. -/
def unfinished : List Token :=
  [⟨some (.keyword .doK), 0, 2, 0, 0, true, false⟩, ⟨some .newline, 2, 3, 2, 0, false, false⟩,
    ⟨some .virtualSemicolon, 5, 5, 2, 1, true, true⟩, ⟨some .variableId, 5, 6, 2, 1, true, false⟩]

theorem resolve_preserves_unfinished :
    (∃ r, resolve .haskell ⟨#[some 0, some 2]⟩ unfinished = .ok r ∧
      Preserves unfinished r.tokens) ∧
    ∃ tokens r front atEnd, tokenize "do x\n   y".toList = .ok tokens ∧
      resolveText .haskell "do x\n   y".toList = .ok r ∧ r.tokens = front ++ [atEnd] ∧
      atEnd.isEnd = true ∧ (∀ t ∈ front, t.isEnd = false) ∧
      front.filter (!·.virtual) ++ [atEnd] = placed .haskell "do x\n   y".toList tokens := by
  have h : tokenize "do x\n   y".toList = .ok _ := tokenize_of_problem (by decide +kernel)
  obtain ⟨r, front, atEnd, hr⟩ := (resolve_preserves .haskell).2 _ _ h
  exact ⟨(resolve_preserves .haskell).1 _ unfinished (by decide), _, r, front, atEnd, h, hr⟩

end OffsideRule.Layout
