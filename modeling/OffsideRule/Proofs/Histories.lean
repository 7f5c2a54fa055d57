import OffsideRule.Layout.Stream
import OffsideRule.Proofs.Preservation

/-! Histories of a layout stream. A start that is not refused forgets what was before it: from then
on the stream serves one fixed resolution, its place is the number of moves since then or the last
token, and a refused start changes nothing. A start that fails leaves the empty resolution, in which
there is no place to move to. -/

namespace OffsideRule.Layout

/-- Starts in the middle of a buffer, or in a state other than the first. -/
def Incremental (request : Start) : Prop :=
  request.startOffset ≠ 0 ∨ request.state ≠ 0

instance (request : Start) : Decidable (Incremental request) :=
  inferInstanceAs (Decidable (_ ∨ _))

/-- From the front of a buffer a tokenizer serves the tokens of the text, whatever it served before. -/
theorem started_of_ok (t : TokenStream) {request : Start} {tokens : List OffsideRule.Token}
    (hoffset : request.startOffset = 0) (h : tokenize request.text = .ok tokens) :
    (t.start request).1 = none ∧ (t.start request).2.remaining = rawTokens tokens ∧
      (t.start request).2.bufferEnd = request.bufferEnd := by
  rw [TokenStream.start, h]
  refine ⟨rfl, ?_, rfl⟩
  simp [TokenStream.remaining, rawTokens, hoffset]

/-- No tokens, or tokens that end with the only end among them. -/
def EndsOnce (tokens : List Token) : Prop :=
  tokens = [] ∨ ∃ front atEnd, tokens = front ++ [atEnd] ∧ atEnd.isEnd = true ∧
    ∀ t ∈ front, t.isEnd = false

namespace Stream

/-- Whether a failure refuses a start before anything is read. -/
def Failure.refuses : Failure → Bool
  | startOffset _ => true
  | initialState _ => true
  | unreadable _ => false

/-- What a stream is told to do. -/
inductive Call
  | start (request : Start)
  | advance
  deriving DecidableEq, Repr

/-- The stream behind a call, whatever the call answers. -/
def call (s : Stream) : Call → Stream
  | .start request => (s.start request).2
  | .advance => s.advance

/-- The stream behind a history of calls. -/
def calls (s : Stream) (history : List Call) : Stream :=
  history.foldl call s

/-- A stream that has not been started, over a tokenizer that may have been. -/
def unstarted (source : TokenStream) (c : Config) : Stream :=
  ⟨source, c, .empty, 0⟩

variable {s : Stream} {request : Start}

theorem start_of_incremental (h : Incremental request) :
    (∃ e, (s.start request).1 = some e ∧ e.refuses = true) ∧ (s.start request).2 = s := by
  unfold start
  by_cases hoffset : request.startOffset = 0
  · have hstate : request.state ≠ 0 := h.resolve_left (not_not_intro hoffset)
    rw [if_neg (not_not_intro hoffset), if_pos hstate]
    exact ⟨⟨_, rfl, rfl⟩, rfl⟩
  · rw [if_pos hoffset]
    exact ⟨⟨_, rfl, rfl⟩, rfl⟩

/-- No other start is refused, though it may fail. -/
theorem incremental_of_refuses {e : Failure} (h : (s.start request).1 = some e)
    (hrefuses : e.refuses = true) : Incremental request := by
  refine Decidable.byContradiction fun hnot => ?_
  obtain ⟨hoffset, hstate⟩ := not_or.mp hnot
  rw [start, if_neg hoffset, if_neg hstate] at h
  simp only at h
  split at h
  · cases h
    contradiction
  · contradiction

theorem start_config (s : Stream) (request : Start) : (s.start request).2.config = s.config := by
  unfold start
  split
  · rfl
  · split
    · rfl
    · simp only
      split <;> rfl

theorem advance_config (s : Stream) : s.advance.config = s.config := by
  unfold advance
  split <;> rfl

theorem calls_config (s : Stream) (history : List Call) : (s.calls history).config = s.config := by
  induction history generalizing s with
  | nil => rfl
  | cons c more ih =>
    rw [calls, List.foldl_cons, ← calls, ih]
    cases c with
    | start request => exact s.start_config request
    | advance => exact s.advance_config

/-- The stream is `k` moves behind the front of a resolution, or at its last token. -/
structure Serves (r : Resolution) (k : Nat) (s : Stream) : Prop where
  resolution : s.resolution = r
  index : s.index = min k (r.tokens.length - 1)

/-- What a start that is not refused brings about: on failure nothing is served, and otherwise a
resolution from its front. -/
theorem exists_serves (c : Config) (h : ¬ Incremental request) :
    ∃ failure? r, (∀ s : Stream, s.config = c →
        (s.start request).1 = failure? ∧ Serves r 0 (s.start request).2) ∧
      EndsOnce r.tokens ∧ (failure? = none → r.tokens ≠ []) ∧ (failure? ≠ none → r = .empty) := by
  obtain ⟨hoffset, hstate⟩ := not_or.mp h
  cases htokens : tokenize request.text with
  | error fault =>
    refine ⟨some (.unreadable fault), .empty, fun s hs => ?_, Or.inl rfl, by simp, fun _ => rfl⟩
    rw [start, if_neg hoffset, if_neg hstate, TokenStream.start, htokens]
    exact ⟨rfl, rfl, rfl⟩
  | ok tokens =>
    obtain ⟨front, atEnd, houtput, hend, hfront, _⟩ :=
      layOut_preserves c (ordered_rawTokens htokens) request.bufferEnd
    refine ⟨none, layOut c (rawTokens tokens) request.bufferEnd, fun s hs => ?_,
      Or.inr ⟨front, atEnd, houtput, hend, hfront⟩, by simp [houtput], by simp⟩
    obtain ⟨hfault, hremaining, hbufferEnd⟩ :=
      started_of_ok s.source (Decidable.of_not_not hoffset) htokens
    rw [start, if_neg hoffset, if_neg hstate]
    simp only [hfault, hremaining, hbufferEnd, hs]
    exact ⟨trivial, rfl, by simp⟩

namespace Serves

variable {r : Resolution} {k : Nat}

theorem tokens_eq (h : Serves r k s) : s.tokens = r.tokens :=
  congrArg Resolution.tokens h.resolution

theorem warnings_eq (h : Serves r k s) : s.warnings = r.warnings :=
  congrArg Resolution.warnings h.resolution

theorem current?_eq (h : Serves r k s) : s.current? = r.tokens[min k (r.tokens.length - 1)]? := by
  rw [current?, h.tokens_eq, h.index]

theorem advance (h : Serves r k s) (hends : EndsOnce r.tokens) : Serves r (k + 1) s.advance := by
  have hcurrent := h.current?_eq
  have hindex := h.index
  rcases hends with hnil | ⟨front, atEnd, htokens, hend, hfront⟩
  · have hsame : s.advance = s := by simp [Stream.advance, hcurrent, hnil]
    rw [hsame]
    exact ⟨h.resolution, by simp [hindex, hnil]⟩
  · have hlength : r.tokens.length - 1 = front.length := by simp [htokens]
    rw [hlength, htokens] at hcurrent
    rw [hlength] at hindex
    rcases Nat.lt_or_ge k front.length with hk | hk
    · have hopen : s.current? = some front[k] := by
        rw [hcurrent, Nat.min_eq_left (Nat.le_of_lt hk), List.getElem?_append_left hk,
          List.getElem?_eq_getElem hk]
      have hmoved : s.advance = { s with index := s.index + 1 } := by
        simp [Stream.advance, hopen, hfront front[k] (List.getElem_mem hk)]
      rw [hmoved]
      refine ⟨h.resolution, ?_⟩
      simp only [hlength]
      omega
    · have hlast : s.current? = some atEnd := by
        rw [hcurrent, Nat.min_eq_right hk, List.getElem?_concat_length]
      have hsame : s.advance = s := by simp [Stream.advance, hlast, hend]
      rw [hsame]
      refine ⟨h.resolution, ?_⟩
      rw [hlength]
      omega

/-- A resolution is served as long as all starts are refused, one token further on with each
move. -/
theorem calls {history : List Call} (h : Serves r k s) (hends : EndsOnce r.tokens)
    (hrefused : ∀ request, .start request ∈ history → Incremental request) :
    Serves r (k + history.count .advance) (s.calls history) := by
  induction history generalizing s k with
  | nil => exact h
  | cons c more ih =>
    have hmore : ∀ request, .start request ∈ more → Incremental request :=
      fun request hmem => hrefused request (List.mem_cons_of_mem _ hmem)
    cases c with
    | start request =>
      have hsame : s.call (.start request) = s :=
        (start_of_incremental (hrefused request List.mem_cons_self)).2
      rw [List.count_cons_of_ne (by simp), Stream.calls, List.foldl_cons, hsame]
      exact ih h hmore
    | advance =>
      rw [List.count_cons_self, Nat.add_comm _ 1, ← Nat.add_assoc]
      exact ih (h.advance hends) hmore

end Serves

/-- Nothing is served. -/
structure Silent (s : Stream) : Prop where
  tokens : s.tokens = []
  warnings : s.warnings = []
  current : s.current? = none

theorem Serves.silent {k : Nat} (h : Serves .empty k s) : Silent s :=
  ⟨h.tokens_eq, h.warnings_eq, h.current?_eq⟩

/-- The stream serves what a fresh one serves after the same start, `k` tokens further on but not
behind the end; and nothing if this start fails. -/
structure ServesAfter (c : Config) (request : Start) (k : Nat) (s : Stream) : Prop where
  tokens : s.tokens = ((ofConfig c).start request).2.tokens
  warnings : s.warnings = ((ofConfig c).start request).2.warnings
  succeeded : ((ofConfig c).start request).1 = none →
    (∃ front atEnd, s.tokens = front ++ [atEnd] ∧ atEnd.isEnd = true ∧
      ∀ t ∈ front, t.isEnd = false) ∧ s.current? = s.tokens[min k (s.tokens.length - 1)]?
  failed : ((ofConfig c).start request).1 ≠ none → Silent s

theorem servesAfter (c : Config) (source : TokenStream) {before since : List Call}
    (hrequest : ¬ Incremental request)
    (hsince : ∀ later, .start later ∈ since → Incremental later) :
    (((unstarted source c).calls before).start request).1 = ((ofConfig c).start request).1 ∧
      ServesAfter c request (since.count .advance)
        ((unstarted source c).calls (before ++ .start request :: since)) := by
  obtain ⟨failure?, r, hstart, hends, hsucceeds, hfails⟩ := exists_serves c hrequest
  obtain ⟨hfailure, hserves⟩ := hstart _ ((unstarted source c).calls_config before)
  obtain ⟨hfresh, hfirst⟩ := hstart (ofConfig c) rfl
  have hnow : Serves r (since.count .advance)
      ((unstarted source c).calls (before ++ .start request :: since)) := by
    rw [calls, List.foldl_append, List.foldl_cons]
    have := hserves.calls hends hsince
    rwa [Nat.zero_add] at this
  refine ⟨hfailure.trans hfresh.symm, hnow.tokens_eq.trans hfirst.tokens_eq.symm,
    hnow.warnings_eq.trans hfirst.warnings_eq.symm, fun hsuccess => ?_, fun hfailed => ?_⟩
  · rw [hfresh] at hsuccess
    rw [hnow.current?_eq, hnow.tokens_eq]
    exact ⟨hends.resolve_left (hsucceeds hsuccess), rfl⟩
  · rw [hfresh] at hfailed
    exact (hfails hfailed ▸ hnow).silent

/-- A start is refused if it is incremental, and then changes nothing. Behind any history the stream
serves what a fresh one serves after the last start that was not refused, moved on by the calls
since; without such a start it serves nothing. -/
theorem calls_history_free (source : TokenStream) (c : Config) :
    (∀ (s : Stream) (request : Start),
      ((∃ e, (s.start request).1 = some e ∧ e.refuses = true) ↔ Incremental request) ∧
        (Incremental request → (s.start request).2 = s)) ∧
    (∀ (before since : List Call) (request : Start), ¬ Incremental request →
      (∀ later, .start later ∈ since → Incremental later) →
      (((unstarted source c).calls before).start request).1 = ((ofConfig c).start request).1 ∧
        ServesAfter c request (since.count .advance)
          ((unstarted source c).calls (before ++ .start request :: since))) ∧
    ∀ history : List Call, (∀ request, .start request ∈ history → Incremental request) →
      Silent ((unstarted source c).calls history) := by
  refine ⟨fun s request => ⟨⟨?_, fun h => (start_of_incremental h).1⟩,
    fun h => (start_of_incremental h).2⟩, fun before since request => servesAfter c source,
    fun history hrefused => ?_⟩
  · rintro ⟨e, he, hrefuses⟩
    exact incremental_of_refuses he hrefuses
  · have hfresh : Serves .empty 0 (unstarted source c) := ⟨rfl, rfl⟩
    exact (hfresh.calls (Or.inl rfl) hrefused).silent

def fromFront : Start :=
  { buffer := "do x\n  y".toList }

/-- A start behind the first character. -/
def fromInside : Start :=
  { buffer := "do x".toList, startOffset := 1 }

theorem calls_history_free_restarted :
    (Incremental fromInside ∧ ((ofConfig .haskell).start fromInside).2 = ofConfig .haskell) ∧
    (¬ Incremental fromFront ∧
      (((unstarted .empty .haskell).calls [.advance]).start fromFront).1 =
        ((ofConfig .haskell).start fromFront).1 ∧
      ServesAfter .haskell fromFront 2
        ((unstarted .empty .haskell).calls
          [.advance, .start fromFront, .advance, .start fromInside, .advance])) ∧
    Silent ((unstarted .empty .haskell).calls [.start fromInside, .advance]) := by
  obtain ⟨hstart, hserves, hsilent⟩ := calls_history_free .empty .haskell
  have hinside : Incremental fromInside := by decide
  have hfront : ¬ Incremental fromFront := by decide
  have hsince : ∀ later, Call.start later ∈ [.advance, .start fromInside, .advance] →
      Incremental later := by
    intro later hlater
    simp only [List.mem_cons, reduceCtorEq, Call.start.injEq, List.not_mem_nil, or_false,
      false_or] at hlater
    rw [hlater]
    exact hinside
  refine ⟨⟨hinside, (hstart (ofConfig .haskell) fromInside).2 hinside⟩,
    ⟨hfront, hserves [.advance] [.advance, .start fromInside, .advance] fromFront hfront hsince⟩,
    hsilent [.start fromInside, .advance] fun request hrequest => ?_⟩
  simp only [List.mem_cons, reduceCtorEq, Call.start.injEq, List.not_mem_nil, or_false] at hrequest
  rw [hrequest]
  exact hinside

end Stream

end OffsideRule.Layout
