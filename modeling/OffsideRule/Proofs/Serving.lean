import OffsideRule.Proofs.Histories
import OffsideRule.Proofs.Splitting

/-! Histories of a token stream. A start takes over its buffer and range at once, but the tokens
only if the range can be read. So the tokens served are those of the last start that succeeded, at
their places in its buffer, while buffer and range are those of the last start of all: behind a
failed start the two need not belong together. -/

namespace OffsideRule

namespace Start

/-- The range lies in the buffer. -/
structure Within (s : Start) : Prop where
  nonneg : 0 ≤ s.startOffset
  ordered : s.startOffset ≤ s.bufferEnd
  bounded : s.bufferEnd ≤ s.buffer.length

theorem within_iff (s : Start) :
    s.Within ↔ 0 ≤ s.startOffset ∧ s.startOffset ≤ s.bufferEnd ∧ s.bufferEnd ≤ s.buffer.length :=
  ⟨fun h => ⟨h.nonneg, h.ordered, h.bounded⟩, fun ⟨hnonneg, hordered, hbounded⟩ =>
    ⟨hnonneg, hordered, hbounded⟩⟩

instance (s : Start) : Decidable s.Within :=
  decidable_of_iff _ s.within_iff.symm

/-- Whether the text of the range can be read, so that the start succeeds. -/
def readable (s : Start) : Bool :=
  (tokenize s.text).isOk

namespace Within

variable {s : Start}

/-- A range in the buffer lies between two offsets. -/
theorem exists_offsets (h : s.Within) :
    ∃ a b : Nat, s.startOffset = a ∧ s.bufferEnd = b ∧ a ≤ b ∧ b ≤ s.buffer.length := by
  obtain ⟨hnonneg, hordered, hbounded⟩ := h
  exact ⟨s.startOffset.toNat, s.bufferEnd.toNat, by omega, by omega, by omega, by omega⟩

theorem length_text (h : s.Within) : s.startOffset + s.text.length = s.bufferEnd := by
  obtain ⟨a, b, ha, hb, hab, hbounded⟩ := h.exists_offsets
  rw [Start.text, ha, hb, Text.slice_natCast hab hbounded, List.length_take, List.length_drop]
  omega

/-- What stands between two places of the text stands in the buffer, as far behind the start of the
range. -/
theorem slice_text (h : s.Within) {x y : Nat} (hxy : x ≤ y) (hy : y ≤ s.text.length) :
    s.text.slice x y = s.buffer.slice (s.startOffset + x) (s.startOffset + y) := by
  have hlength := h.length_text
  obtain ⟨a, b, ha, hb, hab, hbounded⟩ := h.exists_offsets
  rw [Start.text, ha, hb]
  exact Text.slice_slice hbounded hxy (by omega)

end Within

end Start

namespace TokenStream

open Layout.Stream (Call)

/-- The stream behind a call, whatever the call answers. -/
def call (t : TokenStream) : Call → TokenStream
  | .start request => (t.start request).2
  | .advance => t.advance

/-- The stream behind a history of calls. -/
def calls (t : TokenStream) (history : List Call) : TokenStream :=
  history.foldl call t

/-- The stream as it is, but over the buffer and the range of a start. -/
def aimed (t : TokenStream) (request : Start) : TokenStream :=
  { t with buffer := request.buffer, bufferEnd := request.bufferEnd, base := request.startOffset }

/-- The current token stands in the range of a start, and is what is read at its place alone. -/
structure Honest (t : TokenStream) (request : Start) : Prop where
  startOffset_le : request.startOffset ≤ t.tokenStart
  nonempty : t.tokenStart < t.tokenStop
  le_bufferEnd : t.tokenStop ≤ request.bufferEnd
  alone : ∃ token q, tokenize (request.buffer.slice t.tokenStart t.tokenStop) =
    .ok [token, .ending q] ∧ t.kind? = some token.kind

variable {t : TokenStream} {request : Start} {history since : List Call}

theorem start_of_not_readable (t : TokenStream) (h : request.readable = false) :
    (t.start request).2 = t.aimed request := by
  unfold Start.readable at h
  unfold start
  split
  · rfl
  · next htokens => simp [htokens, Except.isOk, Except.toBool] at h

theorem start_of_readable (t : TokenStream) (h : request.readable = true) :
    ∃ tokens, tokenize request.text = .ok tokens ∧
      (t.start request).2 = { t.aimed request with
        tokens := tokens.dropLast, index := 0, state := request.state } := by
  unfold Start.readable at h
  unfold start
  split
  · next hfault => simp [hfault, Except.isOk, Except.toBool] at h
  · next tokens htokens => exact ⟨tokens, htokens, rfl⟩

/-- Only a start changes the buffer and the range. -/
theorem aimed_advance (h : t.aimed request = t) : t.advance.aimed request = t.advance := by
  unfold advance
  split
  · exact h
  · rw [← h]
    rfl

theorem aimed_start (t : TokenStream) (request : Start) :
    (t.start request).2.aimed request = (t.start request).2 := by
  unfold start
  split <;> rfl

theorem aimed_calls (h : t.aimed request = t) (hsince : ∀ later, .start later ∉ since) :
    (t.calls since).aimed request = t.calls since := by
  induction since generalizing t with
  | nil => exact h
  | cons c more ih =>
    have hmore : ∀ later, Call.start later ∉ more :=
      fun later hlater => hsince later (List.mem_cons_of_mem _ hlater)
    cases c with
    | start later => exact absurd List.mem_cons_self (hsince later)
    | advance => exact ih (aimed_advance h) hmore

/-- Neither a move nor a start that fails changes the tokens. -/
theorem tokens_calls (hsince : ∀ later, .start later ∈ since → later.readable = false) :
    (t.calls since).tokens = t.tokens := by
  induction since generalizing t with
  | nil => rfl
  | cons c more ih =>
    have hmore : ∀ later, Call.start later ∈ more → later.readable = false :=
      fun later hlater => hsince later (List.mem_cons_of_mem _ hlater)
    have hkeeps : (t.call c).tokens = t.tokens := by
      cases c with
      | start later => rw [call, t.start_of_not_readable (hsince later List.mem_cons_self)]; rfl
      | advance =>
        rw [call, advance]
        split <;> rfl
    exact (ih hmore).trans hkeeps

theorem exists_current (h : t.atEnd = false) : ∃ token ∈ t.tokens, t.current? = some token := by
  have hindex : t.index < t.tokens.length := by
    rw [atEnd, decide_eq_false_iff_not] at h
    omega
  exact ⟨_, List.getElem_mem hindex, List.getElem?_eq_getElem hindex⟩

/-- Each token of a range is read at its place in the buffer alone. -/
theorem honest_of_tokens {tokens : List Token} (hwithin : request.Within)
    (htokens : tokenize request.text = .ok tokens) (ht : t.tokens = tokens.dropLast)
    (hend : t.atEnd = false) : Honest (t.aimed request) request := by
  obtain ⟨token, hmem, hserved⟩ := exists_current hend
  have hcurrent : (t.aimed request).current? = some token := hserved
  obtain ⟨front, c, hreads, hrest, rfl⟩ := exists_reads_of_tokenize htokens
  rw [ht, List.dropLast_concat] at hmem
  have hnonempty := hreads.tiles.start_lt_stop token hmem
  have hstop := hreads.tiles.stop_le token hmem
  rw [hreads.offset_of_nil hrest] at hstop
  have hfrom : (t.aimed request).tokenStart = request.startOffset + token.start.offset := by
    rw [tokenStart, hcurrent]
    rfl
  have hto : (t.aimed request).tokenStop = request.startOffset + token.stop.offset := by
    rw [tokenStop, hcurrent]
    rfl
  obtain ⟨before, back, hfront⟩ := List.append_of_mem hmem
  obtain ⟨m, _, hback⟩ := (hfront ▸ hreads).split
  obtain ⟨q, halone⟩ := tokenize_text hback
  have hlength := hwithin.length_text
  refine ⟨by omega, by omega, by omega,
    ⟨token.kind, token.text, .origin, q⟩, q, ?_, ?_⟩
  · rw [hfrom, hto, ← hwithin.slice_text (Nat.le_of_lt hnonempty) hstop,
      ← hreads.sliced token hmem]
    exact halone
  · rw [kind?, hcurrent, Option.map_some]

/-- Buffer and range of a token stream are those of its last start. The tokens are those of the last
start that succeeded: over its buffer and range the current token is what is read at its place. As
long as no start has succeeded there is none. -/
theorem calls_serving (history : List Call)
    (hwithin : ∀ request, .start request ∈ history → request.Within) :
    (∀ before request since, history = before ++ .start request :: since →
      (∀ later, .start later ∉ since) →
      (empty.calls history).aimed request = empty.calls history) ∧
    (∀ before request since, history = before ++ .start request :: since →
      request.readable = true → (∀ later, .start later ∈ since → later.readable = false) →
      (empty.calls history).atEnd = false → Honest ((empty.calls history).aimed request) request) ∧
    ((∀ request, .start request ∈ history → request.readable = false) →
      (empty.calls history).atEnd = true) := by
  refine ⟨?_, ?_, fun hfails => ?_⟩
  · rintro before request since rfl hsince
    rw [calls, List.foldl_append, List.foldl_cons]
    exact aimed_calls (aimed_start _ _) hsince
  · rintro before request since rfl hreadable hsince hend
    obtain ⟨tokens, htokens, hstart⟩ := (empty.calls before).start_of_readable hreadable
    refine honest_of_tokens (hwithin request (by simp)) htokens ?_ hend
    rw [calls, List.foldl_append, List.foldl_cons]
    exact (tokens_calls hsince).trans (congrArg TokenStream.tokens hstart)
  · rw [atEnd, tokens_calls hfails]
    exact decide_eq_true (Nat.zero_le _)

/-- A text that can be read. -/
def readableStart : Start :=
  { buffer := "do x".toList }

/-- A text that cannot be read, shorter than the other one's first token. -/
def unreadableStart : Start :=
  { buffer := "\"".toList }

theorem calls_serving_restarted :
    (readableStart.Within ∧ unreadableStart.Within ∧ readableStart.readable = true ∧
      unreadableStart.readable = false) ∧
    (empty.calls [.start readableStart, .start unreadableStart]).aimed unreadableStart =
      empty.calls [.start readableStart, .start unreadableStart] ∧
    Honest ((empty.calls [.start readableStart, .start unreadableStart]).aimed readableStart)
      readableStart ∧
    (empty.calls [.start unreadableStart, .advance]).atEnd = true := by
  have hwithin : readableStart.Within ∧ unreadableStart.Within := by decide
  have hreadable : readableStart.readable = true := by decide +kernel
  have hunreadable : unreadableStart.readable = false := by decide +kernel
  have hboth : ∀ request, Call.start request ∈ [.start readableStart, .start unreadableStart] →
      request.Within := by
    simp [hwithin]
  have hone : ∀ request, Call.start request ∈ [.start unreadableStart, .advance] →
      request.Within := by
    simp [hwithin]
  obtain ⟨haimed, hhonest, _⟩ := calls_serving _ hboth
  obtain ⟨_, _, hsilent⟩ := calls_serving _ hone
  refine ⟨⟨hwithin.1, hwithin.2, hreadable, hunreadable⟩,
    haimed [.start readableStart] unreadableStart [] rfl (by simp),
    hhonest [] readableStart [.start unreadableStart] rfl hreadable (by simp [hunreadable])
      (by decide +kernel), hsilent (by simp [hunreadable])⟩

/-- Behind the failed start a token is served that is longer than the buffer. -/
theorem calls_not_honest :
    ¬ ∀ history : List Call, (∀ request, .start request ∈ history → request.Within) →
      ∀ before request since, history = before ++ .start request :: since →
        (∀ later, .start later ∉ since) → (empty.calls history).atEnd = false →
        Honest (empty.calls history) request := by
  intro hall
  have hhonest := hall [.start readableStart, .start unreadableStart] (by simp; decide)
    [.start readableStart] unreadableStart [] rfl (by simp) (by decide +kernel)
  have hlonger : unreadableStart.bufferEnd <
      (empty.calls [.start readableStart, .start unreadableStart]).tokenStop := by decide +kernel
  exact absurd hhonest.le_bufferEnd (Int.not_le.mpr hlonger)

end TokenStream

end OffsideRule
