import OffsideRule.Toml.Grammar

/-! Reading a document ends with an answer. A reader leaves no more than it was given, and all turns
of a loop but the last take something; so neither the turns nor the calls that are set aside for a
text run out, and values are too deep only where the limits say so. A flaw lies in the text. -/

namespace OffsideRule.Toml

/-- The refusal of a text around which there are `depth` calls is about the text: the place lies in
it, the digits stand in it, or the limits have no room for a value in it. -/
def Refusal.Within (limits : Limits) (depth : Nat) (s : Text) : Refusal → Prop
  | malformed _ left => left ≤ s.length
  | tooManyDigits count => maxDigits < count ∧ count ≤ s.length
  | tooDeep => ∃ inner t, limits.reads inner t = false ∧ inner + 3 * t.length ≤ depth + 3 * s.length

/-- Reading ends with what has the property, or with a refusal about the text. -/
def Ends {β : Type} (limits : Limits) (depth : Nat) (s : Text) (post : β → Prop) :
    Except Refusal β → Prop
  | .ok b => post b
  | .error e => e.Within limits depth s

/-- A parser ends and leaves no more than it was given. -/
def Sound {α : Type} (limits : Limits) (depth : Nat) (p : Parser α) : Prop :=
  ∀ s, Ends limits depth s (fun x => x.2.length ≤ s.length) (p s)

/-- If something is read, no more than the text is left. -/
def Shortens {α : Type} (s : Text) (x : Option (α × Text)) : Prop :=
  ∀ y, x = some y → y.2.length ≤ s.length

section Rules

variable {α β : Type} {limits : Limits} {depth : Nat} {s t : Text} {post : β → Prop}

theorem Refusal.Within.mono {e : Refusal} {inner : Nat} (h : e.Within limits inner t)
    (hle : t.length ≤ s.length) (hdepth : inner + 3 * t.length ≤ depth + 3 * s.length) :
    e.Within limits depth s := by
  cases e with
  | malformed flaw left => exact Nat.le_trans h hle
  | tooManyDigits count => exact ⟨h.1, Nat.le_trans h.2 hle⟩
  | tooDeep =>
    obtain ⟨inner', t', hreads, hbound⟩ := h
    exact ⟨inner', t', hreads, by omega⟩

namespace Ends

theorem mono {x : Except Refusal β} {inner : Nat} {post' : β → Prop}
    (h : Ends limits inner t post' x) (hle : t.length ≤ s.length)
    (hdepth : inner + 3 * t.length ≤ depth + 3 * s.length) (hpost : ∀ b, post' b → post b) :
    Ends limits depth s post x := by
  cases x with
  | ok b => exact hpost b h
  | error e => exact Refusal.Within.mono h hle hdepth

/-- The same on a later part of the text. -/
theorem behind {x : Except Refusal β} {post' : β → Prop} (h : Ends limits depth t post' x)
    (hle : t.length ≤ s.length) (hpost : ∀ b, post' b → post b) : Ends limits depth s post x :=
  h.mono hle (by omega) hpost

theorem bind {x : Except Refusal α} {f : α → Except Refusal β} {mid : α → Prop}
    (hx : Ends limits depth s mid x) (hf : ∀ a, mid a → Ends limits depth s post (f a)) :
    Ends limits depth s post (x >>= f) := by
  cases x with
  | ok a => exact hf a hx
  | error e => exact hx

theorem refuse {flaw : Flaw} (hle : t.length ≤ s.length) :
    Ends limits depth s post (Toml.refuse flaw t) :=
  hle

end Ends

/-- A turn that goes on takes something. -/
def Advances (s : Text) : ForInStep α × Text → Prop
  | (.yield _, rest) => rest.length < s.length
  | (.done _, rest) => rest.length ≤ s.length

theorem Advances.mono {x : ForInStep α × Text} (h : Advances t x) (hle : t.length ≤ s.length) :
    Advances s x := by
  obtain ⟨a | a, rest⟩ := x
  · exact Nat.le_trans h hle
  · exact Nat.lt_of_lt_of_le h hle

/-- The turns that are set aside are enough. -/
theorem ends_repeated {turn : α → Parser (ForInStep α)}
    (hturn : ∀ a t, t.length ≤ s.length → Ends limits depth t (Advances t) (turn a t))
    {turns : Nat} {a : α} (hle : t.length ≤ s.length) (hturns : t.length < turns) :
    Ends limits depth t (fun x => x.2.length ≤ t.length) (repeated turn turns a t) := by
  induction turns generalizing a t with
  | zero => omega
  | succ turns ih =>
    refine (hturn a t hle).bind fun x hx => ?_
    obtain ⟨a | a, rest⟩ := x
    · exact hx
    · have hrest : rest.length < t.length := hx
      refine (ih (by omega) (by omega)).behind (by omega) fun y hy => ?_
      omega

theorem ends_loop {turn : α → Parser (ForInStep α)} {a : α}
    (hturn : ∀ a t, t.length ≤ s.length → Ends limits depth t (Advances t) (turn a t)) :
    Ends limits depth s (fun x => x.2.length ≤ s.length) (loop turn a s) :=
  ends_repeated hturn (Nat.le_refl _) (Nat.lt_succ_self _)

namespace Shortens

theorem refuses : Shortens s (none : Option (α × Text)) := by
  rintro _ ⟨⟩

theorem reads {a : α} (hle : t.length ≤ s.length) : Shortens s (some (a, t)) := by
  rintro _ ⟨⟩
  exact hle

theorem behind {x : Option (α × Text)} (h : Shortens t x) (hle : t.length ≤ s.length) :
    Shortens s x :=
  fun y hy => Nat.le_trans (h y hy) hle

theorem bind {x : Option (α × Text)} {f : α × Text → Option (β × Text)} (hx : Shortens s x)
    (hf : ∀ a t, Shortens t (f (a, t))) : Shortens s (x >>= f) := by
  intro y hy
  obtain ⟨⟨a, t⟩, hat, hy⟩ := Option.bind_eq_some_iff.mp hy
  exact Nat.le_trans (hf a t y hy) (hx _ hat)

end Shortens

end Rules

section Lines

variable {limits : Limits} {depth : Nat} {s : Text}

theorem length_dropWhile_le (p : Char → Bool) (s : Text) : (s.dropWhile p).length ≤ s.length :=
  (List.dropWhile_suffix p).length_le

theorem length_skipSpace_le (s : Text) : (skipSpace s).length ≤ s.length :=
  length_dropWhile_le isSpace s

theorem ends_checkFree {forbidden : Char → Bool} {body rest : Text}
    (hle : body.length + rest.length ≤ s.length) :
    Ends limits depth s (fun _ => True) (checkFree forbidden body rest) := by
  have hdrop := length_dropWhile_le (!forbidden ·) body
  unfold checkFree
  split
  · trivial
  · next c more hmore =>
    rw [hmore] at hdrop
    apply Ends.refuse
    rw [List.length_append]
    omega

/-- A comment takes at least its sign. -/
theorem ends_comment_cons (rest : Text) :
    Ends limits depth ('#' :: rest) (fun x => x.2.length ≤ rest.length)
      (comment ('#' :: rest)) := by
  have hbody : (rest.takeWhile (· ≠ '\n')).length ≤ rest.length :=
    (rest.takeWhile_prefix _).length_le
  unfold comment
  refine Ends.bind (ends_checkFree ?_) fun _ _ => ?_
  · rw [List.length_drop, List.length_cons]
    omega
  · show (rest.drop _).length ≤ rest.length
    rw [List.length_drop]
    omega

theorem sound_comment : Sound limits depth comment := by
  intro s
  by_cases hs : ∃ rest, s = '#' :: rest
  · obtain ⟨rest, rfl⟩ := hs
    refine (ends_comment_cons rest).behind (Nat.le_refl _) fun x hx => ?_
    rw [List.length_cons]
    omega
  · have heq : comment s = .ok ((), s) := by
      unfold comment
      split
      · exact absurd ⟨_, rfl⟩ hs
      · rfl
    rw [heq]
    exact Nat.le_refl s.length

theorem sound_skipLines : Sound limits depth skipLines := by
  intro s
  refine ends_loop fun _ t _ => ?_
  have hdrop := length_dropWhile_le isBlank t
  split
  · next rest hrest =>
    rw [hrest, List.length_cons] at hdrop
    refine Ends.bind ((ends_comment_cons rest).behind ?_ fun _ => id) fun ⟨_, rest'⟩ h => ?_
    · rw [List.length_cons]
      omega
    · show rest'.length < t.length
      simp only at h
      omega
  · exact hdrop

end Lines

section Strings

variable {limits : Limits} {depth : Nat} {mark : Text} {forbidden : Char → Bool}

theorem length_before?_le {s body : Text} (h : before? mark s = some body) :
    body.length ≤ s.length := by
  induction s generalizing body with
  | nil => contradiction
  | cons c rest ih =>
    rw [before?] at h
    split at h
    · cases h
      exact Nat.zero_le _
    · obtain ⟨body', hbody, rfl⟩ := Option.map_eq_some_iff.mp h
      exact Nat.succ_le_succ (ih hbody)

theorem sound_literalString : Sound limits depth (literalString mark forbidden) := by
  intro s
  unfold literalString
  split
  · exact Ends.refuse (Nat.zero_le _)
  · next body hbody =>
    have hle := length_before?_le hbody
    refine Ends.bind (ends_checkFree ?_) fun _ _ => ?_
    · rw [List.length_drop]
      omega
    · show (s.drop _).length ≤ s.length
      rw [List.length_drop]
      omega

theorem sound_codePoint (width : Nat) : Sound limits depth (codePoint width) := by
  intro s
  have hdrop : (s.drop width).length ≤ s.length := by
    rw [List.length_drop]
    omega
  unfold codePoint
  split
  · exact Ends.refuse (Nat.le_refl _)
  · simp only
    split
    · exact Ends.refuse (Nat.le_refl _)
    split
    · exact hdrop
    · exact Ends.refuse hdrop

theorem sound_escaped : Sound limits depth escaped := by
  intro s
  unfold escaped
  split
  · exact Ends.refuse (Nat.le_refl _)
  · exact (sound_codePoint 4 _).behind (Nat.le_succ _) fun _ h => Nat.le_succ_of_le h
  · exact (sound_codePoint 8 _).behind (Nat.le_succ _) fun _ h => Nat.le_succ_of_le h
  · split
    · exact Nat.le_succ _
    · exact Ends.refuse (Nat.le_succ _)

theorem sound_escapedInLines : Sound limits depth escapedInLines := by
  intro s
  unfold escapedInLines
  split
  · next rest =>
    exact Nat.le_succ_of_le (length_dropWhile_le isBlank rest)
  · next c rest _ =>
    have hskip := length_skipSpace_le rest
    split
    · split
      · exact Nat.zero_le _
      · next more hmore =>
        have hdrop := length_dropWhile_le isBlank more
        rw [hmore, List.length_cons] at hskip
        show (more.dropWhile isBlank).length ≤ (c :: rest).length
        rw [List.length_cons]
        omega
      · apply Ends.refuse
        rw [List.length_cons]
        omega
    · exact sound_escaped _
  · exact sound_escaped []

theorem ends_basicTurn {escaped : Parser Text} (h : Sound limits depth escaped) (read s : Text) :
    Ends limits depth s (Advances s) (basicTurn mark forbidden escaped read s) := by
  unfold basicTurn
  split
  · exact Ends.refuse (Nat.le_refl _)
  · next rest =>
    refine Ends.bind ((h rest).behind (Nat.le_succ _) fun _ => id) fun ⟨_, _⟩ hrest => ?_
    exact Nat.lt_succ_of_le hrest
  · next c rest _ =>
    split
    · show ((c :: rest).drop mark.length).length ≤ (c :: rest).length
      rw [List.length_drop]
      omega
    split
    · exact Ends.refuse (Nat.le_refl _)
    · exact Nat.lt_succ_self _

theorem sound_basicString {escaped : Parser Text} (h : Sound limits depth escaped) :
    Sound limits depth (basicString mark forbidden escaped) := by
  intro s
  refine Ends.bind (ends_loop fun read t _ => ends_basicTurn h read t) fun ⟨_, _⟩ hrest => ?_
  exact hrest

theorem sound_lineString (quote : Char) : Sound limits depth (lineString quote) := by
  unfold lineString
  split
  · exact sound_basicString sound_escaped
  · exact sound_literalString

theorem sound_linesString (quote : Char) : Sound limits depth (linesString quote) := by
  intro s
  have htail : (if s.head? = some '\n' then s.tail else s).length ≤ s.length := by
    split
    · rw [List.length_tail]
      omega
    · exact Nat.le_refl _
  unfold linesString
  generalize (if s.head? = some '\n' then s.tail else s) = t at htail
  have hclose (rest : Text) (hrest : rest.length ≤ t.length) (n : Nat) :
      (rest.drop n).length ≤ s.length := by
    rw [List.length_drop]
    omega
  simp only
  split
  · refine Ends.bind ((sound_basicString sound_escapedInLines t).behind htail fun _ => id)
      fun ⟨_, rest⟩ hrest => ?_
    exact hclose rest hrest _
  · refine Ends.bind ((sound_literalString t).behind htail fun _ => id) fun ⟨_, rest⟩ hrest => ?_
    exact hclose rest hrest _

theorem shortens_string {s rest : Text} {p : Parser Text} (h : string s = some (p, rest)) :
    rest.length ≤ s.length ∧ Sound limits depth p := by
  unfold string at h
  split at h
  · next c more =>
    split at h
    · split at h
      · cases h
        refine ⟨?_, sound_linesString c⟩
        rw [List.length_drop, List.length_cons]
        omega
      · cases h
        exact ⟨Nat.le_succ _, sound_lineString c⟩
    · contradiction
  · contradiction

end Strings

section Numbers

theorem digits_length {base : Nat} {s rest : Text} {ds : List Nat}
    (h : digits base s = some (ds, rest)) : ds.length + rest.length ≤ s.length := by
  fun_induction digits base s generalizing ds rest with
  | case1 => contradiction
  | case2 => contradiction
  | case3 c d more _ ds' rest' hmore ih =>
    cases h
    have := ih hmore
    simp only [List.length_cons]
    omega
  | case4 c d more _ hmore =>
    cases h
    simp only [List.length_cons, List.length_nil]
    omega
  | case5 c more d _ _ ds' rest' hmore ih =>
    cases h
    have := ih hmore
    simp only [List.length_cons]
    omega
  | case6 c more d _ _ hmore =>
    cases h
    simp only [List.length_cons, List.length_nil]
    omega

theorem length_sign_le (s : Text) : (sign s).2.length ≤ s.length := by
  unfold sign
  split
  · exact Nat.le_succ _
  · exact Nat.le_succ _
  · exact Nat.le_refl _

theorem whole_length {s rest : Text} {ds : List Nat} (h : whole s = some (ds, rest)) :
    ds.length + rest.length ≤ s.length := by
  unfold whole at h
  split at h
  · cases h
    simp only [List.length_cons, List.length_nil]
    omega
  · exact digits_length h

theorem length_fraction_le (s : Text) : (fraction s).2.length ≤ s.length := by
  unfold fraction
  split
  · next rest =>
    cases hdigits : digits 10 rest with
    | none => exact Nat.le_refl _
    | some x =>
      have := digits_length hdigits
      simp only [Option.getD_some, List.length_cons]
      omega
  · exact Nat.le_refl _

theorem length_exponent_le (s : Text) : (exponent s).2.length ≤ s.length := by
  unfold exponent
  split
  · exact Nat.le_refl _
  · next c rest =>
    have hsign := length_sign_le rest
    split
    · simp only
      split
      · next ds more hdigits =>
        have := digits_length hdigits
        simp only [List.length_cons]
        omega
      · exact Nat.le_refl _
    · exact Nat.le_refl _

theorem numeral_length {s rest : Text} {n : Numeral} (h : numeral s = some (n, rest)) :
    n.whole.length + rest.length ≤ s.length := by
  have hsign := length_sign_le s
  unfold numeral at h
  obtain ⟨⟨ds, more⟩, hwhole, heq⟩ := Option.bind_eq_some_iff.mp h
  have hdigits : ds.length + more.length ≤ (sign s).2.length := whole_length hwhole
  have hfraction := length_fraction_le more
  have hexponent := length_exponent_le (fraction more).2
  cases heq
  show ds.length + (exponent (fraction more).2).2.length ≤ s.length
  omega

theorem shortens_magnitude (base : Nat) (s : Text) : Shortens s (magnitude base s) := by
  intro x h
  obtain ⟨⟨ds, rest⟩, hdigits, rfl⟩ := Option.map_eq_some_iff.mp h
  have := digits_length hdigits
  show rest.length ≤ s.length
  omega

theorem shortens_based (s : Text) : Shortens s (based s) := by
  unfold based
  split
  · exact (shortens_magnitude 16 _).behind (Nat.le_add_right _ 2)
  · exact (shortens_magnitude 8 _).behind (Nat.le_add_right _ 2)
  · exact (shortens_magnitude 2 _).behind (Nat.le_add_right _ 2)
  · exact .refuses

theorem shortens_specialFloat (s : Text) : Shortens s (specialFloat s) := by
  have hsign := length_sign_le s
  unfold specialFloat
  split
  · next negative rest hrest =>
    rw [hrest] at hsign
    exact .reads (Nat.le_trans (Nat.le_add_right _ 3) hsign)
  · next negative rest hrest =>
    rw [hrest] at hsign
    exact .reads (Nat.le_trans (Nat.le_add_right _ 3) hsign)
  · exact .refuses

end Numbers

section Moments

theorem shortens_expect (c : Char) (s : Text) : Shortens s (expect c s) := by
  unfold expect
  split
  · exact .refuses
  · split
    · exact .reads (Nat.le_succ _)
    · exact .refuses

theorem shortens_twoDigits (s : Text) : Shortens s (twoDigits s) := by
  unfold twoDigits
  split
  · intro x h
    obtain ⟨_, _, h⟩ := Option.bind_eq_some_iff.mp h
    obtain ⟨_, _, h⟩ := Option.bind_eq_some_iff.mp h
    cases h
    exact Nat.le_add_right _ 2
  · exact .refuses

theorem length_micros_le (s : Text) : (micros s).2.length ≤ s.length := by
  unfold micros
  split
  · simp only
    split
    · exact Nat.le_refl _
    · simp only [List.length_drop, List.length_cons]
      omega
  · exact Nat.le_refl _

theorem shortens_clock (s : Text) : Shortens s (clock s) := by
  refine Shortens.bind (shortens_twoDigits s) fun hour s₁ => ?_
  refine Shortens.bind (shortens_expect ':' s₁) fun _ s₂ => ?_
  refine Shortens.bind (shortens_twoDigits s₂) fun minute s₃ => ?_
  refine Shortens.bind (shortens_expect ':' s₃) fun _ s₄ => ?_
  refine Shortens.bind (shortens_twoDigits s₄) fun second s₅ => ?_
  simp only
  split
  · exact .reads (length_micros_le s₅)
  · exact .refuses

theorem shortens_date (s : Text) : Shortens s (date s) := by
  refine Shortens.bind (shortens_twoDigits s) fun century s₁ => ?_
  refine Shortens.bind (shortens_twoDigits s₁) fun year s₂ => ?_
  refine Shortens.bind (shortens_expect '-' s₂) fun _ s₃ => ?_
  refine Shortens.bind (shortens_twoDigits s₃) fun month s₄ => ?_
  refine Shortens.bind (shortens_expect '-' s₄) fun _ s₅ => ?_
  refine Shortens.bind (shortens_twoDigits s₅) fun day s₆ => ?_
  simp only
  split
  · exact .reads (Nat.le_refl _)
  · exact .refuses

theorem shortens_minutes (s : Text) : Shortens s (minutes s) := by
  refine Shortens.bind (shortens_twoDigits s) fun hour s₁ => ?_
  refine Shortens.bind (shortens_expect ':' s₁) fun _ s₂ => ?_
  refine Shortens.bind (shortens_twoDigits s₂) fun minute s₃ => ?_
  simp only
  split
  · exact .reads (Nat.le_refl _)
  · exact .refuses

theorem length_offset_le (s : Text) : (offset s).2.length ≤ s.length := by
  unfold offset
  split
  · exact Nat.le_succ _
  · exact Nat.le_succ _
  · next rest =>
    cases hminutes : minutes rest with
    | none => exact Nat.le_refl _
    | some x => exact Nat.le_succ_of_le (shortens_minutes rest x hminutes)
  · next rest =>
    cases hminutes : minutes rest with
    | none => exact Nat.le_refl _
    | some x => exact Nat.le_succ_of_le (shortens_minutes rest x hminutes)
  · exact Nat.le_refl _

theorem shortens_timeOfDay (s : Text) : Shortens s (timeOfDay s) := by
  unfold timeOfDay
  split
  · next c rest =>
    split
    · exact .refuses
    · refine Shortens.behind (Shortens.bind (shortens_clock rest) fun time s₁ => ?_) (Nat.le_succ _)
      exact .reads (length_offset_le s₁)
  · exact .refuses

theorem shortens_moment (s : Text) : Shortens s (moment s) := by
  unfold moment
  split
  · next year month day rest hdate =>
    have hrest : rest.length ≤ s.length := shortens_date s _ hdate
    simp only
    split
    · next htime => exact .reads (Nat.le_trans (shortens_timeOfDay rest _ htime) hrest)
    · exact .reads hrest
  · intro x h
    obtain ⟨y, hclock, rfl⟩ := Option.map_eq_some_iff.mp h
    exact shortens_clock s y hclock

end Moments

section Grammar

variable {limits : Limits} {depth : Nat} {s : Text}

/-- A numeral is refused for its digits only. -/
theorem ends_numeral_value {n : Numeral} (h : n.whole.length ≤ s.length) :
    Ends limits depth s (fun _ => True) n.value := by
  unfold Numeral.value
  split
  · split
    · next hdigits => exact ⟨hdigits, h⟩
    · trivial
  · trivial

theorem sound_scalar : Sound limits depth scalar := by
  intro s
  unfold scalar
  cases hstring : string s with
  | some x =>
    obtain ⟨read, rest⟩ := x
    obtain ⟨hrest, hread⟩ : rest.length ≤ s.length ∧ Sound limits depth read :=
      shortens_string hstring
    refine Ends.bind ((hread rest).behind hrest fun _ => id) fun ⟨_, rest'⟩ h => ?_
    exact Nat.le_trans h hrest
  | none =>
    simp only
    split
    · exact Nat.le_add_right _ 4
    · exact Nat.le_add_right _ 5
    · cases hmoment : moment s with
      | some x =>
        obtain ⟨v?, rest⟩ := x
        cases v? with
        | some v => exact shortens_moment s _ hmoment
        | none => exact Ends.refuse (Nat.le_refl _)
      | none =>
        cases hbased : based s with
        | some x => exact shortens_based s x hbased
        | none =>
          cases hnumeral : numeral s with
          | some x =>
            obtain ⟨n, rest⟩ := x
            have hlength := numeral_length hnumeral
            refine Ends.bind (ends_numeral_value (by omega)) fun _ _ => ?_
            show rest.length ≤ s.length
            omega
          | none =>
            cases hfloat : specialFloat s with
            | some x => exact shortens_specialFloat s x hfloat
            | none => exact Ends.refuse (Nat.le_refl _)

theorem sound_keyName : Sound limits depth keyName := by
  intro s
  unfold keyName
  split
  · exact Ends.refuse (Nat.le_refl _)
  · next c rest =>
    split
    · refine Ends.bind ((sound_lineString c rest).behind (Nat.le_succ _) fun _ => id)
        fun ⟨_, _⟩ h => ?_
      exact Nat.le_succ_of_le h
    · simp only
      split
      · exact Ends.refuse (Nat.le_refl _)
      · show ((c :: rest).drop _).length ≤ (c :: rest).length
        rw [List.length_drop]
        omega

theorem sound_key : Sound limits depth key := by
  intro s
  refine Ends.bind (sound_keyName s) fun ⟨name, rest⟩ hrest => ?_
  refine Ends.behind (ends_loop fun k t _ => ?_) hrest fun _ h => Nat.le_trans h hrest
  have hskip := length_skipSpace_le t
  split
  · next more hmore =>
    rw [hmore, List.length_cons] at hskip
    have hskip' := length_skipSpace_le more
    refine Ends.bind ((sound_keyName (skipSpace more)).behind (by omega) fun _ => id)
      fun ⟨_, rest'⟩ h => ?_
    show rest'.length < t.length
    simp only at h
    omega
  · exact hskip

theorem sound_settle {α : Type} {x : Except Conflict α} {rest : Text}
    (hle : rest.length ≤ s.length) : Ends limits depth s (fun _ => True) (settle x rest) := by
  cases x with
  | ok a => trivial
  | error c => exact hle

section Nested

variable {v : Parser Value}
  (hv : ∀ t, t.length ≤ s.length → Ends limits depth t (fun x => x.2.length ≤ t.length) (v t))

include hv

theorem ends_pair : Ends limits depth s (fun x => x.2.length ≤ s.length) (pair v s) := by
  refine Ends.bind (sound_key s) fun ⟨k, rest⟩ hrest => ?_
  simp only at hrest ⊢
  split
  · next more =>
    have hskip := length_skipSpace_le more
    rw [List.length_cons] at hrest
    refine Ends.bind ((hv (skipSpace more) (by omega)).behind (by omega) fun _ => id)
      fun ⟨_, rest'⟩ h => ?_
    show rest'.length ≤ s.length
    simp only at h
    omega
  · exact Ends.refuse hrest

theorem ends_array : Ends limits depth s (fun x => x.2.length ≤ s.length) (array v s) := by
  refine ends_loop fun items t ht => ?_
  refine Ends.bind (sound_skipLines t) fun ⟨_, t₁⟩ h₁ => ?_
  simp only at h₁ ⊢
  split
  · next rest heq =>
    obtain ⟨-, rfl⟩ := Prod.mk.inj heq
    exact Nat.le_of_succ_le h₁
  · next heq =>
    obtain ⟨-, rfl⟩ := Prod.mk.inj heq
    refine Ends.bind ((hv t₁ (by omega)).behind h₁ fun _ => id) fun ⟨_, t₂⟩ h₂ => ?_
    simp only at h₂
    refine Ends.bind ((sound_skipLines t₂).behind (by omega) fun _ => id) fun ⟨_, t₃⟩ h₃ => ?_
    simp only at h₃ ⊢
    split
    · next rest heq =>
      obtain ⟨-, rfl⟩ := Prod.mk.inj heq
      rw [List.length_cons] at h₃
      show rest.length ≤ t.length
      omega
    · next rest heq =>
      obtain ⟨-, rfl⟩ := Prod.mk.inj heq
      rw [List.length_cons] at h₃
      show rest.length < t.length
      omega
    · next heq =>
      obtain ⟨-, rfl⟩ := Prod.mk.inj heq
      exact Ends.refuse (by omega)

theorem ends_inlineTable :
    Ends limits depth s (fun x => x.2.length ≤ s.length) (inlineTable v s) := by
  have hskip := length_skipSpace_le s
  unfold inlineTable
  split
  · next rest hrest =>
    rw [hrest, List.length_cons] at hskip
    exact Nat.le_of_succ_le hskip
  · refine Ends.behind (ends_loop fun entries t ht => ?_) hskip fun _ h => Nat.le_trans h hskip
    have hskip' := length_skipSpace_le t
    refine Ends.bind ((ends_pair (s := skipSpace t) fun u hu => hv u (by omega)).behind hskip'
      fun _ => id) fun ⟨⟨k, w⟩, t₁⟩ h₁ => ?_
    simp only at h₁
    have hskip₁ := length_skipSpace_le t₁
    refine Ends.bind (sound_settle (by omega)) fun entries' _ => ?_
    split
    · next rest hrest =>
      rw [hrest, List.length_cons] at hskip₁
      show rest.length ≤ t.length
      omega
    · next rest hrest =>
      rw [hrest, List.length_cons] at hskip₁
      show rest.length < t.length
      omega
    · exact Ends.refuse (by omega)

end Nested

/-- The calls that are set aside are enough, and each of them goes at most three deeper. -/
theorem ends_value {fuel : Nat} (hfuel : s.length < fuel) :
    Ends limits depth s (fun x => x.2.length ≤ s.length) (value limits fuel depth s) := by
  induction fuel generalizing depth s with
  | zero => omega
  | succ fuel ih =>
    unfold value
    split
    · split
      · next rest _ =>
        rw [List.length_cons] at hfuel
        have hitems : Ends limits (depth + 2) rest (fun x => x.2.length ≤ rest.length)
            (array (value limits fuel (depth + 2)) rest) :=
          ends_array fun t ht => ih (by omega)
        refine Ends.bind (hitems.mono (Nat.le_succ _) ?_ fun _ => id) fun ⟨_, _⟩ h => ?_
        · rw [List.length_cons]
          omega
        · exact Nat.le_succ_of_le h
      · next rest _ =>
        rw [List.length_cons] at hfuel
        have hentries : Ends limits (depth + 3) rest (fun x => x.2.length ≤ rest.length)
            (inlineTable (value limits fuel (depth + 3)) rest) :=
          ends_inlineTable fun t ht => ih (by omega)
        refine Ends.bind (hentries.mono (Nat.le_succ _) ?_ fun _ => id) fun ⟨_, _⟩ h => ?_
        · rw [List.length_cons]
          omega
        · exact Nat.le_succ_of_le h
      · exact sound_scalar s
    · next hreads => exact ⟨depth, s, by simpa using hreads, Nat.le_refl _⟩

theorem sound_header (p : Progress) : Sound limits depth (header p) := by
  intro s
  unfold header
  split
  · next rest =>
    have hskip := length_skipSpace_le rest
    refine Ends.bind ((sound_key (skipSpace rest)).behind (Nat.le_succ_of_le hskip) fun _ => id)
      fun ⟨k, t⟩ ht => ?_
    simp only at ht
    refine Ends.bind (sound_settle ?_) fun root _ => ?_
    · rw [List.length_cons]
      omega
    split
    · next more =>
      simp only [List.length_cons] at ht
      show more.length ≤ ('[' :: rest).length
      rw [List.length_cons]
      omega
    · apply Ends.refuse
      rw [List.length_cons]
      omega
  · have hskip := length_skipSpace_le s
    refine Ends.bind ((sound_key (skipSpace s)).behind hskip fun _ => id) fun ⟨k, t⟩ ht => ?_
    simp only at ht
    refine Ends.bind (sound_settle (by omega)) fun root _ => ?_
    split
    · next more =>
      rw [List.length_cons] at ht
      show more.length ≤ s.length
      omega
    · exact Ends.refuse (by omega)

theorem sound_assignment (p : Progress) : Sound limits 0 (assignment limits p) := by
  intro s
  refine Ends.bind (ends_pair fun t ht => ends_value (Nat.lt_succ_of_le ht))
    fun ⟨⟨k, v⟩, rest⟩ hrest => ?_
  exact Ends.bind (sound_settle hrest) fun _ _ => hrest

theorem sound_statement (p : Progress) : Sound limits 0 (statement limits p) := by
  intro s
  unfold statement
  split
  · exact Ends.refuse (Nat.le_refl _)
  · next c rest =>
    split
    · exact (sound_header p rest).behind (Nat.le_succ _) fun _ h => Nat.le_succ_of_le h
    split
    · exact sound_assignment p _
    · exact Ends.refuse (Nat.le_refl _)

theorem ends_lineEnd (p : Progress) (s : Text) : Ends limits 0 s (Advances s) (lineEnd p s) := by
  have hskip := length_skipSpace_le s
  refine Ends.bind ((sound_comment (skipSpace s)).behind hskip fun _ => id) fun ⟨_, t⟩ ht => ?_
  simp only at ht ⊢
  split
  · exact Nat.zero_le _
  · next more heq =>
    obtain ⟨-, rfl⟩ := Prod.mk.inj heq
    rw [List.length_cons] at ht
    show more.length < s.length
    omega
  · next heq =>
    obtain ⟨-, rfl⟩ := Prod.mk.inj heq
    exact Ends.refuse (by omega)

theorem ends_line (p : Progress) (s : Text) : Ends limits 0 s (Advances s) (line limits p s) := by
  have hskip := length_skipSpace_le s
  have hclose (q : Progress) (rest : Text) (hrest : rest.length ≤ s.length) :
      Ends limits 0 s (Advances s) (lineEnd q rest) :=
    (ends_lineEnd q rest).behind hrest fun _ h => h.mono hrest
  unfold line
  simp only
  split
  · exact hclose p _ hskip
  · exact hclose p _ hskip
  · exact hclose p _ hskip
  · exact Ends.bind ((sound_statement p (skipSpace s)).behind hskip fun _ => id)
      fun ⟨q, rest⟩ h => hclose q rest (Nat.le_trans h hskip)

/-- Reading a document ends with its table or with a refusal about the document. -/
theorem parse_ends (limits : Limits) (s : Text) :
    Ends limits 0 s (fun _ => True) (parse limits s) :=
  Ends.bind (ends_loop fun p t _ => ends_line p t) fun _ _ => trivial

/-- Where there is room for more than three calls a character, no value lies too deep. -/
theorem parse_ne_tooDeep {calls : Nat} {s : Text} (h : 3 * s.length < calls) :
    parse (.ofCalls calls) s ≠ .error .tooDeep := by
  intro herror
  have hends := parse_ends (.ofCalls calls) s
  rw [herror] at hends
  obtain ⟨inner, t, hreads, hle⟩ := hends
  have hinner : calls ≤ inner := by simpa [Limits.ofCalls] using hreads
  omega

end Grammar

end OffsideRule.Toml
