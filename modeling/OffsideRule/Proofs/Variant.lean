import OffsideRule.Layout.Config

/-! The variants of the Haskell configuration: other openers, and the choice to close the block
around the whole source or not. All of them are regular: openers and the word that ends a binding
are code, ends of lines are not, and the three delimiters differ from each other and from the
binding keywords. The laws of layout need no more than this. -/

namespace OffsideRule.Layout.Config

inductive Variant : Config → Prop
  | haskell : Variant haskell
  | withKeywords {c c' : Config} {words : List String} :
      Variant c → c.withKeywords words = .ok c' → Variant c'
  | withCloseTopLevel {c : Config} (close : Bool) :
      Variant c → Variant (c.withCloseTopLevel close)

/-- The three delimiters can be told apart. -/
structure Distinct (c : Config) : Prop where
  open_ne_separator : c.openKind ≠ c.separatorKind
  open_ne_close : c.openKind ≠ c.closeKind
  separator_ne_close : c.separatorKind ≠ c.closeKind

structure Regular (c : Config) : Prop extends Distinct c where
  code_of_opener : ∀ kind, c.isOpener kind = true → c.isCode kind = true
  code_of_in : c.isCode (some c.inKind) = true
  code_of_let : c.isCode (some c.letKind) = true
  endOfLine_not_code : c.isCode (some c.endOfLine) = false
  let_ne_open : c.letKind ≠ c.openKind
  let_ne_separator : c.letKind ≠ c.separatorKind
  let_ne_close : c.letKind ≠ c.closeKind

theorem Regular.not_opener {c : Config} (hc : c.Regular) {kind : Option Kind}
    (h : c.isCode kind = false) : c.isOpener kind = false := by
  cases hopener : c.isOpener kind with
  | false => rfl
  | true => rw [← h, hc.code_of_opener kind hopener]

theorem keywordKinds_eq_ok_iff {words : List String} {kinds : List Kind} :
    keywordKinds words = .ok kinds ↔
      ∃ ks : List Keyword, ks.map Keyword.word = words ∧ ks.map Kind.keyword = kinds := by
  induction words generalizing kinds with
  | nil => simp [keywordKinds, eq_comm]
  | cons word more ih =>
    rw [keywordKinds]
    constructor
    · intro h
      split at h
      · contradiction
      · next k hk =>
        cases hmore : keywordKinds more with
        | error e => rw [hmore] at h; contradiction
        | ok rest =>
          rw [hmore] at h
          cases h
          obtain ⟨ks, rfl, rfl⟩ := ih.mp hmore
          obtain rfl := Keyword.ofWord?_eq_some_iff.mp hk
          exact ⟨k :: ks, rfl, rfl⟩
    · rintro ⟨ks, hwords, rfl⟩
      cases ks with
      | nil => contradiction
      | cons k ks =>
        obtain ⟨rfl, rfl⟩ := List.cons_eq_cons.mp hwords
        rw [Keyword.ofWord?_word, ih.mpr ⟨ks, rfl, rfl⟩]
        rfl

theorem keyword_of_keywordKinds {words : List String} {kinds : List Kind}
    (h : keywordKinds words = .ok kinds) : ∀ kind ∈ kinds, ∃ k, kind = .keyword k := by
  obtain ⟨ks, -, rfl⟩ := keywordKinds_eq_ok_iff.mp h
  intro kind hkind
  obtain ⟨k, -, rfl⟩ := List.mem_map.mp hkind
  exact ⟨k, rfl⟩

/-- A variant differs from the Haskell configuration in its openers, which are keywords, and in
whether it closes the outermost block. -/
theorem Variant.shape {c : Config} (h : Variant c) :
    ∃ (kinds : List Kind) (close : Bool), (∀ kind ∈ kinds, ∃ k, kind = .keyword k) ∧
      c = { Config.haskell with openers := kinds, closeTopLevel := close } := by
  induction h with
  | haskell => exact ⟨Config.haskell.openers, true, by simp [Config.haskell], rfl⟩
  | @withKeywords c c' words _ hwords ih =>
    obtain ⟨_, close, _, rfl⟩ := ih
    cases hkinds : keywordKinds words with
    | error e => simp [Config.withKeywords, hkinds, Except.map] at hwords
    | ok kinds =>
      simp only [Config.withKeywords, hkinds, Except.map, Except.ok.injEq] at hwords
      exact ⟨kinds, close, keyword_of_keywordKinds hkinds, hwords.symm⟩
  | withCloseTopLevel close _ ih =>
    obtain ⟨kinds, _, hkinds, rfl⟩ := ih
    exact ⟨kinds, close, hkinds, rfl⟩

/-- Variants agree on what ends a line and on what begins and ends a binding. -/
theorem Variant.kinds {c : Config} (h : Variant c) :
    c.endOfLine = .newline ∧ c.letKind = .keyword .letK ∧ c.inKind = .keyword .inK := by
  obtain ⟨kinds, close, -, rfl⟩ := h.shape
  exact ⟨rfl, rfl, rfl⟩

theorem Variant.regular {c : Config} (h : Variant c) : Regular c := by
  obtain ⟨kinds, close, hkinds, rfl⟩ := h.shape
  have hdistinct : Config.haskell.Distinct := ⟨by decide, by decide, by decide⟩
  have hlet : Config.haskell.letKind ≠ Config.haskell.openKind ∧
      Config.haskell.letKind ≠ Config.haskell.separatorKind ∧
      Config.haskell.letKind ≠ Config.haskell.closeKind := by decide
  refine ⟨⟨hdistinct.1, hdistinct.2, hdistinct.3⟩, ?_, rfl, rfl, rfl, hlet.1, hlet.2.1, hlet.2.2⟩
  intro kind hkind
  cases kind with
  | none => simp [isOpener] at hkind
  | some kind =>
    have hmem : kind ∈ kinds := by simpa [isOpener] using hkind
    obtain ⟨k, rfl⟩ := hkinds kind hmem
    rfl

end OffsideRule.Layout.Config
