import OffsideRule.Proofs.Recognition

/-! String and character literals. In a string every backslash escapes the character behind it, so
that an escaped quote does not end the string. In a character literal a backslash only lets the
literal run on to the next quote, so that a quote always ends it, also behind a backslash. -/

namespace OffsideRule

/-- What a string may hold: any character but the quote, the backslash and the line feed, and any
character at all behind a backslash. -/
inductive StringItems : Text → Prop
  | nil : StringItems []
  | plain {c : Char} {more : Text} : c ≠ '\n' → c ≠ '\\' → c ≠ '"' → StringItems more →
      StringItems (c :: more)
  | escaped {c : Char} {more : Text} : StringItems more → StringItems ('\\' :: c :: more)

inductive StringLiteral : Text → Prop
  | mk {items : Text} : StringItems items → StringLiteral ('"' :: (items ++ ['"']))

inductive CharacterLiteral : Text → Prop
  | empty : CharacterLiteral ['\'', '\'']
  | plain {c : Char} : isQuotable c = true → c ≠ '\\' → CharacterLiteral ['\'', c, '\'']
  | escaped {items : Text} : (∀ c ∈ items, isQuotable c = true) →
      CharacterLiteral ('\'' :: '\\' :: (items ++ ['\'']))

section Strings

variable {s items : Text}

theorem stringBody_of_items (h : StringItems items) :
    stringBody (items ++ s) = (stringBody s).after items.length := by
  induction h with
  | nil => rw [List.nil_append, List.length_nil, Extent.after_zero]
  | @plain c more hfeed hescape hquote _ ih =>
    rw [List.cons_append, stringBody_of_plain hfeed hescape hquote, ih, Extent.after_after,
      List.length_cons, Nat.add_comm]
  | @escaped c more _ ih =>
    rw [List.cons_append, List.cons_append, stringBody, ih, Extent.after_after, List.length_cons,
      List.length_cons, Nat.add_comm]

/-- Where the scanner finds an end, there are items up to a quote. -/
theorem exists_stringItems (h : (stringBody s).closed = true) :
    ∃ items rest, s = items ++ '"' :: rest ∧ StringItems items := by
  fun_induction stringBody s with
  | case1 => contradiction
  | case2 => contradiction
  | case3 => contradiction
  | case4 c more ih =>
    obtain ⟨items, rest, rfl, hitems⟩ := ih h
    exact ⟨_, rest, rfl, .escaped hitems⟩
  | case5 more => exact ⟨[], more, rfl, .nil⟩
  | case6 c more hfeed hlast hescape hquote ih =>
    obtain ⟨items, rest, hmore, hitems⟩ := ih h
    exact ⟨_, rest, congrArg _ hmore, .plain hfeed (ne_escape hlast hescape) hquote hitems⟩

theorem stringBody_of_literal (h : StringItems items) (rest : Text) :
    (stringBody (items ++ '"' :: rest)).after 1 = ⟨('"' :: (items ++ ['"'])).length, true⟩ := by
  rw [stringBody_of_items h, stringBody, Extent.after_after]
  simp only [Extent.after, List.length_cons, List.length_append, List.length_nil, Nat.add_comm]

end Strings

section Characters

variable {s w rest : Text}

theorem characterBody_of_literal (h : CharacterLiteral w) (hw : '\'' :: s = w ++ rest) :
    (characterBody s).after 1 = ⟨w.length, true⟩ := by
  cases h with
  | empty =>
    cases hw
    rfl
  | @plain c hquotable hescape =>
    cases hw
    unfold characterBody
    split
    · next heq =>
      cases heq
      exact absurd rfl hescape
    · next heq =>
      cases heq
      rw [if_pos hquotable]
      rfl
    · contradiction
  | @escaped items hitems =>
    have hs : s = '\\' :: (items ++ '\'' :: rest) := by simpa using hw
    have hrun : runLength isQuotable (items ++ '\'' :: rest) = items.length := by
      rw [runLength_append hitems]
      rfl
    simp only [hs, characterBody, hrun, List.drop_left, closingQuote, Extent.after_after]
    simp only [Extent.after, List.length_cons, List.length_append, List.length_nil]
    congr 1
    omega

/-- Where the scanner finds a closing quote, a literal ends with it. -/
theorem exists_characterLiteral (h : (characterBody s).closed = true) :
    ∃ w rest, '\'' :: s = w ++ rest ∧ CharacterLiteral w := by
  unfold characterBody at h
  split at h
  · next more =>
    obtain ⟨rest, hrest⟩ := exists_of_closingQuote h
    have hitems : ∀ c ∈ more.take (runLength isQuotable more), isQuotable c = true :=
      fun c hc => of_mem_take_runLength hc
    refine ⟨_, rest, ?_, .escaped hitems⟩
    have hmore := List.take_append_drop (runLength isQuotable more) more
    rw [hrest] at hmore
    simp [hmore]
  · next c more hescape =>
    split at h
    · next hquotable =>
      obtain ⟨rest, rfl⟩ := exists_of_closingQuote h
      exact ⟨_, rest, rfl, .plain hquotable hescape⟩
    · obtain ⟨rest, hrest⟩ := exists_of_closingQuote h
      cases hrest
      exact ⟨_, more, rfl, .empty⟩
  · contradiction

end Characters

/-- At each double quote at which a token begins, a source is read as a string literal if one stands
there, and has a fault otherwise. -/
theorem strings_recognized {source : Text} {p : Nat} (hp : Boundary source p)
    (hquote : source[p]? = some '"') :
    (Pass.run (.start source)).Recognizes (.ofOffset source p) .string
      "unterminated string literal" fun w _ => StringLiteral w := by
  obtain ⟨front, hfront⟩ := hp.reads_ofOffset
  have hrest := Cursor.rest_ofOffset hquote
  have hread := Lexeme.read_string (source.drop (p + 1))
  rw [← hrest] at hread
  refine hfront.recognizes (by simp [hrest]) hread (fun hclosed => ?_) (fun w rest hw hform => ?_)
  · obtain ⟨items, rest, hmore, hitems⟩ := exists_stringItems hclosed
    exact ⟨_, rest, by simp [hrest, hmore], .mk hitems⟩
  · obtain ⟨hitems⟩ := hform
    simp only [hrest, List.cons_append, List.append_assoc, List.cons.injEq, true_and] at hw
    rw [hw]
    exact stringBody_of_literal hitems rest

/-- A string with an escaped backslash, an escaped quote and an escaped line feed. -/
def escapes : Text :=
  "\"\\\\\\\"\\\n\"\"".toList

theorem strings_recognized_escapes :
    Boundary escapes 0 ∧ escapes[0]? = some '"' ∧
      (Pass.run (.start escapes)).Emits .origin .string (escapes.take 8) ∧
      StringLiteral (escapes.take 8) := by
  have hboundary : Boundary escapes 0 :=
    Or.inl ⟨⟨.string, escapes.take 8, .origin, ⟨2, 2, 8⟩⟩, by decide +kernel, rfl⟩
  have hquote : escapes[0]? = some '"' := by decide
  have hemits : (Pass.run (.start escapes)).Emits .origin .string (escapes.take 8) := by
    decide +kernel
  obtain ⟨rest, -, hliteral⟩ := ((strings_recognized hboundary hquote).emits_iff _).mp hemits
  exact ⟨hboundary, hquote, hemits, hliteral⟩

/-- At each single quote at which a token begins, a source is read as a character literal if one
stands there, and has a fault otherwise. So an escaped character that is no quote stands in a
literal of four characters, and a quote behind the backslash ends the literal. -/
theorem characters_recognized {source : Text} {p : Nat} (hp : Boundary source p)
    (hquote : source[p]? = some '\'') :
    (Pass.run (.start source)).Recognizes (.ofOffset source p) .character
      "unterminated character literal" (fun w _ => CharacterLiteral w) ∧
    (∀ c, c ≠ '\'' → c ≠ '\n' → ['\'', '\\', c, '\''] <+: source.drop p →
      (Pass.run (.start source)).Emits (Cursor.ofOffset source p).position .character
        ['\'', '\\', c, '\'']) ∧
    (['\'', '\\', '\''] <+: source.drop p →
      (Pass.run (.start source)).Emits (Cursor.ofOffset source p).position .character
        ['\'', '\\', '\'']) := by
  obtain ⟨front, hfront⟩ := hp.reads_ofOffset
  have hrest := Cursor.rest_ofOffset hquote
  have hread := Lexeme.read_character (source.drop (p + 1))
  rw [← hrest] at hread
  have hrecognizes : (Pass.run (.start source)).Recognizes (.ofOffset source p) .character
      "unterminated character literal" (fun w _ => CharacterLiteral w) := by
    refine hfront.recognizes (by simp [hrest]) hread (fun hclosed => ?_) (fun w rest hw hform => ?_)
    · rw [hrest]
      exact exists_characterLiteral hclosed
    · rw [hrest] at hw
      exact characterBody_of_literal hform hw
  refine ⟨hrecognizes, ?_, ?_⟩
  · rintro c hc hfeed ⟨rest, hprefix⟩
    have hquotable : ∀ x ∈ [c], isQuotable x = true := by simp [isQuotable, hc, hfeed]
    exact (hrecognizes.emits_iff _).mpr ⟨rest, hprefix.symm, .escaped hquotable⟩
  · rintro ⟨rest, hprefix⟩
    have hquotable : ∀ x ∈ ([] : Text), isQuotable x = true := by simp
    exact (hrecognizes.emits_iff _).mpr ⟨rest, hprefix.symm, .escaped hquotable⟩

/-- An escaped backslash, and an escaped quote with the quote that is left behind it. -/
def escapedQuotes : Text :=
  "'\\\\''\\''".toList

theorem characters_recognized_escapedQuotes :
    (Boundary escapedQuotes 0 ∧ escapedQuotes[0]? = some '\'' ∧
      ['\'', '\\', '\\', '\''] <+: escapedQuotes.drop 0 ∧
      (Pass.run (.start escapedQuotes)).Emits .origin .character ['\'', '\\', '\\', '\'']) ∧
    (Boundary escapedQuotes 4 ∧ escapedQuotes[4]? = some '\'' ∧
      ['\'', '\\', '\''] <+: escapedQuotes.drop 4 ∧
      (Pass.run (.start escapedQuotes)).Emits ⟨1, 5, 4⟩ .character ['\'', '\\', '\'']) := by
  have hfirst : Boundary escapedQuotes 0 :=
    Or.inl ⟨⟨.character, ['\'', '\\', '\\', '\''], .origin, ⟨1, 5, 4⟩⟩, by decide +kernel, rfl⟩
  have hsecond : Boundary escapedQuotes 4 :=
    Or.inl ⟨⟨.character, ['\'', '\\', '\''], ⟨1, 5, 4⟩, ⟨1, 8, 7⟩⟩, by decide +kernel, rfl⟩
  have hbackslash : ['\'', '\\', '\\', '\''] <+: escapedQuotes.drop 0 := by decide
  have hquote : ['\'', '\\', '\''] <+: escapedQuotes.drop 4 := by decide
  obtain ⟨-, hfour, -⟩ := characters_recognized hfirst rfl
  obtain ⟨-, -, hthree⟩ := characters_recognized hsecond rfl
  exact ⟨⟨hfirst, rfl, hbackslash, hfour '\\' (by decide) (by decide) hbackslash⟩,
    ⟨hsecond, rfl, hquote, hthree hquote⟩⟩

/-- A quote is not read as an escaped character of a literal. -/
theorem not_character_of_escaped :
    ¬ ∀ (source : Text) (p : Nat) (c : Char), Boundary source p → c ≠ '\n' →
      ['\'', '\\', c, '\''] <+: source.drop p →
      (Pass.run (.start source)).Emits (Cursor.ofOffset source p).position .character
        ['\'', '\\', c, '\''] := by
  intro h
  have hboundary : Boundary "'\\''".toList 0 :=
    Or.inl ⟨⟨.character, ['\'', '\\', '\''], .origin, ⟨1, 4, 3⟩⟩, by decide +kernel, rfl⟩
  have hemits := h "'\\''".toList 0 '\'' hboundary (by decide) (by decide)
  revert hemits
  decide +kernel

end OffsideRule
