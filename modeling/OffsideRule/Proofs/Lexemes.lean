import OffsideRule.Proofs.Cuts

/-! The lexical grammar. `Lexeme.Heads` has a rule for each form of lexeme, and a lexeme is read at
the front of a text exactly if one of the rules puts it there (`Lexeme.read_eq_ok_iff`). By the
rules a lexeme lies within its text, and it is the same in a text that is cut off behind it, unless
the cut parts a line end. -/

namespace OffsideRule.Lexeme

/-- `Heads s lx` says that the lexeme `lx` stands at the front of `s`. -/
inductive Heads : Text → Lexeme → Prop
  | lineFeed (rest : Text) : Heads ('\n' :: rest) ⟨.newline, 1⟩
  | returnLineFeed (rest : Text) : Heads ('\r' :: '\n' :: rest) ⟨.newline, 2⟩
  | blockComment {rest : Text} : (commentBody 0 rest).closed = true →
      Heads ('{' :: '-' :: rest) ⟨.blockComment, 2 + (commentBody 0 rest).length⟩
  | blank {c : Char} {rest : Text} : isBlank c = true ∨ c = '\r' →
      (∀ more, c = '\r' → rest = '\n' :: more → False) →
      Heads (c :: rest) ⟨.blank, blankLength (c :: rest)⟩
  | lineComment {s : Text} : startsLineComment s = true → Heads s ⟨.lineComment, lineLength s⟩
  | punctuation {c : Char} {rest : Text} {kind : Kind} : punctuation? c = some kind →
      (∀ more, c = '{' → rest = '-' :: more → False) → Heads (c :: rest) ⟨kind, 1⟩
  | string {rest : Text} : (stringBody rest).closed = true →
      Heads ('"' :: rest) ⟨.string, 1 + (stringBody rest).length⟩
  | character {rest : Text} : (characterBody rest).closed = true →
      Heads ('\'' :: rest) ⟨.character, 1 + (characterBody rest).length⟩
  | number {c : Char} {rest : Text} : isDigit c = true →
      Heads (c :: rest) ⟨(numberExtent (c :: rest)).1, (numberExtent (c :: rest)).2⟩
  | name {c : Char} {rest : Text} : isDigit c = false → isNameStart c = true →
      Heads (c :: rest) ⟨nameKind ((c :: rest).take (runLength isNameChar (c :: rest))),
        runLength isNameChar (c :: rest)⟩
  | symbols {c : Char} {rest : Text} : isDigit c = false → isNameStart c = false →
      isSymbol c = true → startsLineComment (c :: rest) = false →
      Heads (c :: rest) ⟨symbolKind ((c :: rest).take (runLength isSymbol (c :: rest))),
        runLength isSymbol (c :: rest)⟩

theorem delimited_eq_ok_iff {kind : Kind} {problem : Problem} {e : Extent} {lx : Lexeme} :
    delimited kind problem e = .ok lx ↔ e.closed = true ∧ lx = ⟨kind, e.length⟩ := by
  unfold delimited
  split
  · next hclosed => simp [hclosed, eq_comm]
  · next hclosed => simp [hclosed]

theorem heads_of_read {c : Char} {rest : Text} {lx : Lexeme} (h : read (c :: rest) = .ok lx) :
    Heads (c :: rest) lx := by
  unfold read at h
  split at h
  · contradiction
  · next heq =>
    cases heq
    cases h
    exact .lineFeed rest
  · next more heq =>
    cases heq
    cases h
    exact .returnLineFeed more
  · next more heq =>
    cases heq
    obtain ⟨hclosed, rfl⟩ := delimited_eq_ok_iff.mp h
    exact .blockComment hclosed
  · next hend hcomment heq =>
    cases heq
    simp only at h
    split at h
    · contradiction
    split at h
    · next hblank =>
      cases h
      exact .blank (by simpa using hblank) hend
    split at h
    · next hline =>
      cases h
      exact .lineComment hline
    next hline =>
    split at h
    · next hpunctuation =>
      cases h
      exact .punctuation hpunctuation hcomment
    split at h
    · next hquote =>
      subst hquote
      obtain ⟨hclosed, rfl⟩ := delimited_eq_ok_iff.mp h
      exact .string hclosed
    split at h
    · next hquote =>
      subst hquote
      obtain ⟨hclosed, rfl⟩ := delimited_eq_ok_iff.mp h
      exact .character hclosed
    split at h
    · next hdigit =>
      cases h
      exact .number hdigit
    next hdigit =>
    split at h
    · next hname =>
      cases h
      exact .name (by simpa using hdigit) hname
    next hname =>
    split at h
    · next hsymbol =>
      cases h
      exact .symbols (by simpa using hdigit) (by simpa using hname) hsymbol (by simpa using hline)
    · contradiction

/-- The characters that decide by themselves, or with the next one, which lexeme they begin. -/
def markers : List Char :=
  ['\x00', '\n', '\r', ' ', '\t', '\x0c', '\x0b', '(', ')', '[', ']', '{', '}', ',', ';', '`', '"',
   '\'']

/-- Numbers, names and symbols begin with no marker. -/
theorem read_of_not_marker {c : Char} {rest : Text} (hc : c ∉ markers)
    (hline : startsLineComment (c :: rest) = false) :
    read (c :: rest) =
      if isDigit c then .ok ⟨(numberExtent (c :: rest)).1, (numberExtent (c :: rest)).2⟩
      else if isNameStart c then
        .ok ⟨nameKind ((c :: rest).take (runLength isNameChar (c :: rest))),
          runLength isNameChar (c :: rest)⟩
      else if isSymbol c then
        .ok ⟨symbolKind ((c :: rest).take (runLength isSymbol (c :: rest))),
          runLength isSymbol (c :: rest)⟩
      else .error ⟨.unexpected c, 0⟩ := by
  simp only [markers, List.mem_cons, List.not_mem_nil, or_false, not_or] at hc
  unfold read
  split
  · contradiction
  · next heq =>
    cases heq
    simp at hc
  · next heq =>
    cases heq
    simp at hc
  · next heq =>
    cases heq
    simp at hc
  · next heq =>
    cases heq
    simp [hc, hline, isBlank, punctuation?]

theorem not_marker_of {p : Char → Bool} (hp : markers.any p = false) {c : Char}
    (h : p c = true) : c ∉ markers := by
  intro hc
  exact List.any_eq_false.mp hp c hc h

theorem isDigit_markers : markers.any isDigit = false := by
  decide +kernel

theorem isNameStart_markers : markers.any isNameStart = false := by
  decide +kernel

theorem isSymbol_markers : markers.any isSymbol = false := by
  decide +kernel

theorem startsLineComment_of_ne_dash {c : Char} (hc : c ≠ '-') (rest : Text) :
    startsLineComment (c :: rest) = false := by
  simp [startsLineComment, runLength, hc]

theorem ne_dash_of {p : Char → Bool} (hp : p '-' = false) {c : Char} (h : p c = true) :
    c ≠ '-' := by
  rintro rfl
  simp [hp] at h

theorem read_of_punctuation {c : Char} {rest : Text} {kind : Kind} (h : punctuation? c = some kind)
    (hcomment : ∀ more, c = '{' → rest = '-' :: more → False) : read (c :: rest) = .ok ⟨kind, 1⟩ := by
  have hne (x : Char) (hx : punctuation? x = none) : c ≠ x := by
    rintro rfl
    simp [hx] at h
  have hblank : isBlank c = false := by
    simp [isBlank, hne ' ' rfl, hne '\t' rfl, hne '\x0c' rfl, hne '\x0b' rfl]
  rw [read]
  · simp [h, hblank, hne '\x00' rfl, hne '\r' rfl, startsLineComment_of_ne_dash (hne '-' rfl)]
  · exact hne '\n' rfl
  · exact fun _ hc _ => hne '\r' rfl hc
  · exact hcomment

theorem read_of_blank {c : Char} {rest : Text} (h : isBlank c = true ∨ c = '\r')
    (hend : ∀ more, c = '\r' → rest = '\n' :: more → False) :
    read (c :: rest) = .ok ⟨.blank, blankLength (c :: rest)⟩ := by
  have hne (x : Char) (hx : ¬ (isBlank x = true ∨ x = '\r')) : c ≠ x := by
    rintro rfl
    exact hx h
  rw [read]
  · simp [h, hne '\x00' (by decide)]
  · exact hne '\n' (by decide)
  · exact hend
  · exact fun _ hc _ => hne '{' (by decide) hc

theorem read_of_lineComment {s : Text} (h : startsLineComment s = true) :
    read s = .ok ⟨.lineComment, lineLength s⟩ := by
  cases s with
  | nil => simp [startsLineComment, runLength] at h
  | cons c rest =>
    have hc : c = '-' := Decidable.byContradiction fun hc => by
      simp [startsLineComment_of_ne_dash hc] at h
    subst hc
    have hblank : isBlank '-' = false := by decide
    simp [read, h, hblank]

theorem read_string (rest : Text) :
    read ('"' :: rest) = delimited .string .openString ((stringBody rest).after 1) := by
  have hline := startsLineComment_of_ne_dash (by decide : '"' ≠ '-') rest
  have hblank : isBlank '"' = false := by decide
  have hpunctuation : punctuation? '"' = none := by decide
  simp [read, hline, hblank, hpunctuation]

theorem read_character (rest : Text) :
    read ('\'' :: rest) = delimited .character .openCharacter ((characterBody rest).after 1) := by
  have hline := startsLineComment_of_ne_dash (by decide : '\'' ≠ '-') rest
  have hblank : isBlank '\'' = false := by decide
  have hpunctuation : punctuation? '\'' = none := by decide
  simp [read, hline, hblank, hpunctuation]

theorem read_of_heads {s : Text} {lx : Lexeme} (h : Heads s lx) : read s = .ok lx := by
  cases h with
  | lineFeed rest => rfl
  | returnLineFeed rest => rfl
  | blockComment hclosed => exact delimited_eq_ok_iff.mpr ⟨hclosed, rfl⟩
  | blank hblank hend => exact read_of_blank hblank hend
  | lineComment hline => exact read_of_lineComment hline
  | punctuation hpunctuation hcomment => exact read_of_punctuation hpunctuation hcomment
  | string hclosed =>
    rw [read_string]
    exact delimited_eq_ok_iff.mpr ⟨hclosed, rfl⟩
  | character hclosed =>
    rw [read_character]
    exact delimited_eq_ok_iff.mpr ⟨hclosed, rfl⟩
  | @number c rest hdigit =>
    have hdash : c ≠ '-' := ne_dash_of (by decide +kernel) hdigit
    rw [read_of_not_marker (not_marker_of isDigit_markers hdigit)
      (startsLineComment_of_ne_dash hdash rest), if_pos hdigit]
  | @name c rest hdigit hname =>
    have hdash : c ≠ '-' := ne_dash_of (by decide +kernel) hname
    rw [read_of_not_marker (not_marker_of isNameStart_markers hname)
      (startsLineComment_of_ne_dash hdash rest), hdigit, if_pos hname]
    rfl
  | symbols hdigit hname hsymbol hline =>
    rw [read_of_not_marker (not_marker_of isSymbol_markers hsymbol) hline, hdigit, hname,
      if_pos hsymbol]
    rfl

section Kinds

theorem numberExtent_kind (s : Text) :
    (numberExtent s).1 = .integer ∨ (numberExtent s).1 = .float := by
  simp only [numberExtent]
  split
  · exact Or.inl rfl
  · simp only
    split
    · exact Or.inr rfl
    · exact Or.inl rfl

theorem symbolKind_eq (symbols : Text) :
    symbolKind symbols = .equals ∨ symbolKind symbols = .operator := by
  unfold symbolKind
  split
  · exact Or.inl rfl
  · exact Or.inr rfl

/-- A name is a keyword by its word, or has a kind of its own. -/
theorem nameKind_eq (name : Text) :
    (∃ k : Keyword, nameKind name = .keyword k ∧ name = k.word.toList) ∨
      nameKind name = .constructorId ∨ nameKind name = .variableId := by
  unfold nameKind
  split
  · next k hk =>
    have hword := List.find?_some hk
    rw [beq_iff_eq] at hword
    exact Or.inl ⟨k, rfl, by rw [hword, String.toList_ofList]⟩
  · split
    · exact Or.inr (Or.inl rfl)
    · exact Or.inr (Or.inr rfl)

def punctuationKinds : List Kind :=
  [.leftParen, .rightParen, .leftBracket, .rightBracket, .leftBrace, .rightBrace, .comma,
   .semicolon, .backquote]

/-- The kinds of lexemes but for keywords and ends of lines. -/
def plainKinds : List Kind :=
  [.variableId, .constructorId, .integer, .float, .string, .character, .equals, .operator, .blank,
   .lineComment, .blockComment] ++ punctuationKinds

theorem punctuation?_mem {c : Char} {kind : Kind} (h : punctuation? c = some kind) :
    kind ∈ punctuationKinds := by
  unfold punctuation? at h
  simp only [punctuationKinds, List.mem_cons, List.not_mem_nil, or_false]
  grind

end Kinds

/-- A lexeme is read exactly if a rule puts it at the front of the text. -/
theorem read_eq_ok_iff {s : Text} {lx : Lexeme} (h : s ≠ []) : read s = .ok lx ↔ Heads s lx := by
  obtain ⟨c, rest, rfl⟩ := List.exists_cons_of_ne_nil h
  exact ⟨heads_of_read, read_of_heads⟩

namespace Heads

variable {s : Text} {lx : Lexeme} {m : Nat}

theorem length_le (h : Heads s lx) : lx.length ≤ s.length := by
  cases h with
  | lineFeed rest => simp
  | returnLineFeed rest => simp
  | @blockComment rest _ =>
    have := commentBody_le_length 0 rest
    simp only [List.length_cons]
    omega
  | blank _ _ => exact blankLength_le_length _
  | lineComment _ => exact lineLength_le_length _
  | punctuation _ _ => simp
  | @string rest _ =>
    have := stringBody_le_length rest
    simp only [List.length_cons]
    omega
  | @character rest _ =>
    have := characterBody_le_length rest
    simp only [List.length_cons]
    omega
  | number _ => exact numberExtent_le_length _
  | name _ _ => exact runLength_le_length _ _
  | symbols _ _ _ _ => exact runLength_le_length _ _

/-- A lexeme is an end of line, a keyword, or of a kind that is neither. -/
theorem kind_cases (h : Heads s lx) :
    (lx.kind = .newline ∧ ((∃ rest, s = '\n' :: rest ∧ lx.length = 1) ∨
      ∃ rest, s = '\r' :: '\n' :: rest ∧ lx.length = 2)) ∨
    (∃ k : Keyword, lx.kind = .keyword k ∧ s.take lx.length = k.word.toList) ∨
    lx.kind ∈ plainKinds := by
  cases h with
  | lineFeed rest => exact Or.inl ⟨rfl, Or.inl ⟨rest, rfl, rfl⟩⟩
  | returnLineFeed rest => exact Or.inl ⟨rfl, Or.inr ⟨rest, rfl, rfl⟩⟩
  | punctuation hkind _ => exact Or.inr (Or.inr (List.mem_append_right _ (punctuation?_mem hkind)))
  | @number c rest _ =>
    simp only
    rcases numberExtent_kind (c :: rest) with hkind | hkind <;> simp [hkind, plainKinds]
  | @name c rest _ _ =>
    simp only
    generalize (c :: rest).take (runLength isNameChar (c :: rest)) = name
    rcases nameKind_eq name with ⟨k, hkind, hword⟩ | hkind | hkind
    · exact Or.inr (Or.inl ⟨k, hkind, hword⟩)
    · simp [hkind, plainKinds]
    · simp [hkind, plainKinds]
  | @symbols c rest _ _ _ _ =>
    simp only
    generalize (c :: rest).take (runLength isSymbol (c :: rest)) = symbols
    rcases symbolKind_eq symbols with hkind | hkind <;> simp [hkind, plainKinds]
  | blockComment | blank | lineComment | string | character => simp [plainKinds]

/-- The end of the input is no lexeme. -/
theorem kind_ne_endOfInput (h : Heads s lx) : lx.kind ≠ .endOfInput := by
  intro hend
  rcases h.kind_cases with ⟨hkind, _⟩ | ⟨k, hkind, _⟩ | hkind
  · simp [hend] at hkind
  · simp [hend] at hkind
  · simp [hend, plainKinds, punctuationKinds] at hkind

/-- An end of line is a line feed, with a carriage return or without. -/
theorem of_newline (h : Heads s lx) (hnewline : lx.kind = .newline) :
    (∃ rest, s = '\n' :: rest ∧ lx.length = 1) ∨
      ∃ rest, s = '\r' :: '\n' :: rest ∧ lx.length = 2 := by
  rcases h.kind_cases with ⟨_, hends⟩ | ⟨k, hkind, _⟩ | hkind
  · exact hends
  · simp [hnewline] at hkind
  · simp [hnewline, plainKinds, punctuationKinds] at hkind

/-- A keyword stands there as its word. -/
theorem take_of_keyword {k : Keyword} (h : Heads s lx) (hk : lx.kind = .keyword k) :
    s.take lx.length = k.word.toList := by
  rcases h.kind_cases with ⟨hkind, _⟩ | ⟨k', hkind, hword⟩ | hkind
  · simp [hk] at hkind
  · rw [hk, Kind.keyword.injEq] at hkind
    rw [hword, hkind]
  · simp [hk, plainKinds, punctuationKinds] at hkind

/-- The rules do not look at what is cut off behind a lexeme, except for a parted line end. -/
theorem take (h : Heads s lx) (hm : lx.length ≤ m)
    (hcut : ¬ PartsLineEnd (s.drop lx.length) (m - lx.length)) : Heads (s.take m) lx := by
  cases h with
  | lineFeed rest =>
    obtain ⟨k, rfl⟩ : ∃ k, m = k + 1 := ⟨m - 1, by simp only at hm; omega⟩
    exact .lineFeed (rest.take k)
  | returnLineFeed rest =>
    obtain ⟨k, rfl⟩ : ∃ k, m = k + 2 := ⟨m - 2, by simp only at hm; omega⟩
    exact .returnLineFeed (rest.take k)
  | @blockComment rest hclosed =>
    simp only at hm
    obtain ⟨k, rfl⟩ : ∃ k, m = k + 2 := ⟨m - 2, by omega⟩
    have hbody := commentBody_take (m := k) hclosed (by omega)
    rw [← hbody] at hclosed ⊢
    exact .blockComment hclosed
  | @blank c rest hblank hend =>
    have hpos := blankLength_pos hblank hend
    have hlength := blankLength_take hm hcut
    simp only at hm
    obtain ⟨k, rfl⟩ : ∃ k, m = k + 1 := ⟨m - 1, by omega⟩
    rw [← hlength]
    refine .blank hblank fun more hc hmore => ?_
    obtain ⟨behind, hbehind⟩ := eq_cons_of_take hmore
    exact hend behind hc hbehind
  | lineComment hline =>
    have hsymbols : runLength isSymbol s ≤ m := Nat.le_trans (runLength_isSymbol_le_lineLength s) hm
    rw [← lineLength_take hm hcut]
    exact .lineComment ((startsLineComment_take hsymbols).trans hline)
  | @punctuation c rest kind hkind hcomment =>
    obtain ⟨k, rfl⟩ : ∃ k, m = k + 1 := ⟨m - 1, by simp only at hm; omega⟩
    refine .punctuation hkind fun more hc hmore => ?_
    obtain ⟨behind, hbehind⟩ := eq_cons_of_take hmore
    exact hcomment behind hc hbehind
  | @string rest hclosed =>
    simp only at hm
    obtain ⟨k, rfl⟩ : ∃ k, m = k + 1 := ⟨m - 1, by omega⟩
    have hbody := stringBody_take (m := k) hclosed (by omega)
    rw [← hbody] at hclosed ⊢
    exact .string hclosed
  | @character rest hclosed =>
    simp only at hm
    obtain ⟨k, rfl⟩ : ∃ k, m = k + 1 := ⟨m - 1, by omega⟩
    have hbody := characterBody_take (m := k) hclosed (by omega)
    rw [← hbody] at hclosed ⊢
    exact .character hclosed
  | @number c rest hdigit =>
    have hpos := numberExtent_pos hdigit rest
    have hextent := numberExtent_take hm
    simp only at hm
    obtain ⟨k, rfl⟩ : ∃ k, m = k + 1 := ⟨m - 1, by omega⟩
    rw [← hextent]
    exact .number hdigit
  | @name c rest hdigit hname =>
    have hpos := runLength_pos (isNameChar_of_isNameStart hname) rest
    have hrun := runLength_take_of_le hm
    have htext := take_runLength_take hm
    simp only at hm
    obtain ⟨k, rfl⟩ : ∃ k, m = k + 1 := ⟨m - 1, by omega⟩
    rw [← htext, ← hrun]
    exact .name hdigit hname
  | @symbols c rest hdigit hname hsymbol hline =>
    have hpos := runLength_pos hsymbol rest
    have hrun := runLength_take_of_le hm
    have htext := take_runLength_take hm
    have hcomment := startsLineComment_take hm
    simp only at hm
    obtain ⟨k, rfl⟩ : ∃ k, m = k + 1 := ⟨m - 1, by omega⟩
    rw [← htext, ← hrun]
    exact .symbols hdigit hname hsymbol (hcomment.trans hline)

end Heads

end OffsideRule.Lexeme
