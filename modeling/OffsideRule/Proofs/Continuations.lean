import OffsideRule.Proofs.Comments
import OffsideRule.Proofs.Literals

/-! Texts to which other text is added. A lexeme that is not a blank and not a line comment stays the
same where a blank or a line end follows the text, since a run of characters ends there and a
delimited lexeme that is closed does not look on; blanks and line comments stay the same if they end
before the text does. So the tokens of a text are read again where a blank or a line end follows it,
and the tokens of whole lines where any text follows. -/

namespace OffsideRule

/-- Blanks, and the characters that line ends are made of. -/
def stoppers : List Char :=
  ['\n', '\r', ' ', '\t', '\x0c', '\x0b']

/-- The text is empty or begins with a blank or a line end. -/
def Stops (z : Text) : Prop :=
  ∀ c ∈ z.head?, c ∈ stoppers

theorem ne_of_stopper {c d : Char} (h : c ∈ stoppers) (hd : d ∉ stoppers) : c ≠ d := by
  rintro rfl
  exact hd h

section Number

variable {p : Char → Bool} {z : Text}

/-- A run of characters that are no stoppers ends at the first stopper. -/
theorem runLength_append_stop (hp : stoppers.any p = false) (hz : Stops z) (w : Text) :
    runLength p (w ++ z) = runLength p w := by
  induction w with
  | nil =>
    cases z with
    | nil => rfl
    | cons c more =>
      have hc : ¬ p c = true := List.any_eq_false.mp hp c (hz c rfl)
      simp [runLength, hc]
  | cons c more ih =>
    simp only [runLength] at ih ⊢
    rw [List.cons_append, List.takeWhile_cons, List.takeWhile_cons]
    split
    · rw [List.length_cons, List.length_cons, ih]
    · rfl

theorem hexLength_append_stop (hz : Stops z) (w : Text) : hexLength (w ++ z) = hexLength w := by
  match w with
  | [] =>
    match z with
    | [] => rfl
    | [c] => exact hexLength_singleton c
    | c :: d :: more =>
      have hc : c ≠ '0' := ne_of_stopper (hz c rfl) (by decide)
      rw [List.nil_append, hexLength_cons_cons, if_neg (by simp [hc])]
      rfl
  | [c] =>
    match z with
    | [] => rfl
    | d :: more =>
      have hlower : d ≠ 'x' := ne_of_stopper (hz d rfl) (by decide)
      have hupper : d ≠ 'X' := ne_of_stopper (hz d rfl) (by decide)
      rw [List.singleton_append, hexLength_cons_cons, hexLength_singleton,
        if_neg (by simp [hlower, hupper])]
  | c :: d :: more =>
    rw [List.cons_append, List.cons_append, hexLength_cons_cons, hexLength_cons_cons,
      runLength_append_stop (by decide) hz]

theorem digitsLength_append_stop (hz : Stops z) (w : Text) :
    digitsLength (w ++ z) = digitsLength w :=
  runLength_append_stop (by decide) hz w

theorem fractionLength_append_stop (hz : Stops z) (w : Text) :
    fractionLength (w ++ z) = fractionLength w := by
  cases w with
  | nil =>
    cases z with
    | nil => rfl
    | cons c more =>
      have hc : c ≠ '.' := ne_of_stopper (hz c rfl) (by decide)
      rw [List.nil_append, fractionLength_cons, if_neg (by simp [hc])]
      rfl
  | cons c more =>
    rw [List.cons_append, fractionLength_cons, fractionLength_cons, digitsLength_append_stop hz]

theorem signLength_append_stop (hz : Stops z) (w : Text) : signLength (w ++ z) = signLength w := by
  cases w with
  | nil =>
    cases z with
    | nil => rfl
    | cons c more =>
      have hplus : c ≠ '+' := ne_of_stopper (hz c rfl) (by decide)
      have hminus : c ≠ '-' := ne_of_stopper (hz c rfl) (by decide)
      simp [signLength, hplus, hminus]
  | cons c more => rfl

theorem exponentLength_append_stop (hz : Stops z) (w : Text) :
    exponentLength (w ++ z) = exponentLength w := by
  cases w with
  | nil =>
    cases z with
    | nil => rfl
    | cons c more =>
      have hlower : c ≠ 'e' := ne_of_stopper (hz c rfl) (by decide)
      have hupper : c ≠ 'E' := ne_of_stopper (hz c rfl) (by decide)
      rw [List.nil_append, exponentLength_cons, if_neg (by simp [hlower, hupper])]
      rfl
  | cons c more =>
    rw [List.cons_append, exponentLength_cons, exponentLength_cons, signLength_append_stop hz,
      List.drop_append_of_le_length (signLength_le_length more), digitsLength_append_stop hz]

theorem numberExtent_append_stop (hz : Stops z) (w : Text) :
    numberExtent (w ++ z) = numberExtent w := by
  have hwhole : digitsLength w ≤ w.length := runLength_le_length isDigit w
  have hfraction := fractionLength_le_length (w.drop (digitsLength w))
  rw [List.length_drop] at hfraction
  simp only [numberExtent, hexLength_append_stop hz, digitsLength_append_stop hz]
  rw [List.drop_append_of_le_length hwhole, fractionLength_append_stop hz,
    List.drop_append_of_le_length (by omega), exponentLength_append_stop hz]

end Number

section Delimited

variable {s : Text}

/-- A comment that is closed stays the same where more text follows. -/
theorem commentBody_append {outer : Nat} (hclosed : (commentBody outer s).closed = true) (x : Text) :
    commentBody outer (s ++ x) = commentBody outer s := by
  fun_induction commentBody outer s with
  | case1 => contradiction
  | case2 outer rest ih => rw [List.cons_append, List.cons_append, commentBody, ih hclosed]
  | case3 rest => rw [List.cons_append, List.cons_append, commentBody]
  | case4 outer rest ih => rw [List.cons_append, List.cons_append, commentBody, ih hclosed]
  | case5 outer c rest hopen hclose hinner ih =>
    obtain ⟨d, more, rfl⟩ : ∃ d more, rest = d :: more := by
      cases rest with
      | nil => contradiction
      | cons d more => exact ⟨d, more, rfl⟩
    rw [List.cons_append, commentBody, ih hclosed]
    · intro behind hc hd
      obtain ⟨rfl, -⟩ := List.cons_eq_cons.mp hd
      exact hopen more hc rfl
    · intro behind houter hc hd
      obtain ⟨rfl, -⟩ := List.cons_eq_cons.mp hd
      exact hclose more houter hc rfl
    · intro inner behind houter hc hd
      obtain ⟨rfl, -⟩ := List.cons_eq_cons.mp hd
      exact hinner inner more houter hc rfl

theorem Extent.after_injective (n : Nat) {e e' : Extent} (h : e.after n = e'.after n) : e = e' := by
  obtain ⟨length, closed⟩ := e
  obtain ⟨length', closed'⟩ := e'
  simpa [after] using h

theorem stringBody_append (hclosed : (stringBody s).closed = true) (x : Text) :
    stringBody (s ++ x) = stringBody s := by
  obtain ⟨items, rest, rfl, hitems⟩ := exists_stringItems hclosed
  rw [List.append_assoc, List.cons_append, stringBody_of_items hitems, stringBody_of_items hitems,
    stringBody, stringBody]

theorem characterBody_append (hclosed : (characterBody s).closed = true) (x : Text) :
    characterBody (s ++ x) = characterBody s := by
  obtain ⟨w, rest, hw, hliteral⟩ := exists_characterLiteral hclosed
  have hwx : '\'' :: (s ++ x) = w ++ (rest ++ x) := by
    rw [← List.append_assoc, ← hw, List.cons_append]
  have h := characterBody_of_literal hliteral hw
  have hx := characterBody_of_literal hliteral hwx
  exact Extent.after_injective 1 (hx.trans h.symm)

end Delimited

section Line

theorem blankLength_cons (c : Char) (rest : Text) :
    blankLength (c :: rest) =
      if c = '\r' ∧ rest.head? = some '\n' then 0
      else if isBlank c = true ∨ c = '\r' then blankLength rest + 1
      else 0 := by
  by_cases hend : c = '\r' ∧ rest.head? = some '\n'
  · rw [if_pos hend]
    obtain ⟨rfl, hrest⟩ := hend
    obtain ⟨more, rfl⟩ := List.head?_eq_some_iff.mp hrest
    rfl
  · rw [if_neg hend, blankLength]
    · simp
    · rintro more rfl rfl
      exact hend ⟨rfl, rfl⟩

theorem lineLength_cons (c : Char) (rest : Text) :
    lineLength (c :: rest) =
      if c = '\n' ∨ c = '\r' ∧ rest.head? = some '\n' then 0 else lineLength rest + 1 := by
  by_cases hend : c = '\n' ∨ c = '\r' ∧ rest.head? = some '\n'
  · rw [if_pos hend]
    rcases hend with rfl | ⟨rfl, hrest⟩
    · rfl
    · obtain ⟨more, rfl⟩ := List.head?_eq_some_iff.mp hrest
      rfl
  · rw [if_neg hend, lineLength]
    · rintro rfl
      exact hend (Or.inl rfl)
    · rintro more rfl rfl
      exact hend (Or.inr ⟨rfl, rfl⟩)

/-- Blanks that end before the text does stay the same where more text follows. -/
theorem blankLength_append_of_lt {s : Text} (h : blankLength s < s.length) (x : Text) :
    blankLength (s ++ x) = blankLength s := by
  induction s with
  | nil => contradiction
  | cons c rest ih =>
    cases rest with
    | nil =>
      have hc : ¬ (isBlank c = true ∨ c = '\r') := by
        intro hc
        simp [blankLength_cons, hc] at h
      have hreturn : c ≠ '\r' := fun hreturn => hc (Or.inr hreturn)
      rw [List.singleton_append, blankLength_cons, blankLength_cons, if_neg hc, if_neg hc]
      simp [hreturn]
    | cons d more =>
      have hhead : (d :: more ++ x).head? = (d :: more).head? := rfl
      rw [List.cons_append, blankLength_cons, blankLength_cons c (d :: more), hhead]
      rw [blankLength_cons, List.length_cons] at h
      split at h
      · next hend => rw [if_pos hend, if_pos hend]
      · next hend =>
        split at h
        · next hblank =>
          rw [if_neg hend, if_neg hend, if_pos hblank, if_pos hblank, ih (by omega)]
        · next hblank => rw [if_neg hend, if_neg hend, if_neg hblank, if_neg hblank]

/-- A line that ends before the text does stays the same where more text follows. -/
theorem lineLength_append_of_lt {s : Text} (h : lineLength s < s.length) (x : Text) :
    lineLength (s ++ x) = lineLength s := by
  induction s with
  | nil => contradiction
  | cons c rest ih =>
    rw [lineLength_cons, List.length_cons] at h
    cases rest with
    | nil =>
      have hc : c = '\n' := by
        by_contra hc
        simp [hc] at h
      rw [List.singleton_append, lineLength_cons, lineLength_cons, if_pos (Or.inl hc),
        if_pos (Or.inl hc)]
    | cons d more =>
      have hhead : (d :: more ++ x).head? = (d :: more).head? := rfl
      rw [List.cons_append, lineLength_cons, lineLength_cons c (d :: more), hhead]
      split at h
      · next hend => rw [if_pos hend, if_pos hend]
      · next hend => rw [if_neg hend, if_neg hend, ih (by omega)]

theorem startsLineComment_append_stop {z : Text} (hz : Stops z) (w : Text) :
    startsLineComment (w ++ z) = startsLineComment w := by
  rw [Bool.eq_iff_iff, startsLineComment_iff, startsLineComment_iff,
    runLength_append_stop (by decide) hz, runLength_append_stop (by decide) hz]

end Line

namespace Lexeme.Heads

variable {s w z z' : Text} {lx : Lexeme}

/-- Where texts that stop it follow, a lexeme is the same, unless it may join what follows. -/
theorem append_stop (h : Heads (w ++ z) lx) (hle : lx.length ≤ w.length)
    (hblank : lx.kind ≠ .blank) (hcomment : lx.kind ≠ .lineComment) (hz : Stops z)
    (hstops : Stops z') : Heads (w ++ z') lx := by
  have hpos := h.length_pos
  obtain ⟨c, more, rfl⟩ : ∃ c more, w = c :: more := by
    cases w with
    | nil => simp only [List.length_nil] at hle; omega
    | cons c more => exact ⟨c, more, rfl⟩
  have htake : ((c :: more) ++ z).take lx.length = ((c :: more) ++ z').take lx.length := by
    rw [List.take_append_of_le_length hle, List.take_append_of_le_length hle]
  have hrun {p : Char → Bool} (hp : stoppers.any p = false) :
      runLength p ((c :: more) ++ z) = runLength p ((c :: more) ++ z') :=
    (runLength_append_stop hp hz _).trans (runLength_append_stop hp hstops _).symm
  rw [List.cons_append] at h htake ⊢
  rw [List.cons_append] at htake
  generalize hs : more ++ z = s at h htake
  cases h with
  | lineFeed rest => exact .lineFeed _
  | returnLineFeed rest =>
    cases more with
    | nil => simp at hle
    | cons d more =>
      cases hs
      exact .returnLineFeed _
  | @blockComment rest hclosed =>
    cases more with
    | nil =>
      simp only [List.length_cons, List.length_nil] at hle
      omega
    | cons d v =>
      rw [List.cons_append] at hs
      obtain ⟨rfl, rfl⟩ := List.cons.inj hs
      simp only [List.length_cons] at hle
      have hv := commentBody_take (m := v.length) hclosed (by omega)
      rw [List.take_left] at hv
      rw [← hv] at hclosed ⊢
      have hz' := commentBody_append hclosed z'
      rw [← hz'] at hclosed ⊢
      exact .blockComment hclosed
  | blank => exact absurd rfl hblank
  | lineComment => exact absurd rfl hcomment
  | @punctuation c rest kind hkind hopen =>
    refine .punctuation hkind fun behind hc hbehind => ?_
    cases more with
    | nil =>
      rw [List.nil_append] at hbehind
      subst hbehind
      exact ne_of_stopper (hstops '-' rfl) (by decide) rfl
    | cons d v =>
      rw [List.cons_append] at hbehind hs
      obtain ⟨rfl, -⟩ := List.cons.inj hbehind
      exact hopen _ hc hs.symm
  | @string rest hclosed =>
    subst hs
    simp only [List.length_cons] at hle
    have hv := stringBody_take (m := more.length) hclosed (by omega)
    rw [List.take_left] at hv
    rw [← hv] at hclosed ⊢
    have hz' := stringBody_append hclosed z'
    rw [← hz'] at hclosed ⊢
    exact .string hclosed
  | @character rest hclosed =>
    subst hs
    simp only [List.length_cons] at hle
    have hv := characterBody_take (m := more.length) hclosed (by omega)
    rw [List.take_left] at hv
    rw [← hv] at hclosed ⊢
    have hz' := characterBody_append hclosed z'
    rw [← hz'] at hclosed ⊢
    exact .character hclosed
  | @number c rest hdigit =>
    subst hs
    have hextent : numberExtent (c :: (more ++ z)) = numberExtent (c :: (more ++ z')) :=
      (numberExtent_append_stop hz (c :: more)).trans
        (numberExtent_append_stop hstops (c :: more)).symm
    rw [hextent]
    exact .number hdigit
  | @name c rest hdigit hname =>
    subst hs
    have hlength : runLength isNameChar (c :: (more ++ z)) =
        runLength isNameChar (c :: (more ++ z')) := hrun (by decide +kernel)
    simp only at htake
    rw [htake, hlength]
    exact .name hdigit hname
  | @symbols c rest hdigit hname hsymbol hline =>
    subst hs
    have hlength : runLength isSymbol (c :: (more ++ z)) = runLength isSymbol (c :: (more ++ z')) :=
      hrun (by decide)
    have hstarts : startsLineComment (c :: (more ++ z')) = startsLineComment (c :: (more ++ z)) :=
      (startsLineComment_append_stop hstops (c :: more)).trans
        (startsLineComment_append_stop hz (c :: more)).symm
    simp only at htake
    rw [htake, hlength]
    exact .symbols hdigit hname hsymbol (hstarts.trans hline)

/-- Blanks and line comments that end before the text does stand there with any text behind it. -/
theorem append_of_lt (h : Heads s lx) (hkind : lx.kind = .blank ∨ lx.kind = .lineComment)
    (hlt : lx.length < s.length) (x : Text) : Heads (s ++ x) lx := by
  cases h with
  | @blank c rest hblank hend =>
    have hlength := blankLength_append_of_lt hlt x
    rw [← hlength, List.cons_append]
    refine .blank hblank fun more hc hmore => ?_
    cases rest with
    | nil =>
      have hone : blankLength [c] = 1 := by simp [blankLength_cons, blankLength, hblank]
      simp [hone] at hlt
    | cons d rest =>
      obtain ⟨rfl, -⟩ := List.cons.inj hmore
      exact hend rest hc rfl
  | lineComment hline =>
    have hlength := lineLength_append_of_lt hlt x
    have hsymbols : runLength isSymbol (s ++ x) ≤ s.length := by
      have := runLength_isSymbol_le_lineLength (s ++ x)
      simp only at hlt
      omega
    have hstarts := startsLineComment_take hsymbols
    rw [List.take_left] at hstarts
    rw [← hlength]
    exact .lineComment (hstarts.symm.trans hline)
  | punctuation hpunctuation =>
    have hmem := punctuation?_mem hpunctuation
    rcases hkind with rfl | rfl <;> simp [punctuationKinds] at hmem
  | @number c rest =>
    have hnumber := numberExtent_kind (c :: rest)
    simp only at hkind
    rcases hkind with hkind | hkind <;> simp [hkind] at hnumber
  | @name c rest =>
    have hname := nameKind_eq ((c :: rest).take (runLength isNameChar (c :: rest)))
    simp only at hkind
    rcases hkind with hkind | hkind <;> simp [hkind] at hname
  | @symbols c rest =>
    have hsymbols := symbolKind_eq ((c :: rest).take (runLength isSymbol (c :: rest)))
    simp only at hkind
    rcases hkind with hkind | hkind <;> simp [hkind] at hsymbols
  | lineFeed | returnLineFeed | blockComment | string | character => simp at hkind

/-- A lexeme that ends before a line feed stands there with any text behind the line feed. -/
theorem append_feed {x : Text} (h : Heads (w ++ '\n' :: x) lx) (hle : lx.length ≤ w.length)
    (y : Text) : Heads (w ++ '\n' :: y) lx := by
  have hline : Heads (w ++ ['\n']) lx := by
    have htake : (w ++ '\n' :: x).take (w.length + 1) = w ++ ['\n'] := by
      rw [List.append_cons, List.take_left' (by simp)]
    rw [← htake]
    refine h.take (by omega) ?_
    rintro ⟨hone, more, hdrop⟩
    have hlength : lx.length = w.length := by omega
    rw [hlength, List.drop_left] at hdrop
    simp at hdrop
  have hstops (more : Text) : Stops ('\n' :: more) := by
    intro c hc
    cases hc
    decide
  by_cases hkind : lx.kind = .blank ∨ lx.kind = .lineComment
  · rw [List.append_cons]
    refine hline.append_of_lt hkind ?_ y
    rw [List.length_append, List.length_singleton]
    omega
  · rw [not_or] at hkind
    exact hline.append_stop hle hkind.1 hkind.2 (hstops []) (hstops y)

/-- An end of line is read with any text behind it. -/
theorem of_newline_append {s : Text} (h : Heads s lx) (hkind : lx.kind = .newline) (y : Text) :
    Heads (s.take lx.length ++ y) lx := by
  obtain ⟨kind, length⟩ := lx
  simp only at hkind
  subst hkind
  rcases h.of_newline rfl with ⟨rest, rfl, hlength⟩ | ⟨rest, rfl, hlength⟩
  · simp only at hlength
    subst hlength
    exact .lineFeed y
  · simp only at hlength
    subst hlength
    exact .returnLineFeed y

end Lexeme.Heads

namespace Reads

variable {c c' : Cursor} {tokens more : List Token} {lx : Lexeme} {w rest : Text}

/-- A lexeme is read first if it stands at the front and the rest is read behind it. -/
theorem cons {p : Position} (h : Lexeme.Heads (w ++ rest) lx) (hlength : lx.length = w.length)
    (hmore : Reads ⟨p.advance w, rest⟩ more c') :
    Reads ⟨p, w ++ rest⟩ (⟨lx.kind, w, p, p.advance w⟩ :: more) c' := by
  have hmove : Cursor.move ⟨p, w ++ rest⟩ lx.length = ⟨p.advance w, rest⟩ := by
    rw [Cursor.move, hlength, List.take_left, List.drop_left]
  have htoken : Cursor.token ⟨p, w ++ rest⟩ lx = ⟨lx.kind, w, p, p.advance w⟩ := by
    rw [Cursor.token, hmove, hlength, List.take_left]
  rw [← htoken]
  exact .step h (hmove ▸ hmore)

/-- The text of whole lines ends with a line feed. -/
theorem exists_feed (h : Reads c tokens c') {t : Token} (ht : tokens.getLast? = some t)
    (hkind : t.kind = .newline) : ∃ z, tokens.flatMap Token.text = z ++ ['\n'] := by
  obtain ⟨front, rfl⟩ := List.getLast?_eq_some_iff.mp ht
  obtain ⟨m, -, hlast⟩ := h.split
  rw [List.flatMap_append, List.flatMap_singleton]
  cases hlast with
  | step hheads _ =>
    rcases Cursor.token_newline hheads hkind with htext | htext
    · exact ⟨front.flatMap Token.text, by rw [htext]⟩
    · exact ⟨front.flatMap Token.text ++ ['\r'], by rw [htext, List.append_assoc]; rfl⟩

/-- Whole lines are read again with any other text behind them. -/
theorem append_lines (h : Reads c tokens c') (hlast : ∀ t ∈ tokens.getLast?, t.kind = .newline)
    (y : Text) : Reads ⟨c.position, tokens.flatMap Token.text ++ y⟩ tokens ⟨c'.position, y⟩ := by
  induction h with
  | refl c => exact .refl _
  | @step c c' lx more hheads hmore ih =>
    have hlength := Cursor.length_token hheads
    rw [List.flatMap_cons, List.append_assoc]
    cases hback : more.getLast? with
    | none =>
      -- the lexeme is the last one, so it is an end of line
      obtain rfl := List.getLast?_eq_none_iff.mp hback
      have hkind : lx.kind = .newline := hlast (c.token lx) (by simp)
      exact .cons (hheads.of_newline_append hkind _) hlength.symm (ih (by simp))
    | some t =>
      have hmore' : ∀ t' ∈ more.getLast?, t'.kind = .newline :=
        fun t' ht' => hlast t' (by rw [List.getLast?_cons, ht']; rfl)
      obtain ⟨z, hz⟩ := hmore.exists_feed hback (hmore' t hback)
      have hbehind : c.rest.drop lx.length = more.flatMap Token.text ++ c'.rest := hmore.rest_eq
      have hrest : c.rest = ((c.token lx).text ++ z) ++ '\n' :: c'.rest := by
        rw [← List.take_append_drop lx.length c.rest, hbehind, hz]
        simp [Cursor.token]
      have hfeed : ((c.token lx).text ++ z) ++ '\n' :: y =
          (c.token lx).text ++ (more.flatMap Token.text ++ y) := by
        simp [hz]
      rw [hrest] at hheads
      refine .cons (hfeed ▸ hheads.append_feed ?_ y) hlength.symm (ih hmore')
      rw [List.length_append, hlength]
      omega

/-- A text is read again where a blank or a line end follows, unless its last token may join it. -/
theorem append_stop (h : Reads c tokens c') (hend : c'.rest = [])
    (hlast : ∀ t ∈ tokens.getLast?, t.kind ≠ .blank ∧ t.kind ≠ .lineComment) {z : Text}
    (hz : Stops z) : Reads ⟨c.position, c.rest ++ z⟩ tokens ⟨c'.position, z⟩ := by
  induction h with
  | refl c =>
    rw [hend]
    exact .refl _
  | @step c c' lx more hheads hmore ih =>
    have hmore' : ∀ t ∈ more.getLast?, t.kind ≠ .blank ∧ t.kind ≠ .lineComment :=
      fun t ht => hlast t (by rw [List.getLast?_cons, ht]; rfl)
    have hfirst : Lexeme.Heads (c.rest ++ z) lx := by
      by_cases hkind : lx.kind = .blank ∨ lx.kind = .lineComment
      · -- another token is behind it, so it ends before the text does
        have hmem : more ≠ [] := by
          rintro rfl
          have := hlast (c.token lx) (by simp)
          rcases hkind with hkind | hkind
          · exact this.1 hkind
          · exact this.2 hkind
        have hlength := hmore.length_le
        have hpos := List.length_pos_iff.mpr hmem
        simp only [Cursor.move, List.length_drop] at hlength
        exact hheads.append_of_lt hkind (by omega) z
      · rw [not_or] at hkind
        have hnil : Lexeme.Heads (c.rest ++ []) lx := by rwa [List.append_nil]
        exact hnil.append_stop hheads.length_le hkind.1 hkind.2 (by simp [Stops]) hz
    have hrest : c.rest ++ z = (c.token lx).text ++ ((c.move lx.length).rest ++ z) := by
      rw [← List.append_assoc]
      exact congrArg (· ++ z) (List.take_append_drop lx.length c.rest).symm
    rw [hrest] at hfirst ⊢
    exact .cons hfirst (Cursor.length_token hheads).symm (ih hend hmore')

end Reads

end OffsideRule
