import Mathlib.Data.List.DropRight
import OffsideRule.Proofs.Lossless

/-! The excerpt in the report on a fault. The number in front of the line counts line feeds, and so
does the column under which the first caret stands; the line itself is looked up among the lines in
print, which end at other characters too. So the line that is shown is that of the fault as long as
nothing but line feeds ends a line up to there. -/

namespace OffsideRule

namespace Text

/-- The lines above that of an offset, where only a line feed ends a line. -/
def above (s : Text) (p : Nat) : Text :=
  (s.take p).rdropWhile (· ≠ '\n')

/-- What stands before an offset on its line. -/
def onLine (s : Text) (p : Nat) : Text :=
  (s.take p).rtakeWhile (· ≠ '\n')

/-- A line without the return at its end. -/
def dropReturn (line : Text) : Text :=
  if line.getLast? = some '\r' then line.dropLast else line

/-- The line of an offset, up to the next line feed or the end of the text. -/
def lineAt (s : Text) (p : Nat) : Text :=
  dropReturn (s.onLine p ++ (s.drop p).takeWhile (· ≠ '\n'))

/-- Up to the end of the line of an offset, nothing but line feeds ends a line. -/
structure FeedsOnly (s : Text) (p : Nat) : Prop where
  above : (s.above p).lines.length = lineFeeds (s.above p)
  line : ∀ c ∈ s.lineAt p, isLineBreak c = false

theorem feedsOnly_iff (s : Text) (p : Nat) :
    s.FeedsOnly p ↔ (s.above p).lines.length = lineFeeds (s.above p) ∧
      ∀ c ∈ s.lineAt p, isLineBreak c = false :=
  ⟨fun h => ⟨h.above, h.line⟩, fun h => ⟨h.1, h.2⟩⟩

instance (s : Text) (p : Nat) : Decidable (s.FeedsOnly p) :=
  -- The characters of the line are gone through, not all that there are.
  have : Decidable (∀ c ∈ s.lineAt p, isLineBreak c = false) := List.decidableBAll _ _
  decidable_of_iff _ (s.feedsOnly_iff p).symm

section

variable {s : Text} {p : Nat}

theorem takeWhile_line {line : Text} (h : '\n' ∉ line) (more : Text) :
    (line ++ '\n' :: more).takeWhile (· ≠ '\n') = line := by
  have hline : ∀ c ∈ line, decide (c ≠ '\n') = true := by
    intro c hc
    simpa using fun heq : c = '\n' => h (heq ▸ hc)
  rw [List.takeWhile_append_of_pos hline, List.takeWhile_cons_of_neg (by decide), List.append_nil]

theorem above_append_onLine (s : Text) (p : Nat) : s.above p ++ s.onLine p = s.take p :=
  List.rdropWhile_append_rtakeWhile

theorem not_mem_onLine : '\n' ∉ s.onLine p := by
  intro h
  simpa using List.mem_rtakeWhile_imp h

theorem lineFeeds_take (s : Text) (p : Nat) : lineFeeds (s.take p) = lineFeeds (s.above p) := by
  rw [← above_append_onLine, lineFeeds, List.count_append, List.count_eq_zero.mpr not_mem_onLine,
    Nat.add_zero, lineFeeds]

/-- The lines above end with a line feed, if there are any. -/
theorem above_ends (s : Text) (p : Nat) : s.above p = [] ∨ ∃ u, s.above p = u ++ ['\n'] := by
  by_cases hnil : s.above p = []
  · exact Or.inl hnil
  · right
    have hlast : (s.above p).getLast hnil = '\n' := by
      simpa [above] using List.rdropWhile_last_not (· ≠ '\n') (s.take p) hnil
    exact ⟨(s.above p).dropLast, by rw [← hlast, List.dropLast_append_getLast]⟩

/-- The line of an offset begins behind the lines above, in print as well. -/
theorem lines_above (s : Text) (p : Nat) :
    s.lines = (s.above p).lines ++ (s.onLine p ++ s.drop p).lines := by
  have hsplit : s = s.above p ++ (s.onLine p ++ s.drop p) := by
    rw [← List.append_assoc, above_append_onLine, List.take_append_drop]
  rcases s.above_ends p with hnil | ⟨u, hu⟩
  · rw [hnil] at hsplit ⊢
    conv_lhs => rw [hsplit]
    rfl
  · rw [hu] at hsplit ⊢
    conv_lhs => rw [hsplit]
    rw [List.append_assoc, List.singleton_append, lines_append]

/-- A line feed is a break, so it makes no difference to cut the text off there before. -/
theorem takeWhile_feed (s : Text) :
    (s.takeWhile (· ≠ '\n')).takeWhile (fun c => !isLineBreak c) =
      s.takeWhile fun c => !isLineBreak c := by
  rw [List.takeWhile_takeWhile]
  congr 1
  funext c
  by_cases hc : c = '\n'
  · subst hc
    rfl
  · simp [hc]

/-- The line in print that begins with the line of an offset ends at the first break. -/
theorem headD_lines_onLine (s : Text) (p : Nat) :
    (s.onLine p ++ s.drop p).lines.headD [] =
      (s.onLine p ++ (s.drop p).takeWhile (· ≠ '\n')).takeWhile fun c => !isLineBreak c := by
  have hcut : (s.onLine p ++ s.drop p).takeWhile (· ≠ '\n') =
      s.onLine p ++ (s.drop p).takeWhile (· ≠ '\n') :=
    List.takeWhile_append_of_pos fun c hc => by simpa using fun h => not_mem_onLine (h ▸ hc)
  rw [headD_lines, ← takeWhile_feed, hcut]

theorem takeWhile_dropReturn (line : Text) :
    (dropReturn line).takeWhile (fun c => !isLineBreak c) =
      line.takeWhile fun c => !isLineBreak c := by
  unfold dropReturn
  split
  · next hlast =>
    obtain ⟨front, rfl⟩ := List.getLast?_eq_some_iff.mp hlast
    rw [List.dropLast_concat, List.takeWhile_append]
    split
    · next hall =>
      rw [(List.takeWhile_prefix _).eq_of_length hall, List.takeWhile_cons_of_neg (by decide),
        List.append_nil]
    · rfl
  · rfl

/-- The line in print that has as many lines before it as there are line feeds before an offset. -/
def countedLine (s : Text) (p : Nat) : Text :=
  (s.lines[lineFeeds (s.take p)]?).getD []

/-- If every line above ends with a line feed, the line that is counted out is that of the offset,
up to its first break. -/
theorem countedLine_of_above (h : (s.above p).lines.length = lineFeeds (s.above p)) :
    s.countedLine p = (s.lineAt p).takeWhile fun c => !isLineBreak c := by
  rw [lineAt, takeWhile_dropReturn, ← headD_lines_onLine, countedLine, lines_above s p,
    lineFeeds_take, ← h, List.getElem?_append_right (Nat.le_refl _), Nat.sub_self]
  cases (s.onLine p ++ s.drop p).lines <;> rfl

/-- If a line above ends otherwise, the line that is counted out lies above. -/
theorem countedLine_mem_above (h : (s.above p).lines.length ≠ lineFeeds (s.above p)) :
    s.countedLine p ∈ (s.above p).lines := by
  have hlt : lineFeeds (s.above p) < (s.above p).lines.length :=
    Nat.lt_of_le_of_ne (lineFeeds_le_length_lines _) (Ne.symm h)
  rw [countedLine, lines_above s p, lineFeeds_take, List.getElem?_append_left hlt,
    List.getElem?_eq_getElem hlt]
  exact List.getElem_mem hlt

theorem not_mem_countedLine : '\n' ∉ s.countedLine p := by
  intro h
  rw [countedLine] at h
  cases hline : s.lines[lineFeeds (s.take p)]? with
  | none => simp [hline] at h
  | some line =>
    rw [hline, Option.getD_some] at h
    have := not_break_of_mem_lines (List.mem_of_getElem? hline) h
    contradiction

theorem FeedsOnly.countedLine_eq (h : s.FeedsOnly p) : s.countedLine p = s.lineAt p := by
  rw [countedLine_of_above h.above]
  exact List.takeWhile_eq_self_iff.mpr fun c hc => by simpa using h.line c hc

/-- Otherwise the line that is counted out lies above, or breaks off within that of the offset. -/
theorem countedLine_of_not_feedsOnly (h : ¬ s.FeedsOnly p) :
    s.countedLine p ∈ (s.above p).lines ∨
      ∃ c more, s.lineAt p = s.countedLine p ++ c :: more ∧ isLineBreak c = true := by
  by_cases habove : (s.above p).lines.length = lineFeeds (s.above p)
  · right
    rw [countedLine_of_above habove]
    have hsplit := List.takeWhile_append_dropWhile (p := fun c => !isLineBreak c) (l := s.lineAt p)
    cases hrest : (s.lineAt p).dropWhile fun c => !isLineBreak c with
    | nil =>
      refine absurd ⟨habove, fun c hc => ?_⟩ h
      simpa using List.dropWhile_eq_nil_iff.mp hrest c hc
    | cons c more =>
      have hc := List.head?_dropWhile_not (fun c => !isLineBreak c) (s.lineAt p)
      rw [hrest] at hsplit hc
      exact ⟨c, more, hsplit.symm, by simpa using hc⟩
  · exact Or.inl (countedLine_mem_above habove)

/-- A character that ends no line stands on its line behind what is before it. -/
theorem exists_lineAt {c : Char} {rest : Text} (hdrop : s.drop p = c :: rest) (hfeed : c ≠ '\n')
    (hreturn : c ≠ '\r') : ∃ more, s.lineAt p = s.onLine p ++ c :: more := by
  rw [lineAt, hdrop, List.takeWhile_cons_of_pos (by simpa using hfeed), dropReturn]
  split
  · next hlast =>
    cases hmore : rest.takeWhile (· ≠ '\n') with
    | nil =>
      rw [hmore, List.getLast?_concat, Option.some.injEq] at hlast
      exact absurd hlast hreturn
    | cons d more => exact ⟨(d :: more).dropLast, by simp⟩
  · exact ⟨_, rfl⟩

end

end Text

namespace Fault

/-- A report shows a line of the source behind its number, and carets below. The first caret stands
under the character `i` of the line. -/
structure Points (f : Fault) (file : String) (number : Nat) (line : Text) (i : Nat) : Prop where
  layout : ∃ (blanks : String) (carets : Nat),
    f.report file = "error: " ++ f.message ++ "\n" ++
      String.ofList (List.replicate ((toString number).length + 1) ' ') ++ "--> " ++ file ++ ":" ++
      toString number ++ ":" ++ toString (i + 1) ++ "\n" ++
      String.ofList (List.replicate ((toString number).length + 1) ' ') ++ "|\n" ++
      (toString number ++ " | " ++ String.ofList line) ++ "\n" ++
      (blanks ++ String.ofList (List.replicate carets '^')) ∧
    blanks.length = (toString number ++ " | ").length + i ∧ '^' ∉ blanks.toList ∧ 0 < carets
  single : '\n' ∉ line

variable {f : Fault} {number i : Nat} {line : Text}

theorem points_of_excerpt (h : f.excerpt = ⟨f.message, number, (i + 1 : Nat), line⟩)
    (hsingle : '\n' ∉ line) (file : String) : f.Points file number line i := by
  have hblank : (((i + 1 : Nat) : Int) - 1).toNat = i := by omega
  have hnumber : toString (number : Int) = toString number := rfl
  have hcolumn : toString ((i + 1 : Nat) : Int) = toString (i + 1) := rfl
  have hcarets : 0 < f.excerpt.carets := by
    rw [Excerpt.carets]
    omega
  refine ⟨⟨String.ofList (List.replicate ((toString number).length + 1) ' ') ++ "| " ++
    String.ofList (List.replicate i ' '), f.excerpt.carets, ?_, ?_, ?_, hcarets⟩, hsingle⟩
  · rw [report, h]
    unfold Excerpt.render
    rw [hblank, hnumber, hcolumn]
    simp only [String.append_assoc]
  · simp only [String.length_append, String.length_ofList, List.length_replicate]
    have : " | ".length = 3 := by decide
    have : "| ".length = 2 := by decide
    omega
  · simp

/-- A report shows one line. -/
theorem Points.line_eq {file : String} {line' : Text} (h : f.Points file number line i)
    (h' : f.Points file number line' i) : line = line' := by
  obtain ⟨blanks, carets, hlayout, -⟩ := h.layout
  obtain ⟨blanks', carets', hlayout', -⟩ := h'.layout
  rw [hlayout] at hlayout'
  simp only [String.append_assoc, String.append_right_inj] at hlayout'
  have hlist (l : Text) (more : String) :
      (String.ofList l ++ ("\n" ++ more)).toList = l ++ '\n' :: more.toList := by
    simp
  have htail := congrArg (fun s => s.toList.takeWhile (· ≠ '\n')) hlayout'
  simp only [hlist] at htail
  rwa [Text.takeWhile_line h.single, Text.takeWhile_line h'.single] at htail

end Fault

/-- A report counts the lines above by their line feeds, and shows the line with that number among
the lines in print. -/
theorem points_countedLine {source : Text} {f : Fault} (h : tokenize source = .error f)
    (file : String) :
    f.Points file (1 + Text.lineFeeds (source.take f.position.offset))
      (source.countedLine f.position.offset) (source.onLine f.position.offset).length := by
  obtain ⟨front, c, o, hreads, herror, rfl⟩ := exists_reads_of_fault h
  have htake : source.take c.position.offset = front.flatMap Token.text := by
    have hsource : source = front.flatMap Token.text ++ c.rest := hreads.rest_eq
    rw [hreads.offset_eq, hsource, List.take_left]
  have hcolumn : c.position.column = (source.onLine c.position.offset).length + 1 := by
    have hposition : c.position = Position.origin.advance (front.flatMap Token.text) :=
      hreads.position_eq
    rw [Text.onLine, htake, List.rtakeWhile, List.length_reverse, hposition,
      Position.column_advance_origin]
  have hcount (n : Nat) : (((1 + n : Nat) : Int) - 1).toNat = n := by omega
  refine Fault.points_of_excerpt ?_ Text.not_mem_countedLine file
  rw [Fault.excerpt, Excerpt.ofSource, hreads.line_eq, hcolumn, if_pos (by omega), hcount]
  rfl

/-- The fault of a source lies at a character that is no line end. -/
theorem fault_character {source : Text} {f : Fault} (h : tokenize source = .error f) :
    ∃ c rest, source.drop f.position.offset = c :: rest ∧ c ≠ '\n' ∧ c ≠ '\r' := by
  obtain ⟨front, c, o, hreads, herror, rfl⟩ := exists_reads_of_fault h
  rw [← hreads.rest_eq_drop]
  cases hrest : c.rest with
  | nil =>
    rw [hrest] at herror
    contradiction
  | cons x more =>
    rw [hrest] at herror
    refine ⟨x, more, rfl, ?_, ?_⟩
    · rintro rfl
      contradiction
    · rintro rfl
      by_cases hpair : ∃ behind, more = '\n' :: behind
      · obtain ⟨behind, rfl⟩ := hpair
        contradiction
      · rw [Lexeme.read_of_blank (Or.inr rfl) fun behind _ h => hpair ⟨behind, h⟩] at herror
        contradiction

/-- The report on a fault has the number of its line and points at the column of its character. It
shows the line itself if nothing but line feeds ends a line up to there, otherwise a line above or
the front of the line up to a break. -/
theorem report_points {source : Text} {f : Fault} (h : tokenize source = .error f) :
    ∃ shown : Text,
      (∀ file, f.Points file (1 + Text.lineFeeds (source.take f.position.offset)) shown
        (source.onLine f.position.offset).length) ∧
      (∃ c, source[f.position.offset]? = some c ∧
        (source.lineAt f.position.offset)[(source.onLine f.position.offset).length]? = some c) ∧
      (source.FeedsOnly f.position.offset → shown = source.lineAt f.position.offset) ∧
      (¬ source.FeedsOnly f.position.offset →
        shown ∈ (source.above f.position.offset).lines ∨ ∃ c more,
          source.lineAt f.position.offset = shown ++ c :: more ∧ Text.isLineBreak c = true) := by
  obtain ⟨c, rest, hdrop, hfeed, hreturn⟩ := fault_character h
  obtain ⟨more, hline⟩ := Text.exists_lineAt hdrop hfeed hreturn
  refine ⟨_, points_countedLine h, ⟨c, ?_, ?_⟩, Text.FeedsOnly.countedLine_eq,
    Text.countedLine_of_not_feedsOnly⟩
  · rw [← List.head?_drop, hdrop, List.head?_cons]
  · simp [hline]

/-- Two lines that end with a return and a line feed, and a string that is open on the second. -/
def returned : Text :=
  "x\r\ny = \"a\r\n".toList

theorem report_points_returned :
    ∃ f, tokenize returned = .error f ∧ returned.FeedsOnly f.position.offset ∧
      f.Points "a.hs" 2 "y = \"a".toList 4 := by
  have hproblem : (Pass.run (.start returned)).problem = some (.openString, ⟨2, 5, 7⟩) := by
    decide +kernel
  have h : tokenize returned = .error ⟨.openString, ⟨2, 5, 7⟩, returned⟩ := by
    simp only [tokenize, hproblem]
  have hfeeds : returned.FeedsOnly 7 := by decide +kernel
  have hlineAt : returned.lineAt 7 = "y = \"a".toList := by decide +kernel
  obtain ⟨shown, hpoints, -, hshown, -⟩ := report_points h
  have hline : shown = "y = \"a".toList := (hshown hfeeds).trans hlineAt
  exact ⟨_, h, hfeeds, hline ▸ hpoints "a.hs"⟩

/-- A page break above the line on which a string is open. -/
def pageBreak : Text :=
  "\x0c\nx = \"abc".toList

/-- Below a page break the line above is shown in place of that of the fault. -/
theorem not_points_lineAt :
    ¬ ∀ (source : Text) (f : Fault), tokenize source = .error f → ∀ file,
      f.Points file (1 + Text.lineFeeds (source.take f.position.offset))
        (source.lineAt f.position.offset) (source.onLine f.position.offset).length := by
  intro hall
  have hproblem : (Pass.run (.start pageBreak)).problem = some (.openString, ⟨2, 5, 6⟩) := by
    decide +kernel
  have h : tokenize pageBreak = .error ⟨.openString, ⟨2, 5, 6⟩, pageBreak⟩ := by
    simp only [tokenize, hproblem]
  have hdiffers : pageBreak.countedLine 6 ≠ pageBreak.lineAt 6 := by decide +kernel
  exact hdiffers ((points_countedLine h "a.hs").line_eq (hall pageBreak _ h "a.hs"))

end OffsideRule
