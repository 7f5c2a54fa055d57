import OffsideRule.Text.Basic

/-! Lines of a text. A line ends at any of the characters that break lines in print, which are
more than the line feed: vertical tab, form feed, carriage return, the separators U+001C to
U+001E, U+0085, U+2028 and U+2029. A carriage return with its line feed is one break. -/

namespace OffsideRule.Text

def isLineBreak (c : Char) : Bool :=
  c = '\n' || c = '\r' || c = '\x0b' || c = '\x0c' || c = '\x1c' || c = '\x1d' || c = '\x1e' ||
    c = '\u0085' || c = '\u2028' || c = '\u2029'

/-- The lines without their breaks. A break at the very end starts no further line. -/
def lines : Text → List Text
  | [] => []
  | '\r' :: '\n' :: rest => [] :: lines rest
  | c :: rest =>
    if isLineBreak c then [] :: lines rest
    else match lines rest with
      | [] => [[c]]
      | line :: more => (c :: line) :: more

theorem lines_pair (rest : Text) : lines ('\r' :: '\n' :: rest) = [] :: lines rest := rfl

theorem lines_cons_break {c : Char} {s : Text} (hc : isLineBreak c = true)
    (hpair : ∀ rest, c = '\r' → s = '\n' :: rest → False) : lines (c :: s) = [] :: lines s := by
  rw [lines.eq_def]
  split
  · contradiction
  · next heq =>
    cases heq
    exact (hpair _ rfl rfl).elim
  · next heq =>
    cases heq
    exact if_pos hc

theorem lines_cons {c : Char} (hc : isLineBreak c = false) (s : Text) :
    lines (c :: s) = (c :: s.lines.headD []) :: s.lines.tail := by
  rw [lines.eq_def]
  split
  · contradiction
  · next heq =>
    cases heq
    contradiction
  · next heq =>
    cases heq
    rw [if_neg (by simp [hc])]
    cases lines s <;> rfl

/-- Induction over a text whose lines are split: a return with its line feed is one break. -/
@[elab_as_elim]
theorem lines_induction {motive : Text → Prop} (nil : motive [])
    (pair : ∀ rest, motive rest → motive ('\r' :: '\n' :: rest))
    (lineBreak : ∀ c rest, isLineBreak c = true →
      (∀ more, c = '\r' → rest = '\n' :: more → False) → motive rest → motive (c :: rest))
    (cons : ∀ c rest, isLineBreak c = false → motive rest → motive (c :: rest)) (s : Text) :
    motive s := by
  induction s using lines.induct with
  | case1 => exact nil
  | case2 rest ih => exact pair rest ih
  | case3 c rest hpair hc ih => exact lineBreak c rest hc hpair ih
  | case4 c rest _ hc _ ih => exact cons c rest (by simpa using hc) ih
  | case5 c rest _ hc _ _ _ ih => exact cons c rest (by simpa using hc) ih

theorem lines_ne_nil {s : Text} (h : s ≠ []) : s.lines ≠ [] := by
  cases s using lines_induction with
  | nil => exact absurd rfl h
  | pair rest => simp [lines_pair]
  | lineBreak c rest hc hpair => simp [lines_cons_break hc hpair]
  | cons c rest hc => simp [lines_cons hc]

/-- A line feed parts the lines before it from those behind it. -/
theorem lines_append (u v : Text) : lines (u ++ '\n' :: v) = lines (u ++ ['\n']) ++ lines v := by
  induction u using lines_induction with
  | nil => rfl
  | pair rest ih => exact congrArg ([] :: ·) ih
  | lineBreak c rest hc hpair ih =>
    cases rest with
    | nil =>
      by_cases hr : c = '\r'
      · subst hr
        rfl
      · rw [List.singleton_append, List.singleton_append,
          lines_cons_break hc (fun _ h => absurd h hr), lines_cons_break hc (fun _ h => absurd h hr)]
        rfl
    | cons d more =>
      have hfront (w : Text) : lines (c :: d :: (more ++ w)) = [] :: lines (d :: (more ++ w)) := by
        refine lines_cons_break hc fun _ h heq => hpair more h ?_
        rw [(List.cons.inj heq).1]
      simp only [List.cons_append, hfront] at ih ⊢
      rw [ih]
  | cons c rest hc ih =>
    have hne : lines (rest ++ ['\n']) ≠ [] := lines_ne_nil (by simp)
    obtain ⟨line, more, hlines⟩ := List.exists_cons_of_ne_nil hne
    rw [List.cons_append, List.cons_append, lines_cons hc, lines_cons hc, ih, hlines]
    rfl

/-- Each line feed ends a line. -/
theorem lineFeeds_le_length_lines (s : Text) : lineFeeds s ≤ s.lines.length := by
  induction s using lines_induction with
  | nil => exact Nat.le_refl _
  | pair rest ih =>
    rw [lines_pair, List.length_cons, lineFeeds, List.count_cons_of_ne (by decide),
      List.count_cons_self]
    exact Nat.succ_le_succ ih
  | lineBreak c rest hc hpair ih =>
    rw [lines_cons_break hc hpair, List.length_cons, lineFeeds, List.count_cons]
    rw [lineFeeds] at ih
    split <;> omega
  | cons c rest hc ih =>
    have hfeed : c ≠ '\n' := by rintro rfl; contradiction
    rw [lines_cons hc, List.length_cons, List.length_tail, lineFeeds, List.count_cons_of_ne hfeed]
    exact Nat.le_trans ih (by omega)

/-- The first line is what stands before the first break. -/
theorem headD_lines (s : Text) : s.lines.headD [] = s.takeWhile fun c => !isLineBreak c := by
  induction s using lines_induction with
  | nil => rfl
  | pair rest ih => rfl
  | lineBreak c rest hc hpair ih =>
    rw [lines_cons_break hc hpair, List.takeWhile_cons_of_neg (by simp [hc])]
    rfl
  | cons c rest hc ih => rw [lines_cons hc, List.takeWhile_cons_of_pos (by simp [hc]), ← ih]; rfl

theorem not_break_of_mem_lines {s line : Text} (hline : line ∈ s.lines) {c : Char} (hc : c ∈ line) :
    isLineBreak c = false := by
  induction s using lines_induction generalizing line c with
  | nil => contradiction
  | pair rest ih =>
    rcases List.mem_cons.mp hline with rfl | hline
    · contradiction
    · exact ih hline hc
  | lineBreak d rest hd hpair ih =>
    rw [lines_cons_break hd hpair] at hline
    rcases List.mem_cons.mp hline with rfl | hline
    · contradiction
    · exact ih hline hc
  | cons d rest hd ih =>
    rw [lines_cons hd] at hline
    rcases List.mem_cons.mp hline with rfl | hline
    · rcases List.mem_cons.mp hc with rfl | hc
      · exact hd
      · cases hrest : lines rest with
        | nil => simp [hrest] at hc
        | cons first more =>
          have hfirst : first ∈ lines rest := by simp [hrest]
          rw [hrest] at hc
          exact ih hfirst hc
    · exact ih (List.mem_of_mem_tail hline) hc

/-- Writes every line end, a carriage return with or without a line feed, as a line feed. -/
def unifyLineEnds : Text → Text
  | [] => []
  | '\r' :: '\n' :: rest => '\n' :: unifyLineEnds rest
  | c :: rest => (if c = '\r' then '\n' else c) :: unifyLineEnds rest

/-- Writes a carriage return with its line feed as a line feed alone. -/
def dropReturns : Text → Text
  | [] => []
  | '\r' :: '\n' :: rest => '\n' :: dropReturns rest
  | c :: rest => c :: dropReturns rest

end OffsideRule.Text
