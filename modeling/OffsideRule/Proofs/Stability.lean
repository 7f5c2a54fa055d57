import Mathlib.Data.List.DropRight
import OffsideRule.Proofs.Steps

/-! Later text does not change earlier layout. Resolution does put delimiters into what it has put
out before, but never before code that stands there: whatever follows, the output up to its last
code stays in front, and the warnings stay the first ones. -/

namespace OffsideRule.Layout

/-- An output, oldest token first, up to its last code. Delimiters are code. -/
def upToCode (output : List Token) : List Token :=
  output.rdropWhile (!·.code)

theorem upToCode_reverse (output : List Token) :
    upToCode output.reverse = (output.dropWhile (!·.code)).reverse := by
  rw [upToCode, List.rdropWhile, List.reverse_reverse]

namespace State

variable {c : Config} {m : Margins} {s s' : State} {tokens : List Token}

/-- Without code nothing has to stay; otherwise what has to stay ends with code. -/
theorem run_keeps_code (h : s.run c m tokens = .ok s') :
    s.output.dropWhile (!·.code) <:+ s'.output := by
  cases hkept : s.output.dropWhile (!·.code) with
  | nil => exact List.nil_suffix
  | cons u older =>
    have hcode : u.code = true := by
      have hhead := List.head?_dropWhile_not (!·.code) s.output
      rw [hkept] at hhead
      simpa using hhead
    apply run_suffix_output h hcode
    rw [← hkept]
    exact List.dropWhile_suffix _

theorem finish_keeps (c : Config) (s : State) (atEnd : Token) :
    s.output <:+ (s.finish c atEnd).output := by
  obtain ⟨added, houtput, -⟩ := s.finish_added c atEnd
  rw [houtput]
  exact (List.suffix_append added s.output).trans (List.suffix_cons atEnd _)

end State

/-- Whatever comes behind tokens without an end of the input, their output up to its last code is at
the front of the whole output, and their warnings are the first of all. -/
theorem resolve_extends (c : Config) (m : Margins) (xs ys : List Token)
    (hopen : ∀ t ∈ xs, t.isEnd = false)
    (hcode : ∀ t ∈ xs ++ ys, t.code = true → -1 ≤ t.column ∧ m.Covers t.line) :
    ∃ s r, State.initial.run c m xs = .ok s ∧ resolve c m (xs ++ ys) = .ok r ∧
      upToCode s.output.reverse <+: r.tokens ∧ s.warnings.reverse <+: r.warnings := by
  obtain ⟨s', r, hrun, hresolve, hr⟩ := resolve_run c fun t ht hcodes => (hcode t ht hcodes).2
  rw [List.takeWhile_append_of_pos fun t ht => by simp [hopen t ht]] at hrun
  obtain ⟨s, hs, hlater⟩ := State.run_append_ok hrun
  have houtput := State.run_keeps_code hlater
  have hwarnings := State.run_suffix_warnings hlater
  refine ⟨s, r, hs, hresolve, ?_⟩
  rw [upToCode_reverse]
  rcases hr with ⟨-, rfl⟩ | ⟨atEnd, -, rfl⟩
  · exact ⟨List.reverse_prefix.mpr houtput, List.reverse_prefix.mpr hwarnings⟩
  · exact ⟨List.reverse_prefix.mpr (houtput.trans (s'.finish_keeps c atEnd)),
      List.reverse_prefix.mpr hwarnings⟩

/-- Three lines of a block, of which the second holds no more than an opener. -/
def threeLines : List Token :=
  [⟨some (.keyword .doK), 0, 2, 0, 0, true, false⟩, ⟨some .variableId, 3, 4, 3, 0, true, false⟩,
    ⟨some .newline, 4, 5, 4, 0, false, false⟩, ⟨some (.keyword .doK), 8, 10, 3, 1, true, false⟩,
    ⟨some .newline, 10, 11, 5, 1, false, false⟩, ⟨some .variableId, 14, 15, 3, 2, true, false⟩,
    ⟨some .newline, 15, 16, 4, 2, false, false⟩]

/-- A line left of the block. -/
def leftLine : List Token :=
  [⟨some .variableId, 16, 17, 0, 3, true, false⟩, ⟨none, 17, 17, 1, 3, false, false⟩]

/-- The line on the left closes the block before the last end of line, so that not all of the output
stays in front. -/
theorem resolve_extends_leftLine : ∃ s r,
    State.initial.run .haskell ⟨#[some 0, some 3, some 3, some 0]⟩ threeLines = .ok s ∧
    resolve .haskell ⟨#[some 0, some 3, some 3, some 0]⟩ (threeLines ++ leftLine) = .ok r ∧
    upToCode s.output.reverse <+: r.tokens ∧ s.warnings.reverse <+: r.warnings ∧
    ¬ s.output.reverse <+: r.tokens ∧ s.warnings.length = 1 := by
  obtain ⟨s, r, hs, hr, houtput, hwarnings⟩ := resolve_extends .haskell
    ⟨#[some 0, some 3, some 3, some 0]⟩ threeLines leftLine (by decide) (by decide)
  refine ⟨s, r, hs, hr, houtput, hwarnings, ?_⟩
  cases hs
  cases hr
  decide

end OffsideRule.Layout
