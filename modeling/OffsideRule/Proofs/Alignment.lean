import Mathlib.Data.Set.Insert
import OffsideRule.Proofs.Sources

/-! Aligned states. Two resolutions that take code of equal kinds, in columns of equal order, add
the same delimiters and hold the same blocks up to the change of columns. Each operation keeps
this. -/

namespace OffsideRule.Layout

/-- What a token contributes to the structure of a stream: its kind, and whether layout added it. -/
def Token.mark (t : Token) : Option Kind × Bool :=
  (t.kind, t.virtual)

/-- `f` is strictly increasing on some columns. -/
def Increasing (f : Int → Int) (columns : Set Int) : Prop :=
  ∀ x ∈ columns, ∀ y ∈ columns, x < y → f x < f y

/-- `f` carries columns to columns in the same order, and the outermost block to itself. -/
structure Carries (f : Int → Int) (columns : Set Int) : Prop where
  increasing : Increasing f columns
  topLevel_mem : topLevel ∈ columns
  topLevel_eq : f topLevel = topLevel

namespace Carries

variable {f : Int → Int} {known : Set Int} {column : Int} {columns : List Int}

theorem lt_iff {x y : Int} (h : Carries f known) (hx : x ∈ known) (hy : y ∈ known) :
    f x < f y ↔ x < y := by
  constructor
  · intro hlt
    by_contra hle
    rcases Int.lt_or_eq_of_le (Int.not_lt.mp hle) with hyx | rfl
    · have := h.increasing y hy x hx hyx
      omega
    · exact Int.lt_irrefl _ hlt
  · exact h.increasing x hx y hy

theorem eq_iff {x y : Int} (h : Carries f known) (hx : x ∈ known) (hy : y ∈ known) :
    f x = f y ↔ x = y := by
  have hxy := h.lt_iff hx hy
  have hyx := h.lt_iff hy hx
  omega

theorem topLevel_lt_iff (h : Carries f known) (hcolumn : column ∈ known) :
    topLevel < f column ↔ topLevel < column := by
  have := h.lt_iff h.topLevel_mem hcolumn
  rwa [h.topLevel_eq] at this

theorem headD_mem (h : Carries f known) (hcolumns : ∀ x ∈ columns, x ∈ known) :
    columns.headD topLevel ∈ known := by
  cases columns with
  | nil => exact h.topLevel_mem
  | cons block outer => exact hcolumns block (by simp)

theorem headD_map (h : Carries f known) :
    (columns.map f).headD topLevel = f (columns.headD topLevel) := by
  cases columns with
  | nil => exact h.topLevel_eq.symm
  | cons block outer => rfl

/-- A line closes corresponding blocks. -/
theorem dedent (h : Carries f known) (hcolumn : column ∈ known)
    (hcolumns : ∀ x ∈ columns, x ∈ known) :
    (columns.map f).takeWhile (f column < ·) = (columns.takeWhile (column < ·)).map f ∧
      (columns.map f).dropWhile (f column < ·) = (columns.dropWhile (column < ·)).map f := by
  induction columns with
  | nil => simp
  | cons block outer ih =>
    have hlt := h.lt_iff hcolumn (hcolumns block (by simp))
    obtain ⟨htake, hdrop⟩ := ih fun x hx => hcolumns x (by simp [hx])
    simp only [List.map_cons, List.takeWhile_cons, List.dropWhile_cons, hlt]
    by_cases hblock : column < block
    · simp [hblock, htake, hdrop]
    · simp [hblock]

end Carries

/-- The code and delimiters of both outputs are the same, and `f` carries the blocks of the first
state, which lie in known columns, to those of the second. -/
structure Aligned (f : Int → Int) (known : Set Int) (s₁ s₂ : State) : Prop where
  marks : s₁.codes.map Token.mark = s₂.codes.map Token.mark
  blocks : s₂.blocks.columns = s₁.blocks.columns.map f
  known : ∀ column ∈ s₁.blocks.columns, column ∈ known

namespace Aligned

variable {c : Config} {f : Int → Int} {known : Set Int} {s₁ s₂ s₁' s₂' : State} {t₁ t₂ : Token}

theorem peek_mem (hf : Carries f known) (h : Aligned f known s₁ s₂) : s₁.blocks.peek ∈ known :=
  hf.headD_mem h.known

theorem peek_eq (hf : Carries f known) (h : Aligned f known s₁ s₂) :
    s₂.blocks.peek = f s₁.blocks.peek := by
  rw [Blocks.peek, h.blocks, hf.headD_map]
  rfl

/-- Both states compare code in corresponding columns with their innermost blocks alike. -/
theorem peek_lt_iff (hf : Carries f known) (h : Aligned f known s₁ s₂)
    (hknown : t₁.column ∈ known) (hcolumn : t₂.column = f t₁.column) :
    s₂.blocks.peek < t₂.column ↔ s₁.blocks.peek < t₁.column := by
  rw [h.peek_eq hf, hcolumn]
  exact hf.lt_iff (h.peek_mem hf) hknown

theorem of_eq (hcodes₁ : s₁'.codes = s₁.codes) (hblocks₁ : s₁'.blocks = s₁.blocks)
    (hcodes₂ : s₂'.codes = s₂.codes) (hblocks₂ : s₂'.blocks = s₂.blocks)
    (h : Aligned f known s₁ s₂) : Aligned f known s₁' s₂' where
  marks := by rw [hcodes₁, hcodes₂, h.marks]
  blocks := by rw [hblocks₁, hblocks₂, h.blocks]
  known := by rw [hblocks₁]; exact h.known

theorem await (h : Aligned f known s₁ s₂) : Aligned f known (s₁.await c t₁) (s₂.await c t₂) :=
  h.of_eq (by rw [State.codes, State.await_output, State.codes]) (s₁.await_blocks c t₁)
    (by rw [State.codes, State.await_output, State.codes]) (s₂.await_blocks c t₂)

theorem emit (hcode₁ : t₁.code = true) (hcode₂ : t₂.code = true) (hmark : t₁.mark = t₂.mark)
    (h : Aligned f known s₁ s₂) : Aligned f known (s₁.emit t₁) (s₂.emit t₂) where
  marks := by
    rw [State.codes_emit, State.codes_emit, if_pos hcode₁, if_pos hcode₂, List.map_cons,
      List.map_cons, hmark, h.marks]
  blocks := h.blocks
  known := h.known

theorem openBlock (hcode₁ : t₁.code = true) (hcode₂ : t₂.code = true) (hmark : t₁.mark = t₂.mark)
    (hknown : t₁.column ∈ known) (hcolumn : t₂.column = f t₁.column) (h : Aligned f known s₁ s₂) :
    Aligned f known (s₁.openBlock c t₁) (s₂.openBlock c t₂) where
  marks := by
    have hcodes {s : State} {t : Token} (hcode : t.code = true) :
        (s.openBlock c t).codes = t :: Token.before c.openKind t :: s.codes := by
      rw [State.codes, State.openBlock_output, List.filter_cons_of_pos hcode,
        List.filter_cons_of_pos rfl, State.codes]
    rw [hcodes hcode₁, hcodes hcode₂, List.map_cons, List.map_cons, List.map_cons, List.map_cons,
      hmark, h.marks]
    rfl
  blocks := by
    rw [State.openBlock_blocks, State.openBlock_blocks, Blocks.push, Blocks.push, h.blocks, hcolumn]
    rfl
  known := by
    rw [State.openBlock_blocks, Blocks.push]
    intro column hmem
    rcases List.mem_cons.mp hmem with rfl | hmem
    · exact hknown
    · exact h.known column hmem

theorem startLine (hf : Carries f known) (hknown : t₁.column ∈ known)
    (hcolumn : t₂.column = f t₁.column) (h : Aligned f known s₁ s₂) :
    Aligned f known (s₁.startLine c t₁) (s₂.startLine c t₂) := by
  obtain ⟨hclosed, hremaining⟩ := hf.dedent hknown h.known
  rw [← h.blocks, ← hcolumn] at hclosed hremaining
  have hkeep : ∀ column ∈ s₁.blocks.columns.dropWhile (t₁.column < ·), column ∈ known :=
    fun column hmem => h.known column ((List.dropWhile_sublist _).subset hmem)
  have hseparates :
      (s₁.blocks.dedent t₁.column).separates = (s₂.blocks.dedent t₂.column).separates := by
    rw [Bool.eq_iff_iff, Blocks.dedent_separates, Blocks.dedent_separates, Blocks.dedent_remaining,
      Blocks.dedent_remaining, Blocks.peek, Blocks.peek, hremaining, hf.headD_map, hcolumn]
    exact (hf.eq_iff (hf.headD_mem hkeep) hknown).symm
  refine ⟨?_, ?_, ?_⟩
  · have hmarks (s : State) (t : Token) : (s.delimiters c t).map Token.mark =
        (if (s.blocks.dedent t.column).separates then [(some c.separatorKind, true)] else []) ++
          List.replicate (s.blocks.dedent t.column).closed.length (some c.closeKind, true) := by
      rw [State.delimiters, List.map_append, List.map_map]
      congr 1
      · split <;> rfl
      · exact List.map_const'
    rw [State.codes_startLine, State.codes_startLine, List.map_append, List.map_append, h.marks,
      hmarks, hmarks, hseparates, Blocks.dedent_closed, Blocks.dedent_closed, hclosed,
      List.length_map]
  · rw [State.startLine_blocks, State.startLine_blocks, Blocks.dedent_remaining,
      Blocks.dedent_remaining, hremaining]
  · rw [State.startLine_blocks, Blocks.dedent_remaining]
    exact hkeep

theorem started (hf : Carries f known) (hknown : t₁.column ∈ known)
    (hcolumn : t₂.column = f t₁.column) (atMargin : Bool) (h : Aligned f known s₁ s₂) :
    Aligned f known (s₁.started c t₁ atMargin) (s₂.started c t₂ atMargin) := by
  cases atMargin with
  | false => exact h.await
  | true => exact h.await.startLine hf hknown hcolumn

theorem closeLet (hends : s₁.endsBinding c t₁ = s₂.endsBinding c t₂) (h : Aligned f known s₁ s₂) :
    Aligned f known (s₁.closeLet c t₁) (s₂.closeLet c t₂) := by
  refine ⟨?_, ?_, ?_⟩
  · rw [State.codes_closeLet, State.codes_closeLet, ← hends]
    split
    · rw [List.map_cons, List.map_cons, h.marks]
      rfl
    · exact h.marks
  · rw [State.closeLet_blocks, State.closeLet_blocks, ← hends]
    split
    · rw [Blocks.pop, Blocks.pop, h.blocks, List.map_tail]
    · exact h.blocks
  · rw [State.closeLet_blocks]
    split
    · exact fun column hmem => h.known column (List.mem_of_mem_tail hmem)
    · exact h.known

end Aligned

end OffsideRule.Layout
