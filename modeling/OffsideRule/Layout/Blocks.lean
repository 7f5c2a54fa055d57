/-! The columns of the open blocks, innermost first. Where no block is open, the innermost column
is that of the block around the whole source. -/

namespace OffsideRule.Layout

/-- Column of the block around the whole source, left of every token. -/
def topLevel : Int := -1

structure Blocks where
  columns : List Int
  deriving DecidableEq, Repr

namespace Blocks

def empty : Blocks := ⟨[]⟩

def push (b : Blocks) (column : Int) : Blocks :=
  ⟨column :: b.columns⟩

def peek (b : Blocks) : Int :=
  b.columns.headD topLevel

def pop (b : Blocks) : Blocks :=
  ⟨b.columns.tail⟩

def depth (b : Blocks) : Nat :=
  b.columns.length

/-- How the first code of a line stands to a block: it begins the block's next item, it lies left
of the block and closes it, or it continues the current item. -/
inductive Relation
  | nextItem
  | outside
  | continuation
  deriving DecidableEq, Repr

def relation (column block : Int) : Relation :=
  if column = block then .nextItem
  else if column < block then .outside
  else .continuation

/-- What a line does to the open blocks: the columns of the blocks it closes, innermost first,
whether it then begins an item, and the blocks that stay open. -/
structure Dedent where
  closed : List Int
  separates : Bool
  remaining : Blocks
  deriving DecidableEq, Repr

/-- Compares the column of a line's first code with one block after the other. -/
def dedentColumns (column : Int) : List Int → Dedent
  | [] => ⟨[], relation column topLevel = .nextItem, ⟨[]⟩⟩
  | block :: outer =>
    match relation column block with
    | .nextItem => ⟨[], true, ⟨block :: outer⟩⟩
    | .continuation => ⟨[], false, ⟨block :: outer⟩⟩
    | .outside =>
      let d := dedentColumns column outer
      { d with closed := block :: d.closed }

def dedent (b : Blocks) (column : Int) : Dedent :=
  dedentColumns column b.columns

end Blocks

end OffsideRule.Layout
