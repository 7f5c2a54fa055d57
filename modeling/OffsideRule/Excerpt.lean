import OffsideRule.Index
import OffsideRule.Text.Lines

/-! The excerpt that accompanies an error: the source line it happened on, with carets under the
place. -/

namespace OffsideRule

structure Excerpt where
  message : String
  line : Int
  column : Int
  /-- The text of the line, empty if the source has no such line. -/
  text : Text
  deriving Repr

namespace Excerpt

def ofSource (message : String) (line column : Int) (source : Text) : Excerpt where
  message
  line
  column
  text := if 1 ≤ line then (source.lines[(line - 1).toNat]?).getD [] else []

/-- At least one caret, at most two, and never past the end of the line but for the first. -/
def carets (e : Excerpt) : Nat :=
  (max 1 (min 2 (e.text.length - e.column + 1))).toNat

def render (e : Excerpt) (file : String) : String :=
  let number := toString e.line
  let margin := String.ofList (List.replicate (number.length + 1) ' ')
  "error: " ++ e.message ++ "\n" ++
    margin ++ "--> " ++ file ++ ":" ++ number ++ ":" ++ toString e.column ++ "\n" ++
    margin ++ "|\n" ++
    number ++ " | " ++ String.ofList e.text ++ "\n" ++
    margin ++ "| " ++ String.ofList (List.replicate (e.column - 1).toNat ' ') ++
    String.ofList (List.replicate e.carets '^')

/-- Why an excerpt for a column that lies in no source is not laid out. -/
inductive Overrun
  /-- The columns before the carets are not even a number of columns. -/
  | noIndex
  /-- The columns before the carets are too many to be held. -/
  | tooWide
  deriving DecidableEq, Repr

def Overrun.message : Overrun → String
  | noIndex => noIndexMessage
  | tooWide => ""

/-- The most columns that are laid out before the carets. -/
def maxWidth : Int := 0x10000000

/-- Renders an excerpt for any column. -/
def print (e : Excerpt) (file : String) : Except Overrun String :=
  if !isIndex (e.column - 1) then .error .noIndex
  else if maxWidth < e.column - 1 then .error .tooWide
  else .ok (e.render file)

end Excerpt

end OffsideRule
