import OffsideRule.Log
import OffsideRule.Text.Quoted

/-! What layout resolution reports: warnings about blocks it gave up, and the decisions it logs. -/

namespace OffsideRule.Layout

structure Warning where
  message : String
  start : Int
  stop : Int
  deriving DecidableEq, Repr

inductive Event
  | opened (column start : Int)
  | abandoned (keyword : String) (start : Int)
  | closed (column offset : Int)
  | closedLet (column : Int)
  | resolved (taken emitted givenUp depth : Nat)
  deriving DecidableEq, Repr

namespace Event

def message : Event → String
  | opened column start =>
    "opened block at column " ++ toString column ++ " (offset " ++ toString start ++ ")"
  | abandoned keyword start =>
    "abandoned block after " ++ quoted keyword ++ " at offset " ++ toString start
  | closed column offset =>
    "closed block at column " ++ toString column ++ " (offset " ++ toString offset ++ ")"
  | closedLet column => "closed single-line let block at column " ++ toString column
  | resolved taken emitted givenUp depth =>
    "resolved " ++ toString taken ++ " tokens into " ++ toString emitted ++ " (" ++
      toString givenUp ++ " abandoned blocks, stack depth " ++ toString depth ++ " at EOF)"

/-- The event as the log shows it. -/
def entry (e : Event) : String :=
  record "layout" e.message

end Event

end OffsideRule.Layout
