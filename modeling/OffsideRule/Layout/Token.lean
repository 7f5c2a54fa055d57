import OffsideRule.Kind

/-! Tokens as layout sees them: where they stand in the buffer, in which column, and on which line.
Lines are numbered from zero and end with an end-of-line token, columns count characters from
there. -/

namespace OffsideRule.Layout

/-- A token as a tokenizer hands it over. -/
structure Raw where
  kind : Option Kind
  start : Int
  stop : Int
  deriving DecidableEq, Repr

structure Token where
  /-- Absent at the end of the input only. -/
  kind : Option Kind
  start : Int
  stop : Int
  column : Int
  line : Int
  code : Bool
  /-- Whether layout added the token. -/
  virtual : Bool := false
  deriving DecidableEq, Repr

namespace Token

def isEnd (t : Token) : Bool :=
  t.kind.isNone

def name (t : Token) : String :=
  (t.kind.map Kind.name).getD "EOF"

def describe (t : Token) : String :=
  t.name ++ " (" ++ toString t.start ++ ", " ++ toString t.stop ++ ")"

/-- The empty token of the given kind right before `anchor`, on its line and in its column. -/
def before (kind : Kind) (anchor : Token) : Token where
  kind := some kind
  start := anchor.start
  stop := anchor.start
  column := anchor.column
  line := anchor.line
  code := true
  virtual := true

end Token

end OffsideRule.Layout
