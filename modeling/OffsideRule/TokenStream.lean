import OffsideRule.Layout.Token
import OffsideRule.Token

/-! A token stream serves the tokens of a range of a buffer one at a time. A start that fails has
already taken over the buffer and its range, and leaves the tokens served before in place. -/

namespace OffsideRule

/-- What a stream is started on: a range of a buffer, and the state to resume in. -/
structure Start where
  buffer : Text
  startOffset : Int := 0
  /-- The end of the buffer if absent. -/
  endOffset : Option Int := none
  state : Int := 0
  deriving DecidableEq, Repr

def Start.bufferEnd (s : Start) : Int :=
  s.endOffset.getD s.buffer.length

/-- The text of the range. -/
def Start.text (s : Start) : Text :=
  s.buffer.slice s.startOffset s.bufferEnd

structure TokenStream where
  buffer : Text
  bufferEnd : Int
  base : Int
  /-- All tokens of the range but the one at its end. -/
  tokens : List Token
  index : Nat
  state : Int
  deriving DecidableEq, Repr

namespace TokenStream

def empty : TokenStream := ⟨[], 0, 0, [], 0, 0⟩

def start (t : TokenStream) (s : Start) : Option Fault × TokenStream :=
  let ranged := { t with buffer := s.buffer, bufferEnd := s.bufferEnd, base := s.startOffset }
  match tokenize s.text with
  | .error fault => (some fault, ranged)
  | .ok tokens => (none, { ranged with tokens := tokens.dropLast, index := 0, state := s.state })

def current? (t : TokenStream) : Option Token :=
  t.tokens[t.index]?

/-- Kind of the current token, absent at the end. -/
def kind? (t : TokenStream) : Option Kind :=
  t.current?.map Token.kind

def tokenStart (t : TokenStream) : Int :=
  t.current?.elim t.bufferEnd fun token => t.base + token.start.offset

def tokenStop (t : TokenStream) : Int :=
  t.current?.elim t.bufferEnd fun token => t.base + token.stop.offset

def atEnd (t : TokenStream) : Bool :=
  t.tokens.length ≤ t.index

def advance (t : TokenStream) : TokenStream :=
  if t.atEnd then t else { t with index := t.index + 1 }

/-- The tokens still to be served, as layout takes them. -/
def remaining (t : TokenStream) : List Layout.Raw :=
  (t.tokens.drop t.index).map fun token =>
    ⟨some token.kind, t.base + token.start.offset, t.base + token.stop.offset⟩

/-- The stream after all its tokens were served. -/
def drain (t : TokenStream) : TokenStream :=
  { t with index := max t.index t.tokens.length }

end TokenStream

end OffsideRule
