import OffsideRule.Layout.Resolution
import OffsideRule.TokenStream

/-! A layout stream serves resolved tokens one at a time. Every start resolves a whole buffer anew,
so a start in the middle of one is refused. -/

namespace OffsideRule.Layout

structure Stream where
  source : TokenStream
  config : Config
  resolution : Resolution
  index : Nat
  deriving DecidableEq, Repr

/-- Why a start failed. -/
inductive Stream.Failure
  | startOffset (given : Int)
  | initialState (given : Int)
  | unreadable (fault : Fault)
  deriving DecidableEq, Repr

def Stream.Failure.message : Stream.Failure → String
  | startOffset given =>
    "does not support incremental lexing: start_offset must be 0, got " ++ toString given
  | initialState given =>
    "does not support incremental lexing: initial_state must be 0, got " ++ toString given
  | unreadable fault => fault.report defaultFile

namespace Stream

def ofConfig (c : Config) : Stream :=
  ⟨.empty, c, .empty, 0⟩

/-- A refused start changes nothing; any other drops the old tokens before it reads the buffer. -/
def start (s : Stream) (request : Start) : Option Failure × Stream :=
  if request.startOffset ≠ 0 then (some (.startOffset request.startOffset), s)
  else if request.state ≠ 0 then (some (.initialState request.state), s)
  else
    let (fault?, source) := s.source.start request
    match fault? with
    | some fault => (some (.unreadable fault), { s with source, resolution := .empty, index := 0 })
    | none =>
      let resolution := layOut s.config source.remaining source.bufferEnd
      (none, { s with source := source.drain, resolution, index := 0 })

def tokens (s : Stream) : List Token :=
  s.resolution.tokens

def warnings (s : Stream) : List Warning :=
  s.resolution.warnings

def current? (s : Stream) : Option Token :=
  s.tokens[s.index]?

/-- Moves to the next token; the end of the input is never left. -/
def advance (s : Stream) : Stream :=
  if s.current?.any (!·.isEnd) then { s with index := s.index + 1 } else s

end Stream

/-- The tokens of a whole text as layout takes them, without the one at its end. -/
def rawTokens (tokens : List OffsideRule.Token) : List Raw :=
  tokens.dropLast.map fun t => ⟨some t.kind, t.start.offset, t.stop.offset⟩

/-- Resolves a whole text. -/
def resolveText (c : Config) (source : Text) : Except Fault Resolution :=
  (tokenize source).map fun tokens => layOut c (rawTokens tokens) source.length

end OffsideRule.Layout
