import OffsideRule.Excerpt
import OffsideRule.Lexeme
import OffsideRule.Position

/-! Tokens of a source text. A pass reads lexemes one behind the other from a place in the text,
to the end of the text or to the first problem; `tokenize` is the pass over a whole text. -/

namespace OffsideRule

structure Token where
  kind : Kind
  text : Text
  start : Position
  stop : Position
  deriving DecidableEq, Repr

/-- A problem at its place in a source. -/
structure Fault where
  problem : Problem
  position : Position
  source : Text
  deriving DecidableEq, Repr

namespace Fault

def message (f : Fault) : String :=
  f.problem.message

def excerpt (f : Fault) : Excerpt :=
  .ofSource f.message f.position.line f.position.column f.source

def report (f : Fault) (file : String) : String :=
  f.excerpt.render file

end Fault

/-- The name under which a source without a file is reported. -/
def defaultFile : String := "input.hs"

/-- A place in a text: its position, and the text from there on. -/
structure Cursor where
  position : Position
  rest : Text
  deriving DecidableEq, Repr

def Cursor.start (source : Text) : Cursor :=
  ⟨.origin, source⟩

/-- The cursor behind the next `n` characters. -/
def Cursor.move (c : Cursor) (n : Nat) : Cursor :=
  ⟨c.position.advance (c.rest.take n), c.rest.drop n⟩

/-- What a pass yields: the tokens read, the place where it stopped, and the problem that stopped
it, which lies where the first unreadable lexeme begins. -/
structure Pass where
  tokens : List Token
  cursor : Cursor
  problem : Option (Problem × Position)
  deriving DecidableEq, Repr

namespace Pass

/-- The same pass with one more token in front. -/
def cons (t : Token) (pass : Pass) : Pass :=
  { pass with tokens := t :: pass.tokens }

/-- Reads on from a cursor. A pass that meets no problem ends with the empty token at the end of
the text. -/
def run : Cursor → Pass
  | ⟨p, []⟩ => ⟨[⟨.endOfInput, [], p, p⟩], ⟨p, []⟩, none⟩
  | ⟨p, c :: rest⟩ =>
    match _ : Lexeme.read (c :: rest) with
    | .error o => ⟨[], Cursor.move ⟨p, c :: rest⟩ o.length, some (o.problem, p)⟩
    | .ok lx =>
      let behind := Cursor.move ⟨p, c :: rest⟩ lx.length
      cons ⟨lx.kind, (c :: rest).take lx.length, p, behind.position⟩ (run behind)
termination_by c => c.rest.length
decreasing_by
  have := Lexeme.read_pos ‹_›
  simp only [Cursor.move, List.length_drop, List.length_cons]
  omega

end Pass

def tokenize (source : Text) : Except Fault (List Token) :=
  let pass := Pass.run (.start source)
  match pass.problem with
  | none => .ok pass.tokens
  | some (problem, position) => .error ⟨problem, position, source⟩

/-- A lexer that can be run again from where it stopped. It keeps the tokens of all its runs. -/
structure Lexer where
  source : Text
  cursor : Cursor
  tokens : List Token
  deriving DecidableEq, Repr

namespace Lexer

def start (source : Text) : Lexer :=
  ⟨source, .start source, []⟩

/-- Runs to the end of the text, or to the next problem, which the run reports. -/
def run (l : Lexer) : Option Fault × Lexer :=
  let pass := Pass.run l.cursor
  (pass.problem.map fun (problem, position) => ⟨problem, position, l.source⟩,
    { l with cursor := pass.cursor, tokens := l.tokens ++ pass.tokens })

end Lexer

end OffsideRule
