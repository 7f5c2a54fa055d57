import OffsideRule.Dump
import OffsideRule.Files
import OffsideRule.Layout.Render
import OffsideRule.Layout.Stream
import OffsideRule.Program.Settings
import OffsideRule.Text.Lines

/-! Processing a file: reading it, resolving its layout and writing the result. -/

namespace OffsideRule.Program

/-- The result of processing: the text to deliver, and what goes to the error stream meanwhile. -/
structure Processed where
  output : String
  notes : String
  deriving DecidableEq, Repr

inductive ProcessError
  | unreadable (fault : Fault)
  | file (e : FileError)
  | undecodable (m : Utf8.Malformed)
  deriving DecidableEq, Repr

/-- The message for the error stream. -/
def ProcessError.report (input : Path) : ProcessError → String
  | unreadable fault => fault.report input.toString ++ "\n"
  | file e => "error: " ++ e.message ++ "\n"
  | undecodable m => "error: " ++ m.message ++ "\n"

/-- The error behind an error of processing, if it breaks off the run. -/
def ProcessError.fatal? : ProcessError → Option FileError
  | file e => if e.isFatal then some e else none
  | _ => none

/-- A text that cannot be read as tokens is told apart from a file that cannot be read at all. -/
def ProcessError.exitCode : ProcessError → Nat
  | unreadable _ => 1
  | file _ => 2
  | undecodable _ => 2

/-- The text of a source file. All its line ends are read as line feeds. -/
def readSource (files : Files) (path : Path) : Except ProcessError Text := do
  let bytes ← (files.read path).mapError .file
  let text ← (Utf8.decode bytes).mapError .undecodable
  return text.unifyLineEnds

/-- Writes tokens in a format. They are listed if no format is named. -/
def render (format : Option Format) (tokens : List Layout.Token) (source : Text) : String :=
  match format with
  | none | some .tokens => Layout.table tokens
  | some .braces => String.ofList (Layout.braces tokens source)
  | some .json => Layout.json tokens ++ "\n"

/-- What the error stream shows of a source that could be read. -/
def notes (s : Settings) (tokens : List Token) (r : Layout.Resolution) : String :=
  (if s.debug then dumpTokens tokens else "") ++
    (if s.verbose then String.join (r.log.map (· ++ "\n")) else "")

def process (s : Settings) (c : Layout.Config) (files : Files) : Except ProcessError Processed := do
  let source ← readSource files s.input
  let tokens ← (tokenize source).mapError .unreadable
  let resolution ← (Layout.resolveText c source).mapError .unreadable
  return ⟨render s.format resolution.tokens source, notes s tokens resolution⟩

/-- What delivering a text leaves behind. -/
structure Delivery where
  stdout : String
  files : Files
  deriving DecidableEq, Repr

/-- Writes a text to the output file, or to the standard output if there is none. -/
def deliver (s : Settings) (files : Files) (output : String) : Except FileError Delivery :=
  match s.output with
  | none => .ok ⟨output, files⟩
  | some path => (files.write path (Utf8.encode output)).map fun written => ⟨"", written⟩

end OffsideRule.Program
