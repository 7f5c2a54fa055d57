import OffsideRule.Layout.Stream
import OffsideRule.Log

/-! Diagnostics for an editor. Each change of a document is answered by a report on the text that the
workspace then holds: the fault that makes it unreadable, or a warning for every block that was given
up. -/

namespace OffsideRule.Editor

/-- A place in a document, both numbers counted from zero. -/
structure Place where
  line : Nat
  character : Nat
  deriving DecidableEq, Repr

/-- The place of an offset: the line feeds before it, and its distance from the last of them. -/
def Place.ofOffset (source : Text) (offset : Nat) : Place :=
  let before := source.take offset
  let onLine := before.reverse.takeWhile (· ≠ '\n')
  ⟨Text.lineFeeds before, offset - (before.length - onLine.length)⟩

inductive Severity
  | error
  | warning
  deriving DecidableEq, Repr

structure Diagnostic where
  start : Place
  stop : Place
  severity : Severity
  message : String
  deriving DecidableEq, Repr

namespace Diagnostic

/-- Marks the one character at which the text becomes unreadable. -/
def ofFault (f : Fault) : Diagnostic where
  start := ⟨f.position.line - 1, f.position.column - 1⟩
  stop := ⟨f.position.line - 1, f.position.column⟩
  severity := .error
  message := f.message

/-- Marks the opener of a block that was given up. -/
def ofWarning (source : Text) (w : Layout.Warning) : Diagnostic where
  start := .ofOffset source w.start.toNat
  stop := .ofOffset source w.stop.toNat
  severity := .warning
  message := w.message

end Diagnostic

/-- Who the diagnostics come from. -/
def origin : String := "offside"

def diagnose (source : Text) : List Diagnostic :=
  let (failure?, stream) := (Layout.Stream.ofConfig .haskell).start { buffer := source }
  match failure? with
  | some (.unreadable fault) => [.ofFault fault]
  | _ => stream.warnings.map (.ofWarning source)

/-- An editor tells of a document's full text when it opens it and when it changes it. -/
structure Update where
  uri : String
  text : Text
  deriving DecidableEq, Repr

structure Report where
  uri : String
  diagnostics : List Diagnostic
  deriving DecidableEq, Repr

/-- The documents that the editor told of, those it told of last in front. -/
structure Workspace where
  documents : List Update
  deriving DecidableEq, Repr

namespace Workspace

def empty : Workspace :=
  ⟨[]⟩

def put (w : Workspace) (u : Update) : Workspace :=
  ⟨u :: w.documents⟩

/-- The current text of a document. -/
def text? (w : Workspace) (uri : String) : Option Text :=
  (w.documents.find? (·.uri = uri)).map Update.text

/-- The report on the current text of a document, if there is such a document. -/
def validate (w : Workspace) (uri : String) : List Report :=
  (w.text? uri).toList.map fun text => ⟨uri, diagnose text⟩

/-- Takes an update in and answers it. -/
def step (w : Workspace) (u : Update) : List Report × Workspace :=
  ((w.put u).validate u.uri, w.put u)

/-- What each of the updates is answered with. -/
def answers : Workspace → List Update → List (List Report)
  | _, [] => []
  | w, u :: more =>
    let (reports, w) := w.step u
    reports :: answers w more

end Workspace

/-- The last part of a document's address. -/
def fileName (uri : String) : String :=
  String.ofList (uri.toList.reverse.takeWhile (· ≠ '/')).reverse

/-- What the log says about a report. -/
def Report.log (r : Report) : String :=
  record "lsp" (fileName r.uri ++ ": " ++ toString r.diagnostics.length ++ " diagnostics")

end OffsideRule.Editor
