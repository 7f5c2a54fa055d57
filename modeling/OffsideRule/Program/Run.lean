import OffsideRule.Program.Process
import OffsideRule.Program.Usage

/-! A run of the program as a function of its command line and of the files. -/

namespace OffsideRule.Program

/-- How a run ends. -/
inductive Ending
  | exit (code : Nat)
  /-- After the help text or a complaint about the command line. -/
  | usage (code : Nat)
  | breakdown (b : Breakdown)
  deriving DecidableEq, Repr

structure Run where
  ending : Ending
  stdout : String
  stderr : String
  files : Files
  deriving DecidableEq, Repr

/-- What a command line asks for. -/
inductive Plan
  | stop (r : Run)
  | once (s : Settings) (c : Layout.Config)
  | watch (s : Settings) (c : Layout.Config)

/-- Ends for want of usable settings. -/
def refuse (files : Files) : Settings.Failure → Run
  | .config e => ⟨.exit 2, "", "error: " ++ e.report ++ "\n", files⟩
  | .breakdown b => ⟨.breakdown b, "", "", files⟩

def plan (limits : Toml.Limits) (words : List String) (files : Files) : Plan :=
  match Arguments.parse words with
  | .error .help => .stop ⟨.usage 0, helpText, "", files⟩
  | .error (.misuse m) => .stop ⟨.usage 2, "", m.report, files⟩
  | .ok a =>
    match Settings.resolve limits a files with
    | .error failure => .stop (refuse files failure)
    | .ok s =>
      match s.layout with
      | .error failure => .stop (refuse files failure)
      | .ok c => if s.watch then .watch s c else .once s c

/-- Processes the input once. -/
def once (s : Settings) (c : Layout.Config) (files : Files) : Run :=
  match process s c files with
  | .error e =>
    match e.fatal? with
    | some e => ⟨.breakdown (.file e), "", "", files⟩
    | none => ⟨.exit e.exitCode, "", e.report s.input, files⟩
  | .ok p =>
    match deliver s files p.output with
    | .error e => ⟨.breakdown (.file e), "", p.notes, files⟩
    | .ok d => ⟨.exit 0, d.stdout, p.notes, d.files⟩

/-- What one look at a watched input yields. -/
structure Poll where
  stdout : String
  stderr : String
  deriving DecidableEq, Repr

/-- The time of the last change that was processed, zero before any, and the files. -/
structure Watch where
  last : Int
  files : Files
  deriving DecidableEq, Repr

/-- Looks at the input, and processes it if it is there and was changed at another time than the
last one processed. A path that is none breaks off the watch. -/
def Watch.poll (w : Watch) (s : Settings) (c : Layout.Config) : Except FileError (Poll × Watch) :=
  match w.files.modified s.input with
  | .error e => if e.isFatal then .error e else .ok (⟨"", ""⟩, w)
  | .ok time =>
    if time = w.last then .ok (⟨"", ""⟩, w)
    else match process s c w.files with
      | .error e => .ok (⟨"", e.report s.input⟩, { w with last := time })
      | .ok p =>
        match deliver s w.files p.output with
        | .error e =>
          if e.isFatal then .error e
          else .ok (⟨"", p.notes ++ "error: " ++ e.message ++ "\n"⟩, { w with last := time })
        | .ok d =>
          .ok (⟨d.stdout, p.notes ++ "Processed " ++ s.input.toString ++ "\n"⟩, ⟨time, d.files⟩)

/-- The first words of a watch. -/
def greeting (s : Settings) : String :=
  "Watching " ++ s.input.toString ++ " for changes...\n"

/-- A watch that is over: its polls, how it ended, and the files it left. -/
structure Watched where
  polls : List Poll
  ending : Ending
  files : Files
  deriving DecidableEq, Repr

/-- Polls once, and once more after each edit. -/
def Watch.polls (s : Settings) (c : Layout.Config) : Watch → List Files.Edit → Watched
  | w, [] =>
    match w.poll s c with
    | .error e => ⟨[], .breakdown (.file e), w.files⟩
    | .ok (p, w) => ⟨[p], .exit 0, w.files⟩
  | w, e :: more =>
    match w.poll s c with
    | .error e => ⟨[], .breakdown (.file e), w.files⟩
    | .ok (p, w) =>
      let rest := polls s c { w with files := w.files.edit e } more
      { rest with polls := p :: rest.polls }

/-- A watch from its greeting to its end, with the edits that happen between the polls. -/
def watch (s : Settings) (c : Layout.Config) (files : Files) (edits : List Files.Edit) : Watched :=
  let watched := Watch.polls s c ⟨0, files⟩ edits
  match watched.polls with
  | [] => watched
  | p :: more => { watched with polls := { p with stderr := greeting s ++ p.stderr } :: more }

/-- A run that does not watch, absent if the command line asks to watch. -/
def execute (limits : Toml.Limits) (words : List String) (files : Files) : Option Run :=
  match plan limits words files with
  | .stop r => some r
  | .once s c => some (once s c files)
  | .watch _ _ => none

end OffsideRule.Program
