import OffsideRule.Program.Run

/-! The program on a real file system. The files that a run may touch are read into a value, the run
is computed on this value, and what it changed is written back. -/

namespace OffsideRule.Console

open Program

/-- What stands at a path, if anything. -/
def lookAt (path : String) : IO (Option Node) := do
  try
    let place ← IO.FS.realPath path
    let time := (← place.metadata).modified
    let modified := time.sec * 1000000000 + time.nsec.toNat
    if ← place.isDir then return some (.directory modified)
    return some (.file (← IO.FS.readBinFile path).toList modified)
  catch _ => return none

/-- The paths that a walk along the names passes. -/
def stops (here : Path) : List String → List Path
  | [] => []
  | name :: more =>
    let next := if name = ".." then here.up else here.child name
    next :: stops next more

/-- The nodes at a path and on the way to it. -/
def snapshotPath (path : Path) : IO (List (Path × Node)) := do
  let found ← (stops ⟨path.root, []⟩ path.names).mapM fun stop => return (stop, ← lookAt stop.toString)
  return found.filterMap fun (stop, node?) => node?.map (stop, ·)

def snapshot (paths : List Path) : IO Files := do
  return ⟨(← paths.mapM snapshotPath).flatten⟩

def writeBack (before after : Files) : IO Unit :=
  (Files.changes before after).forM fun (path, content) =>
    IO.FS.writeBinFile path.toString ⟨content.toArray⟩

def say (stdout stderr : String) : IO Unit := do
  (← IO.getStderr).putStr stderr
  (← IO.getStdout).putStr stdout
  (← IO.getStdout).flush

/-- The files that settings name. -/
def touched (s : Settings) : List Path :=
  s.input :: s.output.toList

/-- Polls the input until a poll breaks off. -/
partial def watchInput (s : Settings) (c : Layout.Config) (last : Int) : IO UInt32 := do
  let files ← snapshot (touched s)
  match Watch.poll ⟨last, files⟩ s c with
  | .error e => say "" (e.message ++ "\n"); return 1
  | .ok (poll, w) =>
    say poll.stdout poll.stderr
    writeBack files w.files
    IO.sleep 500
    watchInput s c w.last

def finish (r : Run) (before : Files) : IO UInt32 := do
  say r.stdout r.stderr
  writeBack before r.files
  match r.ending with
  | .exit code | .usage code => return code.toUInt32
  | .breakdown b => say "" (b.message ++ "\n"); return 1

def run (words : List String) : IO UInt32 := do
  let configs := match Arguments.parse words with
    | .ok a => [Settings.configPath a]
    | .error _ => []
  let files ← snapshot configs
  match plan .usual words files with
  | .stop r => finish r files
  | .once s c =>
    let files ← snapshot (touched s)
    finish (once s c files) files
  | .watch s c =>
    say "" (greeting s)
    watchInput s c 0

end OffsideRule.Console

def main (words : List String) : IO UInt32 :=
  OffsideRule.Console.run words
