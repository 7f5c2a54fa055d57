import OffsideRule.Files.Path
import OffsideRule.Text.Quoted
import OffsideRule.Text.Utf8

/-! The files that the program sees, as a value: what stands at each path below the working
directory. Two dots lead to the directory above. A directory comes with the first file in it, and
outlives the last one. -/

namespace OffsideRule

/-- What stands at a path, with the time of its last change. -/
inductive Node
  | directory (modified : Int)
  | file (content : Bytes) (modified : Int)
  deriving DecidableEq, Repr

/-- Why a path cannot be used. -/
inductive Obstruction
  | missing
  | notDirectory
  | isDirectory
  /-- The path, or a name in it, is longer than paths and names can be. -/
  | tooLong
  /-- A null character is in the path, which is then the path of nothing. -/
  | nullCharacter
  deriving DecidableEq, Repr

structure FileError where
  cause : Obstruction
  path : Path
  deriving DecidableEq, Repr

def FileError.message (e : FileError) : String :=
  match e.cause with
  | .missing => "[Errno 2] No such file or directory: " ++ quoted e.path.toString
  | .notDirectory => "[Errno 20] Not a directory: " ++ quoted e.path.toString
  | .isDirectory => "[Errno 21] Is a directory: " ++ quoted e.path.toString
  | .tooLong => "[Errno 36] File name too long: " ++ quoted e.path.toString
  | .nullCharacter => "embedded null byte"

/-- Whether an error comes from the path alone, before any file is looked at. Such an error is not
reported but breaks off the run. -/
def FileError.isFatal (e : FileError) : Bool :=
  e.cause = .nullCharacter

structure Files where
  entries : List (Path × Node)
  deriving DecidableEq, Repr

namespace Files

/-- The earliest time of a change that is made while the program runs. -/
def present : Int := 0x80000000

/-- The time of a change to something that was last changed at `time`. -/
def later (time : Int) : Int :=
  max time present + 1

/-- What stands at a path that needs no walking. The working directory and those above it exist. -/
def node? (f : Files) (p : Path) : Option Node :=
  match f.entries.lookup p with
  | some node => some node
  | none => if p.names.all (· = "..") then some (.directory present) else none

/-- The longest name, in bytes. -/
def maxNameSize : Nat := 255

/-- The longest path, in bytes. -/
def maxPathSize : Nat := 4095

/-- Walks from a directory along names, to a path that needs no walking. All but the last name
have to lead to directories. -/
def walk (f : Files) : (here : Path) → List String → Except Obstruction Path
  | here, [] => .ok here
  | here, name :: more =>
    if name = ".." then f.walk here.up more
    else if maxNameSize < name.utf8ByteSize then .error .tooLong
    else match f.node? (here.child name), more with
      | _, [] => .ok (here.child name)
      | some (.directory _), more => f.walk (here.child name) more
      | some (.file _ _), _ :: _ => .error .notDirectory
      | none, _ :: _ => .error .missing

/-- The path a path leads to. -/
def locate (f : Files) (p : Path) : Except FileError Path :=
  if p.toString.toList.contains '\x00' then .error ⟨.nullCharacter, p⟩
  else if maxPathSize < p.toString.utf8ByteSize then .error ⟨.tooLong, p⟩
  else (f.walk ⟨p.root, []⟩ p.names).mapError (⟨·, p⟩)

/-- What stands at a path. -/
def find (f : Files) (p : Path) : Except FileError Node := do
  match f.node? (← f.locate p) with
  | some node => return node
  | none => throw ⟨.missing, p⟩

/-- Whether a path leads to a file. A path that is too long leaves the question open. -/
def isFile (f : Files) (p : Path) : Except FileError Bool :=
  match f.find p with
  | .ok (.file _ _) => .ok true
  | .ok (.directory _) => .ok false
  | .error e => if e.cause = .tooLong then .error e else .ok false

def read (f : Files) (p : Path) : Except FileError Bytes := do
  match ← f.find p with
  | .file content _ => return content
  | .directory _ => throw ⟨.isDirectory, p⟩

/-- The time of last change. -/
def modified (f : Files) (p : Path) : Except FileError Int := do
  match ← f.find p with
  | .file _ time => return time
  | .directory time => return time

/-- The same files with `node` at a path that needs no walking. -/
def put (f : Files) (p : Path) (node : Node) : Files :=
  if (f.entries.lookup p).isSome then
    ⟨f.entries.map fun entry => if entry.1 = p then (p, node) else entry⟩
  else ⟨f.entries ++ [(p, node)]⟩

/-- Writes a file. A file that was there becomes newer. -/
def write (f : Files) (p : Path) (content : Bytes) : Except FileError Files := do
  let place ← f.locate p
  match f.node? place with
  | some (.directory _) => throw ⟨.isDirectory, p⟩
  | some (.file _ time) => return f.put place (.file content (later time))
  | none => return f.put place (.file content present)

/-- The same files after a directory has gained or lost an entry. -/
def touch (f : Files) (p : Path) : Files :=
  match f.node? p with
  | some (.directory time) => f.put p (.directory (later time))
  | _ => f

/-- The same files with `node` at a path where nothing was, in a directory that is there. -/
def create (f : Files) (p : Path) (node : Node) : Files :=
  (f.put p node).touch p.parent

/-- The same files with `node` at a path, and with the directories on the way to it. -/
def appear (f : Files) (p : Path) (node : Node) : Files :=
  if (f.node? p).isSome then f.put p node
  else
    let missing := p.ancestors.filter fun q => (f.node? q).isNone
    (missing.foldl (fun f q => f.create q (.directory present)) f).create p node

/-- The same files without what stands at a path and below it. -/
def disappear (f : Files) (p : Path) : Files :=
  if (f.entries.lookup p).isNone then f
  else
    let kept := f.entries.filter fun (q, _) => !(q.root = p.root && p.names.isPrefixOf q.names)
    touch ⟨kept⟩ p.parent

/-- Changes from outside: a node that appears at a path, or `none` where it disappears. -/
abbrev Edit := List (Path × Option Node)

def edit (f : Files) (e : Edit) : Files :=
  e.foldl (fun f (p, node?) => node?.elim (f.disappear p) (f.appear p)) f

/-- The files that are new or have another content than before. -/
def changes (before after : Files) : List (Path × Bytes) :=
  after.entries.filterMap fun (p, node) =>
    match node, before.entries.lookup p with
    | .file content _, some (.file old _) => if content = old then none else some (p, content)
    | .file content _, _ => some (p, content)
    | .directory _, _ => none

end Files

end OffsideRule
