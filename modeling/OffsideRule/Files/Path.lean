/-! Paths. A path is a root and the names below it; names that are empty or a single dot say
nothing and are dropped, while two dots stay. -/

namespace OffsideRule

structure Path where
  /-- Empty for a relative path. -/
  root : String
  names : List String
  deriving DecidableEq, Repr

namespace Path

/-- The root that a number of leading slashes stands for: two slashes are a root of their own. -/
def rootOf : Nat → String
  | 0 => ""
  | 2 => "//"
  | _ => "/"

/-- The pieces between slashes. -/
def pieces : List Char → List (List Char)
  | [] => [[]]
  | c :: rest =>
    if c = '/' then [] :: pieces rest
    else match pieces rest with
      | [] => [[c]]
      | piece :: more => (c :: piece) :: more

def ofString (s : String) : Path where
  root := rootOf (s.toList.takeWhile (· = '/')).length
  names := ((pieces s.toList).filter fun piece => piece ≠ [] && piece ≠ ['.']).map String.ofList

def toString (p : Path) : String :=
  if p.root = "" && p.names.isEmpty then "." else p.root ++ "/".intercalate p.names

/-- The path without its last name. -/
def parent (p : Path) : Path :=
  { p with names := p.names.dropLast }

/-- The path of the directory above, for a path whose two dots, if any, stand in front. -/
def up (p : Path) : Path :=
  match p.names.getLast? with
  | some name => if name = ".." then { p with names := p.names ++ [".."] } else p.parent
  | none => if p.root = "" then { p with names := [".."] } else p

/-- The path of a name below. -/
def child (p : Path) (name : String) : Path :=
  { p with names := p.names ++ [name] }

/-- The directories above, the nearest last. The working directory and the root are left out. -/
def ancestors (p : Path) : List Path :=
  (List.range (p.names.length - 1)).map fun n => { p with names := p.names.take (n + 1) }

/-- Whether a path whose two dots, if any, stand in front lies in the working directory. -/
def isLocal (p : Path) : Bool :=
  p.root = "" && p.names.head? ≠ some ".."

end Path

/-- A message, with the path it is about in front if there is one. -/
def describeAt (path : Option Path) (message : String) : String :=
  path.elim message fun p => p.toString ++ ": " ++ message

end OffsideRule
