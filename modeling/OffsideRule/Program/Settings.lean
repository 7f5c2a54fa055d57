import OffsideRule.Files
import OffsideRule.Layout.Config
import OffsideRule.Program.Arguments
import OffsideRule.Program.Breakdown
import OffsideRule.Text.Lines

/-! Settings: the command line merged with the configuration file. Where both speak, the command
line wins; the file is checked all the same. -/

namespace OffsideRule.Program

/-- What is wrong with a document. -/
inductive ConfigProblem
  | layoutNoTable
  | outputNoTable
  | keywordsNoStrings
  | closeNoBoolean
  | badFormat (v : Toml.Value)

/-- The message about a problem, unless it is about a value that cannot be shown. -/
def ConfigProblem.message (limits : Toml.Limits) : ConfigProblem → Except Toml.Unshown String
  | layoutNoTable => .ok "[layout] must be a table"
  | outputNoTable => .ok "[output] must be a table"
  | keywordsNoStrings => .ok "layout.keywords must be a list of strings"
  | closeNoBoolean => .ok "layout.close_top_level must be a boolean"
  | badFormat v => do
    return "output.format must be one of " ++ ", ".intercalate (Format.all.map Format.name) ++
      ", got " ++ (← v.shown limits 0)

/-- What is wrong with a configuration, and the file in which it lies. -/
structure ConfigError where
  message : String
  path : Option Path
  deriving DecidableEq, Repr

def ConfigError.report (e : ConfigError) : String :=
  describeAt e.path e.message

structure Settings where
  input : Path
  output : Option Path
  /-- Absent if the command line left the format blank. -/
  format : Option Format
  /-- The keywords that open blocks, if they were chosen; blank ones are `none`. -/
  keywords : Option (List (Option String))
  closeTopLevel : Bool
  watch : Bool
  debug : Bool
  verbose : Bool
  deriving DecidableEq, Repr

namespace Settings

/-- What a configuration file says, as far as it is asked. -/
structure FileSettings where
  keywords : Option (List String)
  closeTopLevel : Option Bool
  format : Option Format
  deriving DecidableEq, Repr

/-- The table under a name, empty if there is none. -/
def subtable (doc : Toml.Table) (name : String) (problem : ConfigProblem) :
    Except ConfigProblem Toml.Table :=
  match doc.lookup name with
  | none => .ok []
  | some (.table entries) => .ok entries
  | some _ => .error problem

def keywordsOf (layout : Toml.Table) : Except ConfigProblem (Option (List String)) :=
  match layout.lookup "keywords" with
  | none => .ok none
  | some v =>
    match v.strings? with
    | some words => .ok (some words)
    | none => .error .keywordsNoStrings

def closeOf (layout : Toml.Table) : Except ConfigProblem (Option Bool) :=
  match layout.lookup "close_top_level" with
  | none => .ok none
  | some (.boolean b) => .ok (some b)
  | some _ => .error .closeNoBoolean

def formatOf (output : Toml.Table) : Except ConfigProblem (Option Format) :=
  match output.lookup "format" with
  | none => .ok none
  | some v =>
    match v with
    | .string s =>
      match Format.ofName? s with
      | some f => .ok (some f)
      | none => .error (.badFormat v)
    | _ => .error (.badFormat v)

/-- Checks a document. -/
def FileSettings.ofTable (doc : Toml.Table) : Except ConfigProblem FileSettings := do
  let layout ← subtable doc "layout" .layoutNoTable
  let output ← subtable doc "output" .outputNoTable
  return ⟨← keywordsOf layout, ← closeOf layout, ← formatOf output⟩

/-- A path that was given, unless it is empty. -/
def givenPath (s : Option String) : Option Path :=
  match s with
  | some s => if s = "" then none else some (.ofString s)
  | none => none

/-- The configuration file: the one that was given, or the one beside the input. -/
def configPath (a : Arguments) : Path :=
  (givenPath a.config).getD ((Path.ofString a.input).parent.child "offside.toml")

def merge (a : Arguments) (f : FileSettings) : Settings where
  input := .ofString a.input
  output := givenPath a.output
  format := a.format.getD (some (f.format.getD .tokens))
  keywords := if a.keywords.isEmpty then f.keywords.map (·.map some) else some a.keywords
  closeTopLevel := !a.noCloseTopLevel && f.closeTopLevel.getD true
  watch := a.watch
  debug := a.debug
  verbose := a.verbose

/-- Why settings cannot be made or used. -/
inductive Failure
  | config (e : ConfigError)
  | breakdown (b : Breakdown)
  deriving DecidableEq, Repr

/-- How a refused document ends the search for settings. -/
def ofRefusal (path : Path) (text : Text) : Toml.Refusal → Failure
  | .malformed flaw left => .config ⟨"invalid TOML: " ++ flaw.report text left, some path⟩
  | .tooManyDigits count => .breakdown (.tooManyDigits count)
  | .tooDeep => .breakdown .tooDeep

/-- The document in the configuration file, empty if there is no such file. -/
def load (limits : Toml.Limits) (files : Files) (path : Path) : Except Failure Toml.Table := do
  if !(← (files.isFile path).mapError (.breakdown ∘ .file)) then return []
  let bytes ← (files.read path).mapError (.breakdown ∘ .file)
  let text ← (Utf8.decode bytes).mapError (.breakdown ∘ .undecodable)
  (Toml.parse limits text.dropReturns).mapError (ofRefusal path text.dropReturns)

/-- How a problem of a document ends the search for settings. -/
def ofProblem (limits : Toml.Limits) (path : Path) (problem : ConfigProblem) : Failure :=
  match problem.message limits with
  | .ok message => .config ⟨message, some path⟩
  | .error u => .breakdown (.unshown u)

/-- Merges the command line with a document from a configuration file. -/
def ofTable (limits : Toml.Limits) (a : Arguments) (doc : Toml.Table) : Except Failure Settings :=
  match FileSettings.ofTable doc with
  | .ok f => .ok (merge a f)
  | .error problem => .error (ofProblem limits (configPath a) problem)

/-- The settings for a command line among the given files. -/
def resolve (limits : Toml.Limits) (a : Arguments) (files : Files) : Except Failure Settings := do
  ofTable limits a (← load limits files (configPath a))

/-- The layout configuration that settings select. Keywords are looked up in order, and no further
than the first blank one. -/
def layout (s : Settings) : Except Failure Layout.Config :=
  match s.keywords with
  | none => .ok (Layout.Config.haskell.withCloseTopLevel s.closeTopLevel)
  | some words =>
    match Layout.Config.haskell.withKeywords ((words.takeWhile Option.isSome).filterMap id) with
    | .error e => .error (.config ⟨e.message, none⟩)
    | .ok c =>
      if words.all Option.isSome then .ok (c.withCloseTopLevel s.closeTopLevel)
      else .error (.breakdown .blankKeyword)

end Settings

end OffsideRule.Program
