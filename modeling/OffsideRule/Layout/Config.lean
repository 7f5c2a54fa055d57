import OffsideRule.Kind
import OffsideRule.Text.Quoted

/-! What layout depends on: the kinds that end lines, are not code and open blocks, the kinds of
the delimiters to add, and the pair of keywords that may stand on one line. -/

namespace OffsideRule.Layout

structure Config where
  endOfLine : Kind
  openKind : Kind
  separatorKind : Kind
  closeKind : Kind
  nonCode : List Kind
  /-- Kinds after which a block begins. -/
  openers : List Kind
  letKind : Kind
  inKind : Kind
  /-- Whether the block that holds the whole source is closed at its end. -/
  closeTopLevel : Bool
  deriving DecidableEq, Repr

namespace Config

def haskell : Config where
  endOfLine := .newline
  openKind := .virtualLeftBrace
  separatorKind := .virtualSemicolon
  closeKind := .virtualRightBrace
  nonCode := [.blank, .newline, .lineComment, .blockComment]
  openers := [.keyword .whereK, .keyword .letK, .keyword .doK, .keyword .ofK]
  letKind := .keyword .letK
  inKind := .keyword .inK
  closeTopLevel := true

/-- A word that should be a keyword and is none. -/
structure UnknownKeyword where
  word : String
  deriving DecidableEq, Repr

def UnknownKeyword.message (e : UnknownKeyword) : String :=
  "unknown layout keyword " ++ quoted e.word

/-- The kinds of the named keywords, or the first name that is none. -/
def keywordKinds : List String → Except UnknownKeyword (List Kind)
  | [] => .ok []
  | word :: more =>
    match Keyword.ofWord? word with
    | none => .error ⟨word⟩
    | some k => (keywordKinds more).map (.keyword k :: ·)

/-- The same configuration with exactly the named keywords as openers. -/
def withKeywords (c : Config) (words : List String) : Except UnknownKeyword Config :=
  (keywordKinds words).map fun kinds => { c with openers := kinds }

def withCloseTopLevel (c : Config) (close : Bool) : Config :=
  { c with closeTopLevel := close }

/-- Whether a token of this kind is code; a token without a kind is not. -/
def isCode (c : Config) (kind : Option Kind) : Bool :=
  kind.any (!c.nonCode.contains ·)

def isOpener (c : Config) (kind : Option Kind) : Bool :=
  kind.any c.openers.contains

end Config

/-- The names of a set of kinds in alphabetical order. -/
def sortedNames (kinds : List Kind) : List String :=
  ((Kind.all.filter kinds.contains).map Kind.name).mergeSort (· ≤ ·)

end OffsideRule.Layout
