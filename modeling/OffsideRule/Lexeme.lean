import OffsideRule.Kind
import OffsideRule.Lexeme.Class
import OffsideRule.Lexeme.Comment
import OffsideRule.Lexeme.Number
import OffsideRule.Lexeme.Quotation
import OffsideRule.Text.Quoted
import OffsideRule.Text.Uppercase

/-! The lexeme at the front of a text: its kind and its length, or what is wrong there. Every
lexeme but the one at the end of the text has at least one character (`Lexeme.read_pos`). -/

namespace OffsideRule

/-- What makes a text unreadable at some place. -/
inductive Problem
  | nul
  | openComment
  | openString
  | openCharacter
  | unexpected (c : Char)
  deriving DecidableEq, Repr

def Problem.message : Problem → String
  | nul => "NUL character in source"
  | openComment => "unterminated block comment"
  | openString => "unterminated string literal"
  | openCharacter => "unterminated character literal"
  | unexpected c => "unexpected character " ++ quoted (String.singleton c)

/-- A problem, and how many characters were read before it was found. -/
structure Obstacle where
  problem : Problem
  length : Nat
  deriving DecidableEq, Repr

structure Lexeme where
  kind : Kind
  length : Nat
  deriving DecidableEq, Repr

namespace Lexeme

def punctuation? (c : Char) : Option Kind :=
  if c = '(' then some .leftParen
  else if c = ')' then some .rightParen
  else if c = '[' then some .leftBracket
  else if c = ']' then some .rightBracket
  else if c = '{' then some .leftBrace
  else if c = '}' then some .rightBrace
  else if c = ',' then some .comma
  else if c = ';' then some .semicolon
  else if c = '`' then some .backquote
  else none

/-- The kind of a name: a keyword, or a constructor if its first character is uppercase, or a
variable. -/
def nameKind (name : Text) : Kind :=
  match Keyword.ofWord? (String.ofList name) with
  | some k => .keyword k
  | none => if name.head?.any isUppercase then .constructorId else .variableId

/-- A single equals sign stands apart from all other runs of symbols. -/
def symbolKind (symbols : Text) : Kind :=
  if symbols = ['='] then .equals else .operator

/-- A delimited lexeme, or the problem that its closing delimiter is missing. -/
def delimited (kind : Kind) (problem : Problem) (e : Extent) : Except Obstacle Lexeme :=
  if e.closed then .ok ⟨kind, e.length⟩ else .error ⟨problem, e.length⟩

def read : Text → Except Obstacle Lexeme
  | [] => .ok ⟨.endOfInput, 0⟩
  | '\n' :: _ => .ok ⟨.newline, 1⟩
  | '\r' :: '\n' :: _ => .ok ⟨.newline, 2⟩
  | '{' :: '-' :: rest => delimited .blockComment .openComment ((commentBody 0 rest).after 2)
  | c :: rest =>
    let s := c :: rest
    if c = '\x00' then .error ⟨.nul, 0⟩
    else if isBlank c || c = '\r' then .ok ⟨.blank, blankLength s⟩
    else if startsLineComment s then .ok ⟨.lineComment, lineLength s⟩
    else match punctuation? c with
      | some kind => .ok ⟨kind, 1⟩
      | none =>
        if c = '"' then delimited .string .openString ((stringBody rest).after 1)
        else if c = '\'' then delimited .character .openCharacter ((characterBody rest).after 1)
        else if isDigit c then .ok ⟨(numberExtent s).1, (numberExtent s).2⟩
        else if isNameStart c then
          let n := runLength isNameChar s
          .ok ⟨nameKind (s.take n), n⟩
        else if isSymbol c then
          let n := runLength isSymbol s
          .ok ⟨symbolKind (s.take n), n⟩
        else .error ⟨.unexpected c, 0⟩

theorem delimited_pos {kind : Kind} {problem : Problem} {n : Nat} {e : Extent} {lx : Lexeme}
    (h : delimited kind problem (e.after (n + 1)) = .ok lx) : 0 < lx.length := by
  cases hc : e.closed <;> simp [delimited, Extent.after, hc] at h
  subst h
  simp only
  omega

theorem read_pos {c : Char} {rest : Text} {lx : Lexeme} (h : read (c :: rest) = .ok lx) :
    0 < lx.length := by
  unfold read at h
  split at h
  · contradiction
  · cases h; simp
  · cases h; simp
  · exact delimited_pos h
  · next hcr _ heq =>
    cases heq
    simp only at h
    split at h
    · contradiction
    split at h
    · next hb =>
      cases h
      exact blankLength_pos (by simpa using hb) (by simpa using hcr)
    split at h
    · next hl => cases h; exact lineLength_pos hl
    split at h
    · cases h; simp
    split at h
    · exact delimited_pos h
    split at h
    · exact delimited_pos h
    split at h
    · next hd => cases h; exact numberExtent_pos hd _
    split at h
    · next hn => cases h; exact runLength_pos (isNameChar_of_isNameStart hn) _
    split at h
    · next hs => cases h; exact runLength_pos hs _
    · contradiction

end Lexeme

end OffsideRule
