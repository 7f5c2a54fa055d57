/-! Kinds of tokens: keywords, names, literals, punctuation, text that is not code, and the three
delimiters that layout adds. Every kind has a name, by which dumps show it. -/

namespace OffsideRule

inductive Keyword
  | moduleK | whereK | letK | inK | doK | ofK | caseK | ifK | thenK | elseK | importK | dataK
  | typeK | classK | instanceK | derivingK | newtypeK
  deriving DecidableEq, Repr

namespace Keyword

def all : List Keyword :=
  [moduleK, whereK, letK, inK, doK, ofK, caseK, ifK, thenK, elseK, importK, dataK, typeK, classK,
   instanceK, derivingK, newtypeK]

/-- The word as it stands in a source. -/
def word : Keyword → String
  | moduleK => "module"
  | whereK => "where"
  | letK => "let"
  | inK => "in"
  | doK => "do"
  | ofK => "of"
  | caseK => "case"
  | ifK => "if"
  | thenK => "then"
  | elseK => "else"
  | importK => "import"
  | dataK => "data"
  | typeK => "type"
  | classK => "class"
  | instanceK => "instance"
  | derivingK => "deriving"
  | newtypeK => "newtype"

def name : Keyword → String
  | moduleK => "KW_MODULE"
  | whereK => "KW_WHERE"
  | letK => "KW_LET"
  | inK => "KW_IN"
  | doK => "KW_DO"
  | ofK => "KW_OF"
  | caseK => "KW_CASE"
  | ifK => "KW_IF"
  | thenK => "KW_THEN"
  | elseK => "KW_ELSE"
  | importK => "KW_IMPORT"
  | dataK => "KW_DATA"
  | typeK => "KW_TYPE"
  | classK => "KW_CLASS"
  | instanceK => "KW_INSTANCE"
  | derivingK => "KW_DERIVING"
  | newtypeK => "KW_NEWTYPE"

/-- The keyword a word spells, if it is reserved. -/
def ofWord? (s : String) : Option Keyword :=
  all.find? (·.word == s)

theorem ofWord?_word (k : Keyword) : ofWord? k.word = some k := by
  cases k <;> rfl

theorem ofWord?_eq_some_iff {s : String} {k : Keyword} : ofWord? s = some k ↔ k.word = s := by
  constructor
  · intro h
    rw [ofWord?] at h
    simpa using List.find?_some h
  · rintro rfl
    exact ofWord?_word k

end Keyword

inductive Kind
  | keyword (k : Keyword)
  | variableId | constructorId
  | integer | float | string | character
  | leftParen | rightParen | leftBracket | rightBracket | leftBrace | rightBrace
  | comma | semicolon | backquote
  | equals | operator
  | blank | newline | lineComment | blockComment
  | virtualLeftBrace | virtualSemicolon | virtualRightBrace
  | endOfInput
  deriving DecidableEq, Repr

namespace Kind

def all : List Kind :=
  Keyword.all.map keyword ++
    [variableId, constructorId, integer, float, string, character, leftParen, rightParen,
     leftBracket, rightBracket, leftBrace, rightBrace, comma, semicolon, backquote, equals,
     operator, blank, newline, lineComment, blockComment, virtualLeftBrace, virtualSemicolon,
     virtualRightBrace, endOfInput]

def name : Kind → String
  | keyword k => k.name
  | variableId => "VARID"
  | constructorId => "CONID"
  | integer => "INTEGER"
  | float => "FLOAT"
  | string => "STRING"
  | character => "CHAR"
  | leftParen => "LPAREN"
  | rightParen => "RPAREN"
  | leftBracket => "LBRACKET"
  | rightBracket => "RBRACKET"
  | leftBrace => "LBRACE"
  | rightBrace => "RBRACE"
  | comma => "COMMA"
  | semicolon => "SEMICOLON"
  | backquote => "BACKQUOTE"
  | equals => "EQUALS"
  | operator => "OPERATOR"
  | blank => "WS"
  | newline => "NEWLINE"
  | lineComment => "LINE_COMMENT"
  | blockComment => "BLOCK_COMMENT"
  | virtualLeftBrace => "VIRTUAL_LEFT_BRACE"
  | virtualSemicolon => "VIRTUAL_SEMICOLON"
  | virtualRightBrace => "VIRTUAL_RIGHT_BRACE"
  | endOfInput => "EOF"

def ofName? (s : String) : Option Kind :=
  all.find? (·.name == s)

theorem ofName?_name (k : Kind) : ofName? k.name = some k := by
  cases k with
  | keyword k => cases k <;> rfl
  | _ => rfl

/-- How a message refers to a token of this kind: a keyword by its word, any other kind by its
name in lower case. -/
def label : Kind → String
  | keyword k => k.word
  | k => String.ofList (k.name.toList.map Char.toLower)

end Kind

end OffsideRule
