import OffsideRule.Layout.Token
import OffsideRule.Text.Basic

/-! Ways to write a resolved stream: as a table, as the source with braces put in, and as a JSON
array. -/

namespace OffsideRule.Layout

/-- Kind, offsets, column and line, with a star in front of what layout added. -/
def Token.row (t : Token) : String :=
  (if t.virtual then "*" else " ") ++ padRight 20 t.name ++ " " ++
    padLeft 6 (toString t.start) ++ " " ++ padLeft 6 (toString t.stop) ++
    "  col=" ++ toString t.column ++ " line=" ++ toString t.line

/-- One row for each token. -/
def table (tokens : List Token) : String :=
  "\n".intercalate (tokens.map Token.row) ++ "\n"

/-- The text a virtual kind is written as. -/
def brace? : Kind → Option Text
  | .virtualLeftBrace => some ['{']
  | .virtualSemicolon => some [';']
  | .virtualRightBrace => some ['}']
  | _ => none

/-- What a token contributes to the source with braces. -/
def Token.piece (source : Text) (t : Token) : Text :=
  if t.virtual then (t.kind.bind brace?).getD (source.slice t.start t.stop)
  else source.slice t.start t.stop

/-- The source with the added delimiters written as braces and semicolons. -/
def braces (tokens : List Token) (source : Text) : Text :=
  tokens.flatMap (Token.piece source)

def Token.json (t : Token) : String :=
  "  \x7b\n" ++
    "    \"kind\": \"" ++ t.name ++ "\",\n" ++
    "    \"start\": " ++ toString t.start ++ ",\n" ++
    "    \"end\": " ++ toString t.stop ++ ",\n" ++
    "    \"column\": " ++ toString t.column ++ ",\n" ++
    "    \"line\": " ++ toString t.line ++ ",\n" ++
    "    \"virtual\": " ++ (if t.virtual then "true" else "false") ++ "\n  \x7d"

/-- The tokens as an indented JSON array of objects. -/
def json (tokens : List Token) : String :=
  if tokens.isEmpty then "[]"
  else "[\n" ++ ",\n".intercalate (tokens.map Token.json) ++ "\n]"

end OffsideRule.Layout
