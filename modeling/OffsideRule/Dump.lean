import OffsideRule.Token

/-! Dumps of raw tokens: one line for each, with its place, its kind and its quoted text. -/

namespace OffsideRule

def Token.dump (t : Token) : String :=
  toString t.start.line ++ ":" ++ toString t.start.column ++ " " ++ t.kind.name ++ " " ++
    String.ofList t.text.quoted ++ "\n"

def dumpTokens (tokens : List Token) : String :=
  String.join (tokens.map Token.dump)

end OffsideRule
