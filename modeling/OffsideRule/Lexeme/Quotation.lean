import OffsideRule.Lexeme.Class

/-! String and character literals, from the character after the opening quote. In a string a
backslash takes the next character with it, whatever it is; in a character literal a backslash
lets the literal run on to the next quote. -/

namespace OffsideRule

def stringBody : Text → Extent
  | [] => ⟨0, false⟩
  | '\n' :: _ => ⟨0, false⟩
  | ['\\'] => ⟨1, false⟩
  | '\\' :: _ :: rest => (stringBody rest).after 2
  | '"' :: _ => ⟨1, true⟩
  | _ :: rest => (stringBody rest).after 1

/-- The closing quote of a character literal, if it comes next. -/
def closingQuote : Text → Extent
  | '\'' :: _ => ⟨1, true⟩
  | _ => ⟨0, false⟩

/-- Characters a character literal may hold. -/
def isQuotable (c : Char) : Bool :=
  c ≠ '\'' && c ≠ '\n'

def characterBody : Text → Extent
  | '\\' :: rest =>
    let n := runLength isQuotable rest
    (closingQuote (rest.drop n)).after (n + 1)
  | c :: rest => if isQuotable c then (closingQuote rest).after 1 else closingQuote (c :: rest)
  | [] => ⟨0, false⟩

end OffsideRule
