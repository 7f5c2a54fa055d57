import OffsideRule.Text.Quoted
import OffsideRule.Toml.Double
import OffsideRule.Toml.Moment

/-! Values of TOML documents. -/

namespace OffsideRule.Toml

inductive Value
  | string (s : String)
  | integer (n : Int)
  | float (x : Double)
  | boolean (b : Bool)
  | date (d : Date)
  | time (c : Clock)
  /-- The offset from universal time, in minutes, is absent for a local time. -/
  | dateTime (d : Date) (c : Clock) (offset : Option Int)
  | array (items : List Value)
  | table (entries : List (String × Value))
  deriving Repr

/-- How deep values may lie in one another. What a value takes of the stack depends on all that is
called to read or to show it, so that the limits are tests; a depth counts the calls around a value. -/
structure Limits where
  /-- Whether there is room to read the value at the front of a text. -/
  reads : (depth : Nat) → Text → Bool
  /-- Whether there is room to show a value. -/
  shows : (depth : Nat) → Value → Bool

/-- Room for so many calls, whatever they are. -/
def Limits.ofCalls (calls : Nat) : Limits where
  reads depth _ := depth < calls
  shows depth _ := depth < calls

/-- What the stack usually has room for when a configuration file is read. -/
def Limits.usual : Limits :=
  .ofCalls 990

/-- The digits of the longest decimal integer that is read or shown. -/
def maxDigits : Nat := 4300

/-- Why a value is not shown. -/
inductive Unshown
  | tooManyDigits
  | tooDeep
  deriving DecidableEq, Repr

def Unshown.message : Unshown → String
  | tooManyDigits =>
    "Exceeds the limit (" ++ toString maxDigits ++ " digits) for integer string conversion; use " ++
      "sys.set_int_max_str_digits() to increase the limit"
  | tooDeep => "maximum recursion depth exceeded while getting the repr of an object"

namespace Value

def integerShown (n : Int) : Except Unshown String :=
  if maxDigits < Double.size n.natAbs then .error .tooManyDigits else .ok (toString n)

mutual

/-- The value as error messages show it. -/
def shown (limits : Limits) (depth : Nat) (v : Value) : Except Unshown String :=
  if limits.shows depth v then
    match v with
    | string s => .ok (quoted s)
    | integer n => integerShown n
    | float x => .ok x.shown
    | boolean b => .ok (if b then "True" else "False")
    | date d => .ok d.shown
    | time c => .ok c.shown
    | dateTime d c offset => .ok (dateTimeShown d c offset)
    | array items => do return "[" ++ ", ".intercalate (← itemsShown limits (depth + 1) items) ++ "]"
    | table entries => do
      return "\x7b" ++ ", ".intercalate (← entriesShown limits (depth + 1) entries) ++ "\x7d"
  else .error .tooDeep

def itemsShown (limits : Limits) (depth : Nat) : List Value → Except Unshown (List String)
  | [] => .ok []
  | v :: more => do return (← v.shown limits depth) :: (← itemsShown limits depth more)

def entriesShown (limits : Limits) (depth : Nat) :
    List (String × Value) → Except Unshown (List String)
  | [] => .ok []
  | (key, v) :: more => do
    return (quoted key ++ ": " ++ (← v.shown limits depth)) :: (← entriesShown limits depth more)

end

/-- The texts of an array of strings. -/
def strings? : Value → Option (List String)
  | array items => items.mapM fun
    | string s => some s
    | _ => none
  | _ => none

/-- Whether nothing may be added to the value any more, as it holds others and is complete. -/
def isClosed : Value → Bool
  | array _ | table _ => true
  | _ => false

end Value

/-- A document is its top-level table. -/
abbrev Table := List (String × Value)

end OffsideRule.Toml
