import OffsideRule.Files
import OffsideRule.Toml.Grammar

/-! Failures for which the program has no exit code: they break off a run. -/

namespace OffsideRule.Program

inductive Breakdown
  | file (e : FileError)
  /-- The configuration file is no text. -/
  | undecodable (m : Utf8.Malformed)
  /-- The configuration file holds an integer that is too long. -/
  | tooManyDigits (count : Nat)
  /-- Values lie too deep in one another in the configuration file. -/
  | tooDeep
  /-- A value of the configuration file is wrong, and cannot be shown in a message either. -/
  | unshown (u : Toml.Unshown)
  /-- A keyword flag was left blank. -/
  | blankKeyword
  deriving DecidableEq, Repr

def Breakdown.message : Breakdown → String
  | file e => e.message
  | undecodable m => m.message
  | tooManyDigits count => Toml.tooManyDigitsMessage count
  | tooDeep => "maximum recursion depth exceeded"
  | unshown u => u.message
  | blankKeyword => "unhashable type: 'list'"

end OffsideRule.Program
