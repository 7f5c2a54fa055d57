/-! Log channels. Every channel of the program lies under the program's own. -/

namespace OffsideRule

def rootChannel : String := "offside"

/-- The channel of a component: names that already lie under the program's channel stay. -/
def channel (name : String) : String :=
  if name = rootChannel || (rootChannel ++ ".").toList.isPrefixOf name.toList then name
  else rootChannel ++ "." ++ name

/-- A log record as it is shown. -/
def record (name message : String) : String :=
  channel name ++ ": " ++ message

end OffsideRule
