/-! Indices. The numbers that count the items of a sequence are signed words of 64 bits; a number
outside of them is refused before the sequence is looked at. -/

namespace OffsideRule

def isIndex (n : Int) : Bool :=
  -0x8000000000000000 ≤ n && n < 0x8000000000000000

/-- The message about a number that is no index. -/
def noIndexMessage : String :=
  "cannot fit 'int' into an index-sized integer"

end OffsideRule
