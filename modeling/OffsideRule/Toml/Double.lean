import OffsideRule.Text.Basic

/-! Floating-point numbers of double precision: how a decimal is read as one, and how one is
written with as few digits as are read as the same number again. -/

namespace OffsideRule.Toml

inductive Double
  | notANumber
  | infinite (negative : Bool)
  /-- A multiple of the least positive number, which is 2⁻¹⁰⁷⁴. -/
  | finite (negative : Bool) (units : Nat)
  deriving DecidableEq, Repr

namespace Double

/-- The units in one. -/
def unitsInOne : Nat := 1 <<< 1074

/-- The units beyond which a number counts as infinite. -/
def unitsBeyond : Nat := 1 <<< 2098

/-- A quotient rounded to the nearest integer, and to the even one of two that are equally near. -/
def roundedQuotient (n d : Nat) : Nat :=
  let q := n / d
  let rest := n % d
  if 2 * rest < d || (2 * rest = d && q % 2 = 0) then q else q + 1

/-- The units that are nearest to `n / d` among those that 53 bits can give. -/
def nearest (n d : Nat) : Nat :=
  let n := n * unitsInOne
  let excess := (n / d).log2 - 52
  roundedQuotient n (d <<< excess) <<< excess

/-- The units that `n · 10ᵏ` is read as. -/
def unitsOf (n : Nat) (k : Int) : Nat :=
  nearest (n * Nat.pow 10 k.toNat) (Nat.pow 10 (-k).toNat)

/-- Number of decimal digits. -/
def size (n : Nat) : Nat :=
  (Nat.toDigits 10 n).length

/-- The number that `n · 10ᵏ` is read as. -/
def ofDecimal (negative : Bool) (n : Nat) (k : Int) : Double :=
  -- Far outside the range the powers need not be worked out.
  if n = 0 || size n + k < -330 then finite negative 0
  else if 310 < size n + k then infinite negative
  else
    let units := unitsOf n k
    if units < unitsBeyond then finite negative units else infinite negative

/-- A decimal of the given number of digits that is read as these units, the nearest one if both
neighbours are. The decimal is the pair of an integer and a power of ten. -/
def decimal? (units digits : Nat) : Option (Nat × Int) :=
  let leading : Int := size (units * Nat.pow 10 350 / unitsInOne) - 351
  let k := leading - digits + 1
  let n := units * Nat.pow 10 (-k).toNat
  let d := unitsInOne * Nat.pow 10 k.toNat
  let near := roundedQuotient n d
  let other := if near = n / d then near + 1 else near - 1
  ([near, other].find? fun c => unitsOf c k = units).map (·, k)

/-- The shortest decimal that is read as these units. Seventeen digits are always enough. -/
def decimal (units : Nat) : Nat × Int :=
  ((List.range 17).findSome? fun more => decimal? units (more + 1)).getD (units, 0)

def zeros (n : Nat) : Text :=
  List.replicate n '0'

/-- Digits with an exponent; `point` is the place of the decimal point among the digits. -/
def scientific (point : Int) : Text → Text
  | [] => []
  | first :: more =>
    let power := Nat.toDigits 10 (point - 1).natAbs
    first :: (if more.isEmpty then [] else '.' :: more) ++
      ['e', if point - 1 < 0 then '-' else '+'] ++ zeros (2 - power.length) ++ power

/-- Digits without an exponent. -/
def positional (point : Int) (digits : Text) : Text :=
  if point ≤ 0 then '0' :: '.' :: zeros (-point).toNat ++ digits
  else
    let whole := digits.take point.toNat
    let fraction := digits.drop point.toNat
    whole ++ zeros (point.toNat - digits.length) ++
      '.' :: (if fraction.isEmpty then ['0'] else fraction)

/-- The absolute value of a finite number in decimal. -/
def digits (units : Nat) : Text :=
  if units = 0 then ['0', '.', '0']
  else
    let (n, k) := decimal units
    let point : Int := size n + k
    let significant := ((Nat.toDigits 10 n).reverse.dropWhile (· = '0')).reverse
    if point < -3 || 16 < point then scientific point significant else positional point significant

def shown : Double → String
  | notANumber => "nan"
  | infinite negative => if negative then "-inf" else "inf"
  | finite negative units => (if negative then "-" else "") ++ String.ofList (digits units)

example : (ofDecimal false 15 (-1)).shown = "1.5" := by decide +kernel

end Double

end OffsideRule.Toml
