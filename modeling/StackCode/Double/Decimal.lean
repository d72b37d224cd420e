import StackCode.Double.Basic

/-!
# Decimal texts of binary64 numbers

Writing takes the fewest digits that read back as the same number: the coarsest power-of-ten grid
with a point among the reals that round to it, and of two such points the nearer (`shortest`). How
those digits are laid out is a separate choice: `positional` never uses an exponent, `scientific`
does for very large and very small numbers.

Reading goes the other way from a significand and a power of ten (`ofDecimal?`). It works in
binary64 throughout: the significand is rounded, the power of ten is rounded, and so is their
product or quotient.

No floating point is used to write a floating point number. The search for the shortest digits
compares integers, so there is nothing to be said about its own rounding.

Reading is not correctly rounded in all cases, and is not meant to be: three roundings may differ
from one in the last bit. An integer of 64 bits or less is not read this way, and that is what the
numbers of a tree usually are.
-/

set_option autoImplicit false

namespace StackCode.Double

/-- The positive decimal number `coefficient · 10 ^ exponent`. -/
structure Decimal where
  coefficient : Nat
  exponent : Int
deriving DecidableEq

/-! ## The fewest digits that read back

The reals that round to a number are an interval, whose ends belong to it if the mantissa is
even. -/

/-- The multiple of `10 ^ p` nearest to `mantissa · 2 ^ exponent`, if it or its neighbour lies among
the reals that round to that number. The ends of that interval count when the mantissa is even.
Below a power of two the next number is half as far away as above it. All comparisons are made in
units of `2 ^ (exponent - 2) · 10 ^ p`, each side multiplied by the powers that are negative on the
other. -/
def onGrid? (mantissa : Nat) (exponent : Int) (p : Int) : Option Decimal :=
  let point := Nat.pow 10 p.toNat <<< (2 - exponent).toNat
  let unit := Nat.pow 10 (-p).toNat <<< (exponent - 2).toNat
  let value := 4 * mantissa * unit
  let low := (4 * mantissa - if mantissa = 0x10000000000000 ∧ -1074 < exponent then 1 else 2) * unit
  let high := (4 * mantissa + 2) * unit
  let inside (c : Nat) : Bool :=
    if mantissa % 2 = 0 then low ≤ c * point && c * point ≤ high
    else low < c * point && c * point < high
  let below := value / point
  let belowNearer : Bool :=
    2 * value < (2 * below + 1) * point || (2 * value = (2 * below + 1) * point && below % 2 = 0)
  if inside below && (belowNearer || !inside (below + 1)) then some ⟨below, p⟩
  else if inside (below + 1) then some ⟨below + 1, p⟩
  else none

/-- The decimal with the fewest digits that reads back as `mantissa · 2 ^ exponent`, a positive
finite number. Grids run from above the largest number down to the least one that can be needed. -/
def shortest (mantissa : Nat) (exponent : Int) : Decimal :=
  ((List.range 660).findSome? fun i : Nat =>
    onGrid? mantissa exponent (310 - (i : Int))).getD ⟨0, 0⟩

/-! ## Layouts -/

/-- The digits of a decimal with the point in its place, and no point in an integer. -/
def Decimal.positional (d : Decimal) : List Char :=
  let digits := Nat.toDigits 10 d.coefficient
  let places := (-d.exponent).toNat
  if places = 0 then digits ++ List.replicate d.exponent.toNat '0'
  else
    let padded := List.replicate (places + 1 - digits.length) '0' ++ digits
    let whole := padded.length - places
    padded.take whole ++ '.' :: padded.drop whole

/-- The power of ten of the leading digit. -/
def Decimal.magnitude (d : Decimal) : Int :=
  d.exponent + (Nat.toDigits 10 d.coefficient).length - 1

/-- One digit, the others behind a point, and the power of ten of the leading digit with its
sign. -/
def Decimal.scientific (d : Decimal) : List Char :=
  let power := (if d.magnitude < 0 then ['-'] else ['+']) ++ Nat.toDigits 10 d.magnitude.natAbs
  match Nat.toDigits 10 d.coefficient with
  | [digit] => digit :: 'e' :: power
  | digit :: rest => digit :: '.' :: (rest ++ 'e' :: power)
  | [] => 'e' :: power

/-- A sign in front of the digits of a magnitude. -/
def withSign (negative : Bool) (digits : List Char) : String :=
  String.ofList (if negative then '-' :: digits else digits)

/-- The number as a number literal: never an exponent, and no fraction on an integer. -/
def plainText : Double → String
  | .nan => "NaN"
  | .infinity s => withSign s "inf".toList
  | .finite s m e _ => withSign s (if m = 0 then ['0'] else (shortest m e).positional)

/-- The number as a floating point number: always with a point or an exponent, and with an exponent
only when the leading digit stands above `10 ^ 15` or below `10 ^ (-5)`. -/
def floatText : Double → String
  | .nan => "NaN"
  | .infinity s => withSign s "inf".toList
  | .finite s m e _ =>
    if m = 0 then withSign s ['0', '.', '0']
    else
      let d := shortest m e
      if d.magnitude < -5 ∨ 15 < d.magnitude then withSign s d.scientific
      else if 0 ≤ d.exponent then withSign s (d.positional ++ ['.', '0'])
      else withSign s d.positional

/-! ## Reading -/

/-- `10 ^ p` as a number. -/
def powerOfTen (p : Nat) : Double :=
  ofNat (Nat.pow 10 p)

/-- `x / 10 ^ p`, through the greatest representable power of ten when `p` exceeds it. -/
def divPowerOfTen (x : Double) (p : Nat) : Double :=
  if p ≤ 308 then x.div (powerOfTen p)
  else if x.isZero then x
  else divPowerOfTen (x.div (powerOfTen 308)) (p - 308)
termination_by p

/-- `significand · 10 ^ exponent`, or nothing when that is too large to be finite. -/
def ofDecimal? (significand : Nat) (exponent : Int) : Option Double :=
  let x := ofNat significand
  if exponent < 0 then some (divPowerOfTen x exponent.natAbs)
  else if exponent ≤ 308 then
    let scaled := x.mul (powerOfTen exponent.natAbs)
    if scaled.isInfinite then none else some scaled
  else if x.isZero then some x
  else none

end StackCode.Double
