/-!
# Binary64 numbers

The numbers of a script are binary64 floating point numbers. A finite one is kept as a sign and a
magnitude `mantissa · 2 ^ exponent` in its one normal form, so that equality of values of this type
tells apart exactly what the format tells apart: `0` and `-0` differ, and there is one value that is
not a number.

Every operation computes the exact result on natural numbers and rounds it once, to the nearest
representable value, a tie going to the even mantissa (`ofRatio`).

The numbers are values of a type like any other, and not the machine's own: equality can be decided,
the kernel can compute with them, and a proof can look at a mantissa. Speed is of no importance,
since a literal is folded once.

Only what a compiler of integers needs is here. There is no remainder, no power and no comparison
beyond equality; the rounding of all operations is that of the default mode, and there are no flags.
-/

set_option autoImplicit false

namespace StackCode

/-- The normal form of a finite magnitude `mantissa · 2 ^ exponent`: at most 53 bits, an exponent in
range, and all 53 bits in use unless the exponent is already the least one. -/
def Double.Normal (mantissa : Nat) (exponent : Int) : Prop :=
  mantissa < 0x20000000000000 ∧ -1074 ≤ exponent ∧ exponent ≤ 971 ∧
    (0x10000000000000 ≤ mantissa ∨ exponent = -1074)

instance (mantissa : Nat) (exponent : Int) : Decidable (Double.Normal mantissa exponent) :=
  inferInstanceAs (Decidable (_ ∧ _ ∧ _ ∧ (_ ∨ _)))

/-- A binary64 number. -/
inductive Double where
  | nan
  | infinity (negative : Bool)
  | finite (negative : Bool) (mantissa : Nat) (exponent : Int)
      (normal : Double.Normal mantissa exponent)
deriving DecidableEq

namespace Double

/-! ## Rounding

A result is a ratio of two natural numbers with a sign. It is scaled so that the quotient has 53
bits, or fewer at the lower end of the range, and rounded there. -/

/-- Zero with a sign. -/
def zero (negative : Bool) : Double :=
  .finite negative 0 (-1074) (by decide)

/-- The finite number with this mantissa and exponent; one that is out of range is infinite. -/
def pack (negative : Bool) (mantissa : Nat) (exponent : Int) : Double :=
  if h : Normal mantissa exponent then .finite negative mantissa exponent h else .infinity negative

/-- `num / den` rounded to the nearest integer, a half going to the even neighbour. -/
def roundQuotient (num den : Nat) : Nat :=
  let q := num / den
  let r := num % den
  if 2 * r < den ∨ (2 * r = den ∧ q % 2 = 0) then q else q + 1

/-- The exponent of the greatest power of two that is at most `num / den`, both positive. -/
def floorLog2 (num den : Nat) : Int :=
  let k : Int := (num.log2 : Int) - den.log2
  if den <<< k.toNat ≤ num <<< (-k).toNat then k else k - 1

/-- The number nearest to `num / den`, with `den` positive. -/
def ofRatio (negative : Bool) (num den : Nat) : Double :=
  if num = 0 then zero negative
  else
    let exponent := max (-1074) (floorLog2 num den - 52)
    let mantissa := roundQuotient (num <<< (-exponent).toNat) (den <<< exponent.toNat)
    if mantissa = 0x20000000000000 then pack negative 0x10000000000000 (exponent + 1)
    else pack negative mantissa exponent

/-- The number nearest to an integer. -/
def ofInt (n : Int) : Double :=
  ofRatio (n < 0) n.natAbs 1

/-- The number nearest to a natural number. -/
def ofNat (n : Nat) : Double :=
  ofRatio false n 1

/-! ## Arithmetic

Sums are taken on a common scale, products and quotients as ratios. The sign of a zero is what the
format asks for in each case. -/

/-- The number with the opposite sign. -/
def neg : Double → Double
  | .nan => .nan
  | .infinity s => .infinity !s
  | .finite s m e h => .finite (!s) m e h

/-- A magnitude with its sign. -/
def signed (negative : Bool) (magnitude : Nat) : Int :=
  if negative then -magnitude else magnitude

/-- The sum. An exact zero is positive unless both summands are negative zeros. -/
def add : Double → Double → Double
  | .nan, _ => .nan
  | _, .nan => .nan
  | .infinity s, .infinity t => if s = t then .infinity s else .nan
  | .infinity s, .finite .. => .infinity s
  | .finite .., .infinity t => .infinity t
  | .finite s m d _, .finite t n e _ =>
    let low := min d e
    let sum := signed s (m <<< (d - low).toNat) + signed t (n <<< (e - low).toNat)
    if sum = 0 then zero (s && t)
    else ofRatio (sum < 0) (sum.natAbs <<< low.toNat) (1 <<< (-low).toNat)

instance : Add Double := ⟨add⟩

/-- The product. -/
def mul : Double → Double → Double
  | .nan, _ => .nan
  | _, .nan => .nan
  | .infinity s, .infinity t => .infinity (s != t)
  | .infinity s, .finite t n _ _ => if n = 0 then .nan else .infinity (s != t)
  | .finite s m _ _, .infinity t => if m = 0 then .nan else .infinity (s != t)
  | .finite s m d _, .finite t n e _ =>
    ofRatio (s != t) ((m * n) <<< (d + e).toNat) (1 <<< (-(d + e)).toNat)

/-- The quotient. -/
def div : Double → Double → Double
  | .nan, _ => .nan
  | _, .nan => .nan
  | .infinity _, .infinity _ => .nan
  | .infinity s, .finite t _ _ _ => .infinity (s != t)
  | .finite s _ _ _, .infinity t => zero (s != t)
  | .finite s m d _, .finite t n e _ =>
    if n = 0 then (if m = 0 then .nan else .infinity (s != t))
    else ofRatio (s != t) (m <<< (d - e).toNat) (n <<< (e - d).toNat)

/-! ## Views

How the compiler looks at a number: as an integer, if it is one. -/

/-- The integer that a finite number without fraction stands for; both zeros stand for `0`. -/
def toInt? : Double → Option Int
  | .finite s m e _ =>
    let unit := 1 <<< (-e).toNat
    if m % unit = 0 then some (signed s ((m / unit) <<< e.toNat)) else none
  | _ => none

/-- Whether this is a zero of either sign. -/
def isZero : Double → Bool
  | .finite _ m _ _ => m = 0
  | _ => false

/-- Whether this is an infinity. -/
def isInfinite : Double → Bool
  | .infinity _ => true
  | _ => false

/-- The 64 bits of the interchange format: sign, eleven bits of biased exponent, 52 bits of
fraction. -/
def toBits (x : Double) : UInt64 :=
  let magnitude : Nat :=
    match x with
    | .nan => 0x7FF8000000000000
    | .infinity _ => 0x7FF0000000000000
    | .finite _ m e _ => if m < 0x10000000000000 then m else (e + 1074).toNat <<< 52 + m
  let sign : Nat :=
    match x with
    | .infinity true | .finite true .. => 0x8000000000000000
    | _ => 0
  UInt64.ofNat (sign + magnitude)

end Double

end StackCode
