/-
LineScript/Number/Binary64.lean

Floating-point numbers of 64 bits, as bits.

A number is a sign, an exponent field of eleven bits and a fraction field of
52 bits.  All operations work on these fields in exact arithmetic over `Nat`
and `Int`, so every result can be computed inside a proof.

The main operation is `ofRatio`: the binary number nearest to a quotient of
natural numbers, with a tie going to the even neighbour and too large a
quotient going to infinity.  `ofDecimal` is `ofRatio` at `digits · 10 ^
exponent`; decimals far outside the range are decided by their exponent alone,
so that no huge power is ever formed.
-/
import LineScript.Number.Decimal

namespace LineScript.Number

/-- A floating-point number, given by its bits. -/
structure Binary64 where
  bits : UInt64
deriving DecidableEq

namespace Binary64

/-! ### Fields -/

/-- The exponent field of infinities and of what is no number. -/
def topExponent : Nat := 2047

/-- The sign bit. -/
def isNegative (x : Binary64) : Bool :=
  twoPow 63 ≤ x.bits.toNat

/-- The bits below the sign, read as a number.  They grow with the magnitude
they stand for. -/
def magnitudeBits (x : Binary64) : Nat :=
  x.bits.toNat % twoPow 63

/-- The exponent field. -/
def exponentField (x : Binary64) : Nat :=
  x.magnitudeBits / twoPow 52

/-- The fraction field. -/
def fractionField (x : Binary64) : Nat :=
  x.magnitudeBits % twoPow 52

/-- Neither an infinity nor what is no number. -/
def isFinite (x : Binary64) : Bool :=
  x.exponentField != topExponent

/-- What is no number. -/
def isNaN (x : Binary64) : Bool :=
  x.exponentField == topExponent && x.fractionField != 0

/-- Either zero. -/
def isZero (x : Binary64) : Bool :=
  x.magnitudeBits == 0

/-- The whole number `m` of a finite magnitude `m · 2 ^ q`. -/
def significand (x : Binary64) : Nat :=
  if x.exponentField = 0 then x.fractionField else twoPow 52 + x.fractionField

/-- The power `q` of a finite magnitude `m · 2 ^ q`. -/
def power (x : Binary64) : Int :=
  if x.exponentField = 0 then -1074 else (x.exponentField : Int) - 1075

/-! ### Construction -/

/-- The number with a sign and given bits below it; bits at or above those of
infinity give infinity. -/
def ofMagnitudeBits (negative : Bool) (magnitude : Nat) : Binary64 :=
  let capped := min magnitude (topExponent * twoPow 52)
  ⟨UInt64.ofNat (capped + if negative then twoPow 63 else 0)⟩

/-- Zero with a sign. -/
def zero (negative : Bool) : Binary64 :=
  ofMagnitudeBits negative 0

/-- Infinity with a sign. -/
def infinity (negative : Bool) : Binary64 :=
  ofMagnitudeBits negative (topExponent * twoPow 52)

/-- What is no number. -/
def nan : Binary64 :=
  ⟨UInt64.ofNat (topExponent * twoPow 52 + twoPow 51)⟩

/-- The quotient rounded to the nearest whole number, a tie to the even
one. -/
def roundDiv (num den : Nat) : Nat :=
  let quotient := num / den
  let twice := 2 * (num % den)
  if twice < den then quotient
  else if den < twice then quotient + 1
  else quotient + quotient % 2

/-- `num / den` in units of `2 ^ q`, as a quotient of natural numbers. -/
def scale (num den : Nat) (q : Int) : Nat × Nat :=
  (num * twoPow (-q).toNat, den * twoPow q.toNat)

/-- The power of two in whose units a quotient is rounded: the one that
leaves 53 binary digits before the point, but not below the least power. -/
def unitPower (num den : Nat) : Int :=
  let q := max ((num.log2 : Int) - den.log2 - 53) (-1074)
  let (n, d) := scale num den q
  if n / d < twoPow 53 then q else q + 1

/-- The binary number nearest to `± num / den`, a tie going to the even
neighbour. -/
def ofRatio (negative : Bool) (num den : Nat) : Binary64 :=
  if num = 0 then zero negative
  else
    let q := unitPower num den
    let (n, d) := scale num den q
    ofMagnitudeBits negative ((q + 1074).toNat * twoPow 52 + roundDiv n d)

/-- The binary number nearest to a decimal. -/
def ofDecimal (d : Decimal) : Binary64 :=
  if d.digits = 0 then zero d.negative
  else if 400 < d.exponent then infinity d.negative
  else if d.exponent + d.digits.log2 < -400 then zero d.negative
  else ofRatio d.negative (d.digits * tenPow d.exponent.toNat) (tenPow (-d.exponent).toNat)

/-- The number that a text denotes: decimal notation, or the name of an
infinity or of what is no number. -/
def ofText (s : String) : Binary64 :=
  let (negative, r) := Decimal.readSign s.toList
  if r = ['i', 'n', 'f'] then infinity negative
  else if r = ['n', 'a', 'n'] then nan
  else ofDecimal (Decimal.read s.toList)

/-! ### Comparison -/

/-- Equality of numbers: the two zeros are equal, and what is no number
equals nothing. -/
def equal (x y : Binary64) : Bool :=
  !x.isNaN && !y.isNaN && (x.bits == y.bits || (x.isZero && y.isZero))

/-- Whether a finite number is a given whole number. -/
def equalsInt (x : Binary64) (n : Int) : Bool :=
  let m : Int := x.significand * twoPow x.power.toNat
  let k : Int := n * twoPow (-x.power).toNat
  x.isFinite && (if x.isNegative then -m else m) == k

end Binary64

end LineScript.Number
