/-
LineScript/Number/Decimal.lean

Decimal notation: an optional minus sign, digits with at most one point, and
an optional exponent.

`Decimal.read` takes such a text apart into a sign, a natural number and a
power of ten, so that

    value of the text  =  ± digits · 10 ^ exponent

holds exactly, at every length.  Underscores have been removed by the caller.
The reader is total: it takes the longest decimal at the front of a text and
ignores the rest, because its callers have already checked the shape.
-/

namespace LineScript.Number

/-! ### Digits -/

/-- A decimal digit, as it stands in a literal. -/
def isDigit (c : Char) : Bool :=
  '0' ≤ c && c ≤ '9'

/-- The value of a decimal digit. -/
def digitValue (c : Char) : Nat :=
  c.toNat - '0'.toNat

/-- The number that a sequence of digits denotes, the empty one denoting
zero. -/
def ofDigits (ds : List Char) : Nat :=
  ds.foldl (fun n d => 10 * n + digitValue d) 0

@[simp] theorem ofDigits_nil : ofDigits [] = 0 := rfl

/-- A digit behind others multiplies them by ten. -/
@[simp] theorem ofDigits_concat (ds : List Char) (d : Char) :
    ofDigits (ds ++ [d]) = 10 * ofDigits ds + digitValue d := by
  simp [ofDigits]

/-- A power of ten. -/
def tenPow (n : Nat) : Nat :=
  Nat.pow 10 n

/-- A power of two. -/
def twoPow (n : Nat) : Nat :=
  Nat.pow 2 n

/-- The digits of a number, without zeros in front. -/
def toDigits (n : Nat) : List Char :=
  Nat.toDigits 10 n

/-! ### Decimals -/

/-- The number `± digits · 10 ^ exponent`. -/
structure Decimal where
  negative : Bool
  digits : Nat
  exponent : Int
deriving DecidableEq

namespace Decimal

/-- Whether a minus sign stands in front, and what is behind the sign. -/
def readSign : List Char → Bool × List Char
  | '-' :: r => (true, r)
  | '+' :: r => (false, r)
  | cs => (false, cs)

/-- A whole number with an optional sign. -/
def readInt (cs : List Char) : Int :=
  let (negative, r) := readSign cs
  let n : Int := ofDigits (r.takeWhile isDigit)
  if negative then -n else n

/-- The digits behind the point, if the text starts with one, and what is
behind them. -/
def readFraction : List Char → List Char × List Char
  | '.' :: r => (r.takeWhile isDigit, r.dropWhile isDigit)
  | cs => ([], cs)

/-- The exponent, zero if the text starts with none. -/
def readExponent : List Char → Int
  | 'e' :: r => readInt r
  | 'E' :: r => readInt r
  | _ => 0

/-- Take a text in decimal notation apart. -/
def read (cs : List Char) : Decimal :=
  let (negative, r) := readSign cs
  let whole := r.takeWhile isDigit
  let (fraction, r) := readFraction (r.dropWhile isDigit)
  { negative
    digits := ofDigits (whole ++ fraction)
    exponent := readExponent r - fraction.length }

end Decimal

end LineScript.Number
