/-
LineScript/Number/Shortest.lean

The shortest decimal text of a floating-point number.

Every finite number `m · 2 ^ q` has an interval of reals that round to it; it
reaches half way to both neighbours, and its ends belong to it exactly if `m`
is even.  Among the decimals `c · 10 ^ p` of that interval the one with the
largest `p` has the fewest digits.  `search` walks down the grids `10 ^ p`
from one that is certainly too coarse, and stops at the first on which the
value's lower or upper neighbour lies in the interval.  If both do, the
nearer is taken, and of two equally near the even one.

The digits are then laid out by `Layout`, which holds the decisions of the
format: positional notation for exponents from -4 up to 15, a point with a
digit on both sides of it, and an exponent of at least two digits with its
sign otherwise.
-/
import LineScript.Number.Binary64

namespace LineScript.Number

/-! ### The fewest digits -/

/-- The multiples `c` of `10 ^ p` near `m · 2 ^ q` that round to it, the best
one if there are two. -/
def gridPoint? (m : Nat) (q p : Int) : Option Nat :=
  -- Four times the value, its interval and the grid, over a common unit.
  let unit := twoPow (q - 2).toNat * tenPow (-p).toNat
  let grid := tenPow p.toNat * twoPow (2 - q).toNat
  let value := 4 * m * unit
  let low := (4 * m - if m = twoPow 52 ∧ -1074 < q then 1 else 2) * unit
  let high := (4 * m + 2) * unit
  let fits (c : Nat) : Bool :=
    if m % 2 = 0 then low ≤ c * grid && c * grid ≤ high
    else low < c * grid && c * grid < high
  let c := value / grid
  if fits c then
    if fits (c + 1) then
      let below := value - c * grid
      let above := (c + 1) * grid - value
      if below < above then some c
      else if above < below then some (c + 1)
      else some (c + c % 2)
    else some c
  else if fits (c + 1) then some (c + 1)
  else none

/-- Walk down the grids from `10 ^ p` and stop at the first with a hit. -/
def search (m : Nat) (q : Int) : Nat → Int → Nat × Int
  | 0, p => (m, p)
  | steps + 1, p =>
    match gridPoint? m q p with
    | some c => (c, p)
    | none => search m q steps (p - 1)

/-- An exponent of ten at or above that of `m · 2 ^ q`. -/
def coarseExponent (m : Nat) (q : Int) : Int :=
  ((m.log2 : Int) + q) * 30103 / 100000 + 2

/-- Drop the zeros at the end of a sequence of digits. -/
def dropTrailingZeros (ds : List Char) : List Char :=
  (ds.reverse.dropWhile (· == '0')).reverse

/-- The fewest digits that read back as `m · 2 ^ q`, and the place of the
point counted from the front of them. -/
def shortestDigits (m : Nat) (q : Int) : List Char × Int :=
  let (c, p) := search m q 24 (coarseExponent m q)
  let ds := toDigits c
  (dropTrailingZeros ds, ds.length + p)

/-! ### Layout -/

/-- The decisions of a number format: which decimal exponents are written
positionally, and how many digits an exponent has at least. -/
structure Layout where
  positionalFrom : Int
  positionalBelow : Int
  exponentWidth : Nat

/-- Positional notation from 10^-4 up to 10^16, exponents of two digits or
more. -/
def Layout.standard : Layout := ⟨-4, 16, 2⟩

/-- Digits in positional notation, with a digit on both sides of the
point. -/
def positional (ds : List Char) (point : Int) : List Char :=
  if point ≤ 0 then '0' :: '.' :: List.replicate (-point).toNat '0' ++ ds
  else
    let whole := ds.take point.toNat
    let fraction := ds.drop point.toNat
    whole ++ List.replicate (point.toNat - ds.length) '0' ++
      '.' :: (if fraction.isEmpty then ['0'] else fraction)

/-- Digits in exponent notation, with a point only if it has digits behind
it. -/
def exponential (width : Nat) (ds : List Char) (exponent : Int) : List Char :=
  let mantissa :=
    match ds with
    | [] => []
    | [d] => [d]
    | d :: r => d :: '.' :: r
  let es := toDigits exponent.natAbs
  mantissa ++ 'e' :: (if exponent < 0 then '-' else '+') ::
    (List.replicate (width - es.length) '0' ++ es)

/-- Lay digits out, with the point at a place counted from the front. -/
def Layout.write (l : Layout) (ds : List Char) (point : Int) : List Char :=
  if l.positionalFrom ≤ point - 1 ∧ point - 1 < l.positionalBelow then positional ds point
  else exponential l.exponentWidth ds (point - 1)

namespace Binary64

/-- The magnitude of a number in the shortest form that reads back. -/
def magnitudeText (x : Binary64) : List Char :=
  if x.isZero then ['0', '.', '0']
  else if x.isFinite then
    let (ds, point) := shortestDigits x.significand x.power
    Layout.standard.write ds point
  else ['i', 'n', 'f']

/-- The shortest decimal text that reads back as the number. -/
def toText (x : Binary64) : String :=
  if x.isNaN then "nan"
  else String.ofList ((if x.isNegative then ['-'] else []) ++ x.magnitudeText)

end Binary64

end LineScript.Number
