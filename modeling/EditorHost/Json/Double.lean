/-!
# Finite binary64 numbers

The fractional numbers of a JSON document are IEEE binary64 values.  A value is kept as a sign, a
significand and a power of two, so that every operation is exact arithmetic on natural numbers
followed by one rounding.  A document never holds an infinity or a NaN, so neither has a value here:
an operation that leaves the range answers `none`.

## Contents

* `Double.ofRatio` rounds a quotient of natural numbers to the nearest value, ties to even.
* `Double.mul`, `Double.div` and `Double.ofNat` are the exact operations followed by that rounding.
* `Double.shortest` gives the fewest decimal digits that read back as the same value, and among
  those the ones nearest to it.
-/

namespace EditorHost.Json

/-- A finite binary64 number: `significand * 2 ^ exponent`, negated when `negative`.  Normal values
have `2 ^ 52 ≤ significand < 2 ^ 53`; the others have the least exponent, `-1074`. -/
structure Double where
  negative : Bool
  significand : Nat
  exponent : Int
  deriving DecidableEq, Repr, Inhabited

namespace Double

/-- The least exponent of two, that of the subnormal values. -/
def minExponent : Int := -1074

/-- The greatest exponent of two. -/
def maxExponent : Int := 971

/-- The least significand of a normal value, `2 ^ 52`. -/
def minNormal : Nat := 4503599627370496

/-- Zero, with a sign. -/
def zero (negative : Bool) : Double := ⟨negative, 0, minExponent⟩

/-- Whether a value is zero, of either sign. -/
def isZero (x : Double) : Bool := x.significand == 0

/-- The nearest natural number to `num / den`, a tie going to the even one. -/
def roundQuotient (num den : Nat) : Nat :=
  let quotient := num / den
  let twice := 2 * (num % den)
  if twice < den then quotient
  else if den < twice then quotient + 1
  else if quotient % 2 = 0 then quotient else quotient + 1

/-- `num / (den * 2 ^ exponent)` as a quotient of natural numbers. -/
def scaled (num den : Nat) (exponent : Int) : Nat × Nat :=
  match exponent with
  | .ofNat up => (num, den * Nat.pow 2 up)
  | .negSucc down => (num * Nat.pow 2 (down + 1), den)

/-- The exponent at which `num / den` has a significand of 53 bits, or the least one. -/
def exponentFor (num den : Nat) : Int :=
  let guess : Int := (num.log2 : Int) - (den.log2 : Int) - 52
  let (top, bottom) := scaled num den guess
  let exact := if top / bottom < minNormal then guess - 1 else guess
  max exact minExponent

/-- The value nearest to `num / den`; `none` when it lies beyond the greatest finite value. -/
def ofRatio (negative : Bool) (num den : Nat) : Option Double :=
  if num = 0 then some (zero negative)
  else
    let exponent := exponentFor num den
    let (top, bottom) := scaled num den exponent
    let significand := roundQuotient top bottom
    let (significand, exponent) :=
      if significand = 2 * minNormal then (minNormal, exponent + 1) else (significand, exponent)
    if maxExponent < exponent then none else some ⟨negative, significand, exponent⟩

/-- The value nearest to a natural number. -/
def ofNat? (n : Nat) : Option Double := ofRatio false n 1

/-- The magnitude of a value as a quotient of natural numbers. -/
def ratio (x : Double) : Nat × Nat :=
  match x.exponent with
  | .ofNat up => (x.significand * Nat.pow 2 up, 1)
  | .negSucc down => (x.significand, Nat.pow 2 (down + 1))

/-- The rounded product. -/
def mul (x y : Double) : Option Double :=
  let (a, b) := x.ratio
  let (c, d) := y.ratio
  ofRatio (x.negative != y.negative) (a * c) (b * d)

/-- The rounded quotient; the divisor is not zero. -/
def div (x y : Double) : Option Double :=
  let (a, b) := x.ratio
  let (c, d) := y.ratio
  ofRatio (x.negative != y.negative) (a * d) (b * c)

/-- The value with the other sign. -/
def neg (x : Double) : Double := { x with negative := !x.negative }

/-! ## Shortest decimal digits -/

/-- The numbers that round to a magnitude: from `low` to `high` in units of a quarter of its last
binary place, the ends included when the significand is even. -/
structure Interval where
  low : Nat
  value : Nat
  high : Nat
  closed : Bool

/-- The interval of a value, in quarters of its last binary place.  Below a power of two the
neighbour is half as far away. -/
def interval (x : Double) : Interval :=
  let narrow := x.significand = minNormal ∧ minExponent < x.exponent
  { low := 4 * x.significand - if narrow then 1 else 2
    value := 4 * x.significand
    high := 4 * x.significand + 2
    closed := x.significand % 2 = 0 }

/-- Decimal digits as a number, and the power of ten of the last one. -/
structure Decimal where
  digits : Nat
  exponent : Int
  deriving DecidableEq, Repr

/-- The decimal grid with unit `10 ^ exponent`, against values in units of `2 ^ binary`: a grid
point `d` and a value `v` compare as `d * grid` and `v * unit`. -/
structure Scale where
  grid : Nat
  unit : Nat

/-- The scale of a decimal and a binary exponent. -/
def scale (decimal binary : Int) : Scale :=
  { grid := Nat.pow 10 decimal.toNat * Nat.pow 2 (-binary).toNat
    unit := Nat.pow 2 binary.toNat * Nat.pow 10 (-decimal).toNat }

/-- Whether grid point `d` lies in an interval. -/
def Interval.contains (range : Interval) (s : Scale) (d : Nat) : Bool :=
  let point := d * s.grid
  if range.closed then range.low * s.unit ≤ point && point ≤ range.high * s.unit
  else range.low * s.unit < point && point < range.high * s.unit

/-- The grid point nearest to the value among the two beside it that lie in the interval. -/
def Interval.nearest? (range : Interval) (s : Scale) : Option Nat :=
  let value := range.value * s.unit
  let below := value / s.grid
  match range.contains s below, range.contains s (below + 1) with
  | false, false => none
  | true, false => some below
  | false, true => some (below + 1)
  | true, true =>
    let twice := 2 * (value % s.grid)
    if twice < s.grid ∨ (twice = s.grid ∧ below % 2 = 0) then some below else some (below + 1)

/-- The least power of ten above a positive magnitude, found among `fuel` candidates from
`start`. -/
def magnitude (num den : Nat) : Nat → Int → Int
  | 0, start => start
  | fuel + 1, start =>
    if num * Nat.pow 10 (-start).toNat < den * Nat.pow 10 start.toNat then start
    else magnitude num den fuel (start + 1)

/-- The first of the grids with 1, 2, … digits that has a point in the interval. -/
def firstGrid (range : Interval) (binary top : Int) : Nat → Int → Option Decimal
  | 0, _ => none
  | fuel + 1, count =>
    match range.nearest? (scale (top - count) binary) with
    | some digits => some ⟨digits, top - count⟩
    | none => firstGrid range binary top fuel (count + 1)

/-- The number without its trailing zeros, and how many there were. -/
def dropZeros : Nat → Nat → Nat × Nat
  | 0, n => (n, 0)
  | fuel + 1, n =>
    if n ≠ 0 ∧ n % 10 = 0 then
      let (rest, count) := dropZeros fuel (n / 10)
      (rest, count + 1)
    else (n, 0)

/-- The fewest digits that read back as a value, nearest to it, without trailing zeros. -/
def shortest (x : Double) : Decimal :=
  if x.isZero then ⟨0, 0⟩
  else
    let (num, den) := x.ratio
    let start : Int := ((num.log2 : Int) - (den.log2 : Int)) * 30103 / 100000 - 1
    let top := magnitude num den 5 start
    match firstGrid x.interval (x.exponent - 2) top 17 1 with
    | some found =>
      let (digits, zeros) := dropZeros 18 found.digits
      ⟨digits, found.exponent + zeros⟩
    | none => ⟨0, 0⟩

end Double

end EditorHost.Json
