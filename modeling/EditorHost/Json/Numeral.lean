import EditorHost.Json.Value

/-!
# The number that a numeral denotes

A numeral without fraction and exponent that fits 64 bits is a whole number; every other numeral is
a binary64 number.  The latter is computed as a significand of 64 bits times a power of ten: digits
that no longer fit are dropped, the significand is rounded to binary64, and so is its product with
the power of ten.  The result may therefore differ from the nearest value in the last place, and two
numerals of the same real number may denote different values.
-/

namespace EditorHost.Json

/-- The greatest significand. -/
def maxSignificand : Nat := 18446744073709551615

/-- A numeral, cut into its parts. -/
structure Numeral where
  negative : Bool
  whole : List Nat
  fraction : Option (List Nat)
  /-- Whether the exponent is negative, and its digits. -/
  exponent : Option (Bool × List Nat)
  deriving Repr

/-- A significand, the power of ten that goes with it, and whether digits were dropped. -/
structure Accumulator where
  significand : Nat
  exponent : Int
  full : Bool

namespace Accumulator

/-- Takes a digit before the point: once one does not fit, the rest only count. -/
def pushWhole (a : Accumulator) (digit : Nat) : Accumulator :=
  let next := a.significand * 10 + digit
  if a.full ∨ maxSignificand < next then { a with exponent := a.exponent + 1, full := true }
  else { a with significand := next }

/-- Takes a digit after the point: once one does not fit, the rest are dropped. -/
def pushFraction (a : Accumulator) (digit : Nat) : Accumulator :=
  let next := a.significand * 10 + digit
  if a.full ∨ maxSignificand < next then { a with full := true }
  else { a with significand := next, exponent := a.exponent - 1 }

end Accumulator

namespace Double

/-- The value nearest to `10 ^ n`. -/
def powerOfTen (n : Nat) : Option Double := ofNat? (Nat.pow 10 n)

/-- Divides by `10 ^ 308` until the exponent is at least `-308` or nothing is left. -/
def shrink : Nat → Double → Int → Double × Int
  | 0, x, exponent => (x, exponent)
  | fuel + 1, x, exponent =>
    if -308 ≤ exponent ∨ x.isZero then (x, exponent)
    else
      match powerOfTen 308 >>= x.div with
      | some y => shrink fuel y (exponent + 308)
      | none => (x, exponent)

/-- A significand times a power of ten; `none` when it is beyond the greatest value. -/
def ofParts (negative : Bool) (significand : Nat) (exponent : Int) : Option Double := do
  let rounded ← ofNat? significand
  let (x, exponent) := shrink 4 rounded exponent
  let magnitude ←
    if x.isZero then some x
    else if 308 < exponent then none
    else if 0 ≤ exponent then powerOfTen exponent.toNat >>= x.mul
    else powerOfTen (-exponent).toNat >>= x.div
  return if negative then magnitude.neg else magnitude

end Double

namespace Numeral

/-- The greatest exponent that is read as written. -/
def maxExponent : Nat := 2147483647

/-- The exponent of ten written by a list of digits; `none` when it is too large to read. -/
def readExponent (digits : List Nat) : Option Nat :=
  digits.foldl (fun n d => n.bind fun n =>
    if maxExponent < n * 10 + d then none else some (n * 10 + d))
    (some 0)

/-- The number that a numeral denotes; `none` when it is beyond the greatest binary64 value. -/
def value (n : Numeral) : Option Number :=
  let whole := n.whole.foldl Accumulator.pushWhole ⟨0, 0, false⟩
  let parts :=
    (n.fraction.getD []).foldl Accumulator.pushFraction { whole with full := false }
  match n.exponent with
  | some (negativeExponent, digits) =>
    match readExponent digits with
    | some e =>
      let exponent := if negativeExponent then parts.exponent - e else parts.exponent + e
      .double <$> Double.ofParts n.negative parts.significand exponent
    | none =>
      if parts.significand ≠ 0 ∧ ¬negativeExponent then none else some (.double (.zero n.negative))
  | none =>
    if n.fraction.isSome ∨ whole.full then
      .double <$> Double.ofParts n.negative parts.significand parts.exponent
    else if ¬n.negative then some (.whole whole.significand)
    else if whole.significand = 0 ∨ 9223372036854775808 < whole.significand then
      .double <$> Double.ofParts true whole.significand 0
    else some (.whole (-whole.significand))

end Numeral

end EditorHost.Json
