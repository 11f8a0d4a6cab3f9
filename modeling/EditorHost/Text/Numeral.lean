/-!
# Numbers written in text

Decimal numbers as headers and identifiers hold them: an optional sign and at least one ASCII digit.
-/

namespace EditorHost.Text

/-- The number that digits write; `none` without digits or with anything else. -/
def readDigits? (cs : List Char) : Option Nat :=
  if cs.isEmpty || !cs.all Char.isDigit then none
  else some (cs.foldl (fun n c => n * 10 + (c.toNat - '0'.toNat)) 0)

/-- The least number that is too great for a whole number of 64 bits, `2 ^ 63`. -/
def int64Bound : Nat := 9223372036854775808

/-- A natural number of 64 bits; a plus sign may stand before it. -/
def readNat64? (cs : List Char) : Option Nat :=
  let digits := match cs with
    | '+' :: rest => rest
    | cs => cs
  (readDigits? digits).filter (· < 2 * int64Bound)

/-- A whole number of 64 bits with an optional sign. -/
def readInt64? (cs : List Char) : Option Int :=
  match cs with
  | '-' :: rest => ((readDigits? rest).filter (· ≤ int64Bound)).map fun n => -(n : Int)
  | '+' :: rest => ((readDigits? rest).filter (· < int64Bound)).map fun n => (n : Int)
  | rest => ((readDigits? rest).filter (· < int64Bound)).map fun n => (n : Int)

end EditorHost.Text
