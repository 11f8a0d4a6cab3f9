import EditorHost.Text.Utf8

/-!
# Percent-encoding

Letters, digits and `- _ . ~` stand for themselves; every other octet is written as a percent sign
and two hexadecimal digits in upper case.  Reading is lenient: a percent sign that two hexadecimal
digits do not follow stands for itself.  What was read has to be UTF-8.
-/

namespace EditorHost.Percent

/-- Whether an octet stands for itself. -/
def isBare (octet : UInt8) : Bool :=
  let c := Char.ofNat octet.toNat
  octet < 0x80 && (c.isAlphanum || c == '-' || c == '_' || c == '.' || c == '~')

/-- The hexadecimal digit of a number below 16, in upper case. -/
def hexChar (n : Nat) : Char := if n < 10 then Char.ofNat (48 + n) else Char.ofNat (55 + n)

def hexValue? (octet : UInt8) : Option Nat :=
  let b := octet.toNat
  if 48 ≤ b ∧ b ≤ 57 then some (b - 48)
  else if 65 ≤ b ∧ b ≤ 70 then some (b - 55)
  else if 97 ≤ b ∧ b ≤ 102 then some (b - 87)
  else none

/-- An octet as it is written. -/
def encodeOctet (octet : UInt8) : List Char :=
  if isBare octet then [Char.ofNat octet.toNat]
  else ['%', hexChar (octet.toNat / 16), hexChar (octet.toNat % 16)]

/-- Octets as they are written. -/
def encode (octets : List UInt8) : List Char := octets.flatMap encodeOctet

/-- The octets that octets of text stand for. -/
def decodeOctets : List UInt8 → List UInt8
  | [] => []
  | 37 :: a :: b :: rest =>
    match hexValue? a, hexValue? b with
    | some high, some low => UInt8.ofNat (high * 16 + low) :: decodeOctets rest
    | _, _ => 37 :: decodeOctets (a :: b :: rest)
  | octet :: rest => octet :: decodeOctets rest

/-- The text that an encoded text stands for; `none` when that is not UTF-8. -/
def decode? (text : String) : Option String := Utf8.decode? (decodeOctets (Utf8.encode text))

end EditorHost.Percent
