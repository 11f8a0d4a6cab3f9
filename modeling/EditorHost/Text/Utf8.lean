/-!
# UTF-8

The octets of a text and the text of octets.  `Utf8.decode` reads every list of octets: a maximal
part of a character that is cut short or goes on wrongly is one malformed item, written `none`.
`Utf8.decode?` accepts only octets without such items, and `Utf8.decodeLossy` puts U+FFFD in their
place.
-/

namespace EditorHost.Utf8

/-- A character of which some octets are still to come: how many, the code so far, and the range of
the next octet. -/
structure Pending where
  left : Nat
  code : Nat
  low : Nat
  high : Nat

/-- What the first octet of a character says. -/
inductive Lead where
  | character (c : Char)
  | more (pending : Pending)
  | malformed

/-- Reads the first octet of a character.  The ranges leave out overlong forms, surrogates and codes
above U+10FFFF. -/
def lead (octet : UInt8) : Lead :=
  let b := octet.toNat
  if b < 0x80 then .character (Char.ofNat b)
  else if 0xC2 ≤ b ∧ b ≤ 0xDF then .more ⟨1, b - 0xC0, 0x80, 0xBF⟩
  else if b = 0xE0 then .more ⟨2, 0, 0xA0, 0xBF⟩
  else if b = 0xED then .more ⟨2, 0xD, 0x80, 0x9F⟩
  else if 0xE1 ≤ b ∧ b ≤ 0xEF then .more ⟨2, b - 0xE0, 0x80, 0xBF⟩
  else if b = 0xF0 then .more ⟨3, 0, 0x90, 0xBF⟩
  else if 0xF1 ≤ b ∧ b ≤ 0xF3 then .more ⟨3, b - 0xF0, 0x80, 0xBF⟩
  else if b = 0xF4 then .more ⟨3, 4, 0x80, 0x8F⟩
  else .malformed

/-- The characters of a list of octets, with `none` for each malformed part. -/
def decodeFrom : Option Pending → List UInt8 → List (Option Char)
  | none, [] => []
  | some _, [] => [none]
  | none, octet :: rest =>
    match lead octet with
    | .character c => some c :: decodeFrom none rest
    | .more pending => decodeFrom (some pending) rest
    | .malformed => none :: decodeFrom none rest
  | some pending, octet :: rest =>
    let b := octet.toNat
    if pending.low ≤ b ∧ b ≤ pending.high then
      let code := pending.code * 64 + (b - 0x80)
      if pending.left ≤ 1 then some (Char.ofNat code) :: decodeFrom none rest
      else decodeFrom (some ⟨pending.left - 1, code, 0x80, 0xBF⟩) rest
    else
      match lead octet with
      | .character c => none :: some c :: decodeFrom none rest
      | .more pending => none :: decodeFrom (some pending) rest
      | .malformed => none :: none :: decodeFrom none rest

/-- The characters of a list of octets, with `none` for each malformed part. -/
def decode (octets : List UInt8) : List (Option Char) := decodeFrom none octets

/-- The text of octets that are well-formed throughout. -/
def decode? (octets : List UInt8) : Option String :=
  ((decode octets).mapM id).map String.ofList

/-- The text of octets, with U+FFFD for each malformed part. -/
def decodeLossy (octets : List UInt8) : String :=
  String.ofList ((decode octets).map fun c => c.getD '\uFFFD')

/-- The octets of a text. -/
def encode (text : String) : List UInt8 := text.toList.flatMap String.utf8EncodeChar

end EditorHost.Utf8
