import EditorHost.Selector
import EditorHost.Text.Utf8

/-!
# Arguments of scripts

Scripts are JSON values, and their parts are read leniently: what is missing or has another form
counts as a default.  Octets are written as a text, in hexadecimal, as a repeated text, or as a list
of those.
-/

namespace EditorHost.Scenario

/-- The text of a field; the empty text by default. -/
def textOf (v : Json) (key : String) : String := (v.textField? key).getD ""

/-- The whole number of a field, or a default. -/
def intOr (fallback : Int) (v : Json) (key : String) : Int :=
  ((v.get? key).bind Json.asInt64?).getD fallback

/-- The natural number of a field, or a default. -/
def natOr (fallback : Nat) (v : Json) (key : String) : Nat :=
  ((v.get? key).bind Json.asNat?).getD fallback

def boolOf (v : Json) (key : String) : Bool := ((v.get? key).bind Json.asBool?).getD false

def listOf (v : Json) (key : String) : List Json := ((v.get? key).bind Json.asArray?).getD []

/-- The texts of a list; entries of another kind are passed over. -/
def textsOf (v : Json) (key : String) : List String := (listOf v key).filterMap Json.asText?

/-- The value of a field; null by default. -/
def valueOf (v : Json) (key : String) : Json := .ofOption (v.get? key)

/-- The fields of an object. -/
def fieldsOf (v : Json) (key : String) : List (String × Json) :=
  ((v.get? key).bind Json.asObject?).getD []

/-- The values of a list in a field, if all of them can be read. -/
def readAllOf (read : Json → Option α) (v : Json) (key : String) : List α :=
  ((v.get? key).bind (Json.readList read)).getD []

/-- The octets of pairs of hexadecimal digits. -/
def hexOctets : List Char → List UInt8
  | a :: b :: rest =>
    match digit? a, digit? b with
    | some high, some low => UInt8.ofNat (16 * high + low) :: hexOctets rest
    | _, _ => []
  | _ => []
where
  /-- The value of a hexadecimal digit. -/
  digit? (c : Char) : Option Nat :=
    if c.isDigit then some (c.toNat - '0'.toNat)
    else if 'a' ≤ c ∧ c ≤ 'f' then some (c.toNat - 'a'.toNat + 10)
    else if 'A' ≤ c ∧ c ≤ 'F' then some (c.toNat - 'A'.toNat + 10)
    else none

mutual
/-- The octets that a value stands for. -/
def octets : Json → List UInt8
  | .text s => Utf8.encode s
  | .array items => octetsOfAll items
  | .object fields =>
    match Table.find? fields "hex", Table.find? fields "repeat" with
    | some (.text digits), _ => hexOctets digits.toList
    | _, some (.array [.text s, times]) =>
      (List.replicate (times.asNat?.getD 0) (Utf8.encode s)).flatten
    | _, _ => []
  | _ => []

def octetsOfAll : List Json → List UInt8
  | [] => []
  | v :: rest => octets v ++ octetsOfAll rest
end

/-- The octets of a field. -/
def octetsOf (v : Json) (key : String) : List UInt8 := octets (valueOf v key)

mutual
/-- The selector that a script describes. -/
def selector? : Json → Option Selector
  | .object fields =>
    if let some (.text language) := Table.find? fields "lang" then some (.language language)
    else if let some filter := Table.find? fields "filter" then
      some (.filter ⟨filter.textField? "language", filter.textField? "scheme",
        filter.textField? "pattern"⟩)
    else if Table.has fields "many" then (manyIn? fields).map .many
    else if let some (.array languages) := Table.find? fields "langs" then
      some (.many ((languages.filterMap Json.asText?).map .language))
    else if Table.has fields "any" then some .any
    else Selector.read (.ofOption (Table.find? fields "json"))
  | _ => Selector.read .null

/-- The selectors in the field `many`. -/
def manyIn? : List (String × Json) → Option (List Selector)
  | [] => some []
  | (name, value) :: rest =>
    if name = "many" then
      match value with
      | .array items => selectors? items
      | _ => some []
    else manyIn? rest

def selectors? : List Json → Option (List Selector)
  | [] => some []
  | v :: rest => do return (← selector? v) :: (← selectors? rest)
end

end EditorHost.Scenario
