import EditorHost.Json.Double
import EditorHost.Table

/-!
# JSON values

The one dynamic type of the library: settings, messages of language servers, arguments of commands
and the exports of extensions are JSON values.

Whole numbers and binary64 numbers are told apart, as their texts are: `1` and `1.0` are different
values.  Whole numbers are those of 64 bits, signed or unsigned; others are read as binary64.  The
fields of an object are a `Table`, so they have one order whatever the order in the text.
-/

namespace EditorHost

open Json (Double)

/-- A number of a JSON document. -/
inductive Number where
  /-- A whole number that fits 64 bits, signed or unsigned. -/
  | whole (value : Int)
  | double (value : Double)
  deriving DecidableEq, Repr, Inhabited

/-- A JSON value. -/
inductive Json where
  | null
  | bool (value : Bool)
  | number (value : Number)
  | text (value : String)
  | array (items : List Json)
  | object (fields : List (String × Json))
  deriving Repr, Inhabited

namespace Json

/-- A whole number. -/
def whole (n : Int) : Json := .number (.whole n)

/-- The object without fields. -/
def empty : Json := .object []

/-- The object with the given fields, the last one of a name winning. -/
def ofFields (fields : List (String × Json)) : Json := .object (Table.ofList fields)

def isNull : Json → Bool
  | .null => true
  | _ => false

def isObject : Json → Bool
  | .object _ => true
  | _ => false

/-- The field of an object. -/
def get? (v : Json) (key : String) : Option Json :=
  match v with
  | .object fields => Table.find? fields key
  | _ => none

def asText? : Json → Option String
  | .text s => some s
  | _ => none

def asBool? : Json → Option Bool
  | .bool b => some b
  | _ => none

def asArray? : Json → Option (List Json)
  | .array items => some items
  | _ => none

def asObject? : Json → Option (Table Json)
  | .object fields => some fields
  | _ => none

/-- A whole number. -/
def asInt? : Json → Option Int
  | .number (.whole n) => some n
  | _ => none

/-- A whole number of 64 bits without sign. -/
def asNat? : Json → Option Nat
  | .number (.whole n) => if 0 ≤ n then some n.toNat else none
  | _ => none

/-- A whole number of 64 bits with sign. -/
def asInt64? : Json → Option Int
  | .number (.whole n) =>
    if -9223372036854775808 ≤ n ∧ n ≤ 9223372036854775807 then some n else none
  | _ => none

/-- The text of a field. -/
def textField? (v : Json) (key : String) : Option String := (v.get? key).bind asText?

/-- A text, or null for none. -/
def ofText? : Option String → Json
  | some s => .text s
  | none => .null

/-- A value, or null for none. -/
def ofOption : Option Json → Json
  | some v => v
  | none => .null

def ofTexts (texts : List String) : Json := .array (texts.map .text)

mutual
/-- Whether two values are the same. -/
def decEq : (a b : Json) → Decidable (a = b)
  | .null, .null => isTrue rfl
  | .bool a, .bool b =>
    if h : a = b then isTrue (h ▸ rfl) else isFalse fun e => h (Json.bool.inj e)
  | .number a, .number b =>
    if h : a = b then isTrue (h ▸ rfl) else isFalse fun e => h (Json.number.inj e)
  | .text a, .text b =>
    if h : a = b then isTrue (h ▸ rfl) else isFalse fun e => h (Json.text.inj e)
  | .array a, .array b =>
    match decEqItems a b with
    | isTrue h => isTrue (h ▸ rfl)
    | isFalse h => isFalse fun e => h (Json.array.inj e)
  | .object a, .object b =>
    match decEqFields a b with
    | isTrue h => isTrue (h ▸ rfl)
    | isFalse h => isFalse fun e => h (Json.object.inj e)
  | .null, .bool _ | .null, .number _ | .null, .text _ | .null, .array _ | .null, .object _
  | .bool _, .null | .bool _, .number _ | .bool _, .text _ | .bool _, .array _ | .bool _, .object _
  | .number _, .null | .number _, .bool _ | .number _, .text _ | .number _, .array _
  | .number _, .object _
  | .text _, .null | .text _, .bool _ | .text _, .number _ | .text _, .array _ | .text _, .object _
  | .array _, .null | .array _, .bool _ | .array _, .number _ | .array _, .text _
  | .array _, .object _
  | .object _, .null | .object _, .bool _ | .object _, .number _ | .object _, .text _
  | .object _, .array _ => isFalse (by simp)

/-- Whether two lists of values are the same. -/
def decEqItems : (a b : List Json) → Decidable (a = b)
  | [], [] => isTrue rfl
  | [], _ :: _ => isFalse (by simp)
  | _ :: _, [] => isFalse (by simp)
  | x :: xs, y :: ys =>
    match decEq x y, decEqItems xs ys with
    | isTrue h, isTrue hs => isTrue (h ▸ hs ▸ rfl)
    | isFalse h, _ => isFalse fun e => h (List.cons.inj e).1
    | _, isFalse h => isFalse fun e => h (List.cons.inj e).2

/-- Whether two lists of fields are the same. -/
def decEqFields : (a b : List (String × Json)) → Decidable (a = b)
  | [], [] => isTrue rfl
  | [], _ :: _ => isFalse (by simp)
  | _ :: _, [] => isFalse (by simp)
  | (k, x) :: xs, (l, y) :: ys =>
    if hk : k = l then
      match decEq x y, decEqFields xs ys with
      | isTrue h, isTrue hs => isTrue (by rw [hk, h, hs])
      | isFalse h, _ => isFalse fun e => h (Prod.mk.inj (List.cons.inj e).1).2
      | _, isFalse h => isFalse fun e => h (List.cons.inj e).2
    else isFalse fun e => hk (Prod.mk.inj (List.cons.inj e).1).1
end

instance : DecidableEq Json := decEq

end Json

end EditorHost
