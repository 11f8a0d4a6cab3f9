import EditorHost.Json.Value

/-!
# Reading records

A record of named fields is read from an object, whose other fields do not matter, or from an array
with the fields in order.  What stands in the place of a field is a `Slot`; a reader says for each
field whether it may be missing.
-/

namespace EditorHost.Json

/-- What stands in the place of a field. -/
inductive Slot where
  | given (value : Json)
  /-- The object has no such field. -/
  | missing
  /-- The array ends before the field. -/
  | beyond
  deriving Repr

/-- The slots of an array for a list of fields; it may not have more items than there are fields. -/
def itemSlots : List String → List Json → Option (List Slot)
  | [], [] => some []
  | [], _ :: _ => none
  | _ :: names, [] => (itemSlots names []).map (.beyond :: ·)
  | _ :: names, v :: rest => (itemSlots names rest).map (.given v :: ·)

/-- The slots of a value for the fields of a record. -/
def slots (names : List String) : Json → Option (List Slot)
  | .object fields =>
    some (names.map fun name =>
      match Table.find? fields name with
      | some v => .given v
      | none => .missing)
  | .array items => itemSlots names items
  | _ => none

namespace Slot

/-- A field that has to be there. -/
def required (read : Json → Option α) : Slot → Option α
  | .given v => read v
  | _ => none

/-- A field that an object may leave out, as it may be null. -/
def optional (read : Json → Option α) : Slot → Option (Option α)
  | .given .null => some none
  | .given v => (read v).map some
  | .missing => some none
  | .beyond => none

/-- A field that objects and arrays may leave out, as it may be null. -/
def omittable (read : Json → Option α) : Slot → Option (Option α)
  | .given .null => some none
  | .given v => (read v).map some
  | _ => some none

/-- A field that has a default where it is left out. -/
def orElse (read : Json → Option α) (fallback : α) : Slot → Option α
  | .given v => read v
  | _ => some fallback

end Slot

/-! ## Readers of plain values -/

/-- A whole number of 32 bits without sign. -/
def readNat32 (v : Json) : Option Nat := v.asNat?.filter (· < 4294967296)

/-- A whole number of 8 bits without sign. -/
def readNat8 (v : Json) : Option Nat := v.asNat?.filter (· < 256)

/-- A whole number of 32 bits with sign. -/
def readInt32 (v : Json) : Option Int :=
  v.asInt?.filter fun n => decide (-2147483648 ≤ n ∧ n ≤ 2147483647)

/-- A list, every item of which can be read. -/
def readList (read : Json → Option α) : Json → Option (List α)
  | .array items => items.mapM read
  | _ => none

/-- An object as a table, every value of which can be read. -/
def readTable (read : Json → Option α) : Json → Option (Table α)
  | .object fields => fields.mapM fun (name, v) => (read v).map (name, ·)
  | _ => none

/-- What may stand behind a name that is written as the only field of an object. -/
inductive Filler where
  | null
  /-- Null or an object without fields; so it is in a value that was put aside to be read later. -/
  | nullOrEmpty
  deriving DecidableEq, Repr

/-- Whether a value says nothing. -/
def Filler.allows : Filler → Json → Bool
  | _, .null => true
  | .nullOrEmpty, .object [] => true
  | _, _ => false

/-- A name out of a list, alone or as the only field of an object. -/
def readName (filler : Filler) (names : List (String × α)) : Json → Option α
  | .text s => Table.find? names s
  | .object [(s, v)] => if filler.allows v then Table.find? names s else none
  | _ => none

/-! ## Writing records -/

/-- A field that is left out when there is nothing to write. -/
def field? (name : String) (value : Option Json) : List (String × Json) :=
  match value with
  | some v => [(name, v)]
  | none => []

end EditorHost.Json
