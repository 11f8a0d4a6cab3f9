import EditorHost.Json.Tree

/-!
# The parts of a text that are looked at

A reader that knows its fields skips the others, and a part that is skipped may be nested to any
depth, hold numerals beyond every number, and repeat fields.  In a record that is looked at, a field
may stand only once.  A `Shape` says which parts those are; `Shape.read` gives the value of a tree
without the parts that are skipped.
-/

namespace EditorHost.Json

/-- What a reader looks at. -/
inductive Shape where
  /-- All of a value. -/
  | any
  /-- The given fields of a record. -/
  | record (fields : List (String × Shape))
  /-- Every item of a list. -/
  | listOf (item : Shape)
  /-- An object all of whose values are texts; the last value of a name counts, but the others have
  to be texts too. -/
  | texts

/-- The fields of a record of which no name stands twice. -/
def distinctFields (fields : List (String × Json)) : Option (List (String × Json)) :=
  if (fields.map Prod.fst).Nodup then some fields else none

/-- The fields of an object all of whose values are texts. -/
def readTexts : List (Option String × Tree) → Option (List (String × Json))
  | [] => some []
  | (some name, .text (some s)) :: rest => (readTexts rest).map ((name, .text s) :: ·)
  | _ => none

mutual
/-- The value of a tree without the parts that a shape skips, with at most `depth` arrays and
objects open at once. -/
def Shape.read (depth : Nat) (shape : Shape) : Tree → Option Json
  | .object fields =>
    match shape, depth with
    | .record known, depth + 1 =>
      ((readKnown depth known fields).bind distinctFields).map Json.ofFields
    | .texts, _ + 1 => (readTexts fields).map Json.ofFields
    | _, _ => Tree.value? depth (.object fields)
  | .array items =>
    match shape, depth with
    | .record known, depth + 1 => (readEach depth (known.map Prod.snd) items).map .array
    | .listOf item, depth + 1 => (readAll depth item items).map .array
    | _, _ => Tree.value? depth (.array items)
  | .null => some .null
  | .bool b => some (.bool b)
  | .number n => n.map .number
  | .text s => s.map .text

/-- The fields of an object that a record knows. -/
def readKnown (depth : Nat) (known : List (String × Shape)) :
    List (Option String × Tree) → Option (List (String × Json))
  | [] => some []
  | (none, _) :: _ => none
  | (some name, value) :: rest =>
    match Table.find? known name with
    | some shape => do
      return (name, ← Shape.read depth shape value) :: (← readKnown depth known rest)
    | none => readKnown depth known rest

/-- The items of an array in the place of a record, each by the shape of its field. -/
def readEach (depth : Nat) (shapes : List Shape) : List Tree → Option (List Json)
  | [] => some []
  | item :: rest => do
    return (← Shape.read depth (shapes.head?.getD .any) item) :: (← readEach depth shapes.tail rest)

/-- The items of an array, all by one shape. -/
def readAll (depth : Nat) (shape : Shape) : List Tree → Option (List Json)
  | [] => some []
  | item :: rest => do
    return (← Shape.read depth shape item) :: (← readAll depth shape rest)
end

/-- The value of a JSON text without the parts that a shape skips. -/
def Shape.parse? (shape : Shape) (text : String) : Option Json :=
  Tree.parse? text.toList >>= shape.read maxDepth

end EditorHost.Json
