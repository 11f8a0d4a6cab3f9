import EditorHost.Json.Value
import EditorHost.Text.Split

/-!
# Values at the end of a route

A settings tree is read and written by keys such as `editor.tabSize`.  A key stands for its route,
the parts between its dots, and a route leads through the fields of nested objects.

## Contents

* `at?` and `put?` look a route up and give it a value.  `put?` makes the objects that are missing
  on the way and fails, changing nothing, when it meets a value that is not an object.
* `merge` lays one tree over another.
* `expandDots` turns fields whose names hold dots into nested objects.
-/

namespace EditorHost.Json

/-- The parts of a key between its dots. -/
def route (key : String) : List String := Text.splitText '.' key

/-- The value at the end of a route. -/
def at? (v : Json) : List String → Option Json
  | [] => some v
  | part :: rest => (v.get? part).bind fun child => child.at? rest

/-- The tree with a value at the end of a route; `none` when a value on the way is not an object. -/
def put? (v : Json) (value : Json) : List String → Option Json
  | [] => some value
  | part :: rest =>
    match v with
    | .object fields =>
      (put? ((Table.find? fields part).getD .empty) value rest).map fun child =>
        .object (Table.insert fields part child)
    | _ => none

/-- The value of a key; the empty key has the whole tree. -/
def lookup? (v : Json) (key : String) : Option Json :=
  if key = "" then some v else v.at? (route key)

/-! ## Merging -/

mutual
/-- A tree laid over another: objects are merged field by field, and any other value of the upper
tree takes the place of the lower one. -/
def merge (lower : Json) : (upper : Json) → Json
  | .object upper =>
    match lower with
    | .object lower => .object (mergeFields lower upper)
    | _ => .object upper
  | upper => upper

/-- Fields laid over the fields of an object. -/
def mergeFields (lower : List (String × Json)) :
    (upper : List (String × Json)) → List (String × Json)
  | [] => lower
  | (name, value) :: rest =>
    let merged := match Table.find? lower name with
      | some old => merge old value
      | none => value
    mergeFields (Table.insert lower name merged) rest
end

/-! ## Dotted names -/

/-- Moves the field of a dotted name into the object named before the first dot.  A value already
there that is not an object stays, and the field is lost. -/
def moveField (fields : Table Json) (name : String) (value : Json) : Table Json :=
  match Text.splitTextOnce '.' name with
  | none => fields
  | some (first, rest) =>
    let others := fields.erase name
    match others.find? first with
    | none => others.insert first (.object [(rest, value)])
    | some (.object inner) => others.insert first (.object (Table.insert inner rest value))
    | some _ => others

/-- Moves every dotted field of an object one level down, in the order of their names. -/
def moveFields (fields : Table Json) : Table Json :=
  (fields.filter fun field => field.1.toList.contains '.').foldl
    (fun moved field => moveField moved field.1 field.2) fields

/-- Moves dotted fields down, through at most the given number of levels. -/
def expandLevels : Nat → Json → Json
  | levels + 1, .object fields =>
    .object (Table.mapValues (moveFields fields) (expandLevels levels))
  | _, v => v

mutual
/-- A bound on the levels of a tree once its dotted names are expanded: every character of a name
counts, and every field once more. -/
def reach : Json → Nat
  | .object fields => reachFields fields + 1
  | _ => 0

def reachFields : List (String × Json) → Nat
  | [] => 0
  | (name, value) :: rest => name.length + 1 + reach value + reachFields rest
end

/-- The tree without dotted names: `"a.b": v` becomes a field `b` of the object `a`.  Arrays and
what is in them stay as they are. -/
def expandDots (v : Json) : Json := expandLevels v.reach v

end EditorHost.Json
