import EditorHost.Json.Slots

/-!
# Positions, ranges and locations

Places in documents.  Lines and characters count from zero and fit 32 bits.
-/

namespace EditorHost

open Json (Slot slots)

/-- A place in a document. -/
structure Position where
  line : Nat
  character : Nat
  deriving DecidableEq, Repr, Inhabited

/-- The part of a document from one place up to another. -/
structure Range where
  start : Position
  finish : Position
  deriving DecidableEq, Repr, Inhabited

/-- A part of the document with a URI. -/
structure Location where
  uri : String
  range : Range
  deriving DecidableEq, Repr, Inhabited

namespace Position

def toJson (p : Position) : Json :=
  .ofFields [("line", .whole p.line), ("character", .whole p.character)]

def read (v : Json) : Option Position :=
  match slots ["line", "character"] v with
  | some [line, character] => do
    return ⟨← line.required Json.readNat32, ← character.required Json.readNat32⟩
  | _ => none

end Position

namespace Range

def toJson (r : Range) : Json :=
  .ofFields [("start", r.start.toJson), ("end", r.finish.toJson)]

def read (v : Json) : Option Range :=
  match slots ["start", "end"] v with
  | some [start, finish] => do
    return ⟨← start.required Position.read, ← finish.required Position.read⟩
  | _ => none

end Range

namespace Location

def toJson (l : Location) : Json :=
  .ofFields [("uri", .text l.uri), ("range", l.range.toJson)]

def read (v : Json) : Option Location :=
  match slots ["uri", "range"] v with
  | some [uri, range] => do
    return ⟨← uri.required Json.asText?, ← range.required Range.read⟩
  | _ => none

end Location

end EditorHost
