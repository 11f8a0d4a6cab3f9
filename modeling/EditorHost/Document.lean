import EditorHost.Feature.Answer
import EditorHost.Text.Lines

/-!
# Open documents

Each document that is open is tracked under its URI.  A document is an object: whoever holds its
number sees every later change, until it is closed; a document that is opened again is another
object.

The version of an object never decreases.  Versions have 32 bits with sign, and the greatest one is
followed by itself.
-/

namespace EditorHost

open Json (Slot slots)

/-- A change of a document as the editor reports it; without a range it is the whole text. -/
structure ContentChange where
  range : Option Range := none
  text : String
  deriving DecidableEq, Repr, Inhabited

namespace ContentChange

def toJson (c : ContentChange) : Json :=
  .ofFields (Json.field? "range" (c.range.map Range.toJson) ++ [("text", .text c.text)])

def read (v : Json) : Option ContentChange :=
  match slots ["range", "text"] v with
  | some [range, text] => do
    return ⟨← range.optional Range.read, ← text.required Json.asText?⟩
  | _ => none

end ContentChange

/-- A document: its URI and what it was last said to be. -/
structure Document where
  uri : String
  language : String
  version : Int
  text : String
  deriving DecidableEq, Repr, Inhabited

/-- The number of a document object. -/
abbrev DocumentId := Nat

namespace Document

def greatestVersion : Int := 2147483647

/-- The version behind another one. -/
def nextVersion (version : Int) : Int := if version < greatestVersion then version + 1 else version

def lineCount (d : Document) : Nat := max (Text.lines d.text).length 1

/-- A line without its terminator. -/
def lineAt? (d : Document) (line : Nat) : Option String := (Text.lines d.text)[line]?

def toJson (d : Document) : Json :=
  .ofFields [("uri", .text d.uri), ("languageId", .text d.language), ("version", .whole d.version),
    ("text", .text d.text)]

end Document

/-- All document objects ever made, and which one is tracked under each URI. -/
structure DocumentStore where
  objects : List Document := []
  tracked : Table DocumentId := []
  deriving Repr, Inhabited

namespace DocumentStore

def object? (s : DocumentStore) (id : DocumentId) : Option Document := s.objects[id]?

/-- The object tracked under a URI. -/
def find? (s : DocumentStore) (uri : String) : Option DocumentId := s.tracked.find? uri

/-- The tracked document of a URI. -/
def get? (s : DocumentStore) (uri : String) : Option Document := (s.find? uri).bind s.object?

/-- Changes a document object. -/
def modify (s : DocumentStore) (id : DocumentId) (f : Document → Document) : DocumentStore :=
  { s with objects := s.objects.modify id f }

/-- Tracks a document; one that is open already is updated in place.  Tells whether it was
opened. -/
def openDocument (s : DocumentStore) (uri language text : String) (version : Int) :
    (DocumentId × Bool) × DocumentStore :=
  match s.find? uri with
  | some id =>
    ((id, false), s.modify id fun d =>
      { d with language, text, version := max version (Document.nextVersion d.version) })
  | none =>
    let id := s.objects.length
    ((id, true), ⟨s.objects ++ [⟨uri, language, version, text⟩], s.tracked.insert uri id⟩)

/-- Gives a tracked document a new text. -/
def change (s : DocumentStore) (uri text : String) : Option DocumentId × DocumentStore :=
  match s.find? uri with
  | some id =>
    (some id, s.modify id fun d => { d with text, version := Document.nextVersion d.version })
  | none => (none, s)

/-- Forgets a document, and gives what it last was. -/
def close (s : DocumentStore) (uri : String) : Option Document × DocumentStore :=
  (s.get? uri, { s with tracked := s.tracked.erase uri })

/-- The tracked documents, by URI. -/
def all (s : DocumentStore) : List Document := s.tracked.values.filterMap s.object?

end DocumentStore

end EditorHost
