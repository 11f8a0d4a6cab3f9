import EditorHost.Feature.Position

/-!
# Answers to queries about documents

What providers and language servers answer: hovers, completions, text edits and edits of several
documents.  Each type is written to and read from JSON.
-/

namespace EditorHost

open Json (Slot slots field?)

/-- Text to show, and whether it is `markdown` or `plaintext`. -/
structure Markup where
  kind : String
  value : String
  deriving DecidableEq, Repr, Inhabited

structure Hover where
  contents : Markup
  range : Option Range := none
  deriving DecidableEq, Repr, Inhabited

/-- The replacement of a range by a text. -/
structure TextEdit where
  range : Range
  newText : String
  deriving DecidableEq, Repr, Inhabited

structure CompletionItem where
  label : String
  kind : Option Nat := none
  detail : Option String := none
  documentation : Option Markup := none
  insertText : Option String := none
  insertTextFormat : Option Nat := none
  sortText : Option String := none
  filterText : Option String := none
  textEdit : Option TextEdit := none
  deriving DecidableEq, Repr, Inhabited

/-- Completions, and whether typing on may bring more. -/
structure CompletionList where
  isIncomplete : Bool := false
  items : List CompletionItem := []
  deriving DecidableEq, Repr, Inhabited

/-- Edits by the URI of the document that they apply to. -/
structure WorkspaceEdit where
  changes : Table (List TextEdit) := []
  deriving DecidableEq, Repr, Inhabited

structure FormattingOptions where
  tabSize : Nat := 4
  insertSpaces : Bool := true
  deriving DecidableEq, Repr, Inhabited

namespace Markup

def plaintext (value : String) : Markup := ⟨"plaintext", value⟩

def markdown (value : String) : Markup := ⟨"markdown", value⟩

def toJson (m : Markup) : Json := .ofFields [("kind", .text m.kind), ("value", .text m.value)]

def read (v : Json) : Option Markup :=
  match slots ["kind", "value"] v with
  | some [kind, value] => do
    return ⟨← kind.required Json.asText?, ← value.required Json.asText?⟩
  | _ => none

end Markup

namespace Hover

def toJson (h : Hover) : Json :=
  .ofFields (("contents", h.contents.toJson) :: field? "range" (h.range.map Range.toJson))

def read (v : Json) : Option Hover :=
  match slots ["contents", "range"] v with
  | some [contents, range] => do
    return ⟨← contents.required Markup.read, ← range.optional Range.read⟩
  | _ => none

end Hover

namespace TextEdit

def toJson (e : TextEdit) : Json :=
  .ofFields [("range", e.range.toJson), ("newText", .text e.newText)]

def read (v : Json) : Option TextEdit :=
  match slots ["range", "newText"] v with
  | some [range, newText] => do
    return ⟨← range.required Range.read, ← newText.required Json.asText?⟩
  | _ => none

end TextEdit

namespace CompletionItem

def toJson (c : CompletionItem) : Json :=
  .ofFields <|
    [("label", .text c.label)] ++
    field? "kind" (c.kind.map fun n => .whole n) ++
    field? "detail" (c.detail.map .text) ++
    field? "documentation" (c.documentation.map Markup.toJson) ++
    field? "insertText" (c.insertText.map .text) ++
    field? "insertTextFormat" (c.insertTextFormat.map fun n => .whole n) ++
    field? "sortText" (c.sortText.map .text) ++
    field? "filterText" (c.filterText.map .text) ++
    field? "textEdit" (c.textEdit.map TextEdit.toJson)

/-- The fields of an item, in order. -/
def names : List String :=
  ["label", "kind", "detail", "documentation", "insertText", "insertTextFormat", "sortText",
    "filterText", "textEdit"]

def read (v : Json) : Option CompletionItem :=
  match slots names v with
  | some [label, kind, detail, documentation, insertText, format, sortText, filterText, edit] => do
    return {
      label := ← label.required Json.asText?
      kind := ← kind.optional Json.readNat32
      detail := ← detail.optional Json.asText?
      documentation := ← documentation.optional Markup.read
      insertText := ← insertText.optional Json.asText?
      insertTextFormat := ← format.optional Json.readNat32
      sortText := ← sortText.optional Json.asText?
      filterText := ← filterText.optional Json.asText?
      textEdit := ← edit.optional TextEdit.read }
  | _ => none

end CompletionItem

namespace CompletionList

def toJson (l : CompletionList) : Json :=
  .ofFields [("isIncomplete", .bool l.isIncomplete),
    ("items", .array (l.items.map CompletionItem.toJson))]

def read (v : Json) : Option CompletionList :=
  match slots ["isIncomplete", "items"] v with
  | some [isIncomplete, items] => do
    return ⟨← isIncomplete.required Json.asBool?,
      ← items.required (Json.readList CompletionItem.read)⟩
  | _ => none

end CompletionList

namespace WorkspaceEdit

def toJson (e : WorkspaceEdit) : Json :=
  .ofFields [("changes",
    .object (e.changes.mapValues fun edits => .array (edits.map TextEdit.toJson)))]

def read (v : Json) : Option WorkspaceEdit :=
  match slots ["changes"] v with
  | some [changes] => do
    return ⟨← changes.required (Json.readTable (Json.readList TextEdit.read))⟩
  | _ => none

end WorkspaceEdit

namespace FormattingOptions

def toJson (o : FormattingOptions) : Json :=
  .ofFields [("tabSize", .whole o.tabSize), ("insertSpaces", .bool o.insertSpaces)]

def read (v : Json) : Option FormattingOptions :=
  match slots ["tabSize", "insertSpaces"] v with
  | some [tabSize, insertSpaces] => do
    return ⟨← tabSize.required Json.readNat32, ← insertSpaces.required Json.asBool?⟩
  | _ => none

end FormattingOptions

end EditorHost
