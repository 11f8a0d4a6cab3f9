import EditorHost.Diagnostic
import EditorHost.Feature.Answer
import EditorHost.Json.Printer

/-!
# What servers answer

Servers answer the same request in several forms: one location or a list of them, a list of
completions or an object around it, text in three kinds of markup.  The readers of this module bring
all forms into one and never fail as a whole: what is not understood is left out.

Numbers of lines, characters and kinds are taken modulo `2 ^ 32`.
-/

namespace EditorHost.Rpc.Payload

/-- A natural number, of which the lowest 32 bits count. -/
def word (v : Json) : Option Nat := v.asNat?.map (· % 4294967296)

/-- A field read by a given reader. -/
def field? (v : Json) (key : String) (read : Json → Option α) : Option α := (v.get? key).bind read

def position? (v : Json) : Option Position := do
  return ⟨← field? v "line" word, ← field? v "character" word⟩

def range? (v : Json) : Option Range := do
  return ⟨← field? v "start" position?, ← field? v "end" position?⟩

def location? (v : Json) : Option Location := do
  return ⟨← field? v "uri" Json.asText?, ← field? v "range" range?⟩

/-- A link to a location; the range to select counts if it is there at all. -/
def link? (v : Json) : Option Location := do
  let uri ← field? v "targetUri" Json.asText?
  let range ← (v.get? "targetSelectionRange").or (v.get? "targetRange")
  return ⟨uri, ← range? range⟩

def locationOrLink? (v : Json) : Option Location := (location? v).or (link? v)

/-- Locations: a list of locations and links, or one of them. -/
def locations : Json → List Location
  | .array items => items.filterMap locationOrLink?
  | .object fields => (locationOrLink? (.object fields)).toList
  | _ => []

/-- A text, or code with its language as a fenced block. -/
def markedText? (v : Json) : Option String :=
  match v with
  | .text s => some s
  | v => do
    let code ← field? v "value" Json.asText?
    let language := (v.textField? "language").getD "text"
    return s!"```{language}\n{code}\n```"

/-- Markup: a text, an object that names its kind, code, or a list of texts and code. -/
def markup (v : Json) : Markup :=
  match v with
  | .text s => .plaintext s
  | .array items => .markdown ("\n\n".intercalate (items.filterMap markedText?))
  | .object fields =>
    match (Json.object fields).textField? "kind", (Json.object fields).textField? "value" with
    | some kind, some value => ⟨kind, value⟩
    | _, _ =>
      match markedText? (.object fields) with
      | some text => .markdown text
      | none => .plaintext ""
  | _ => .plaintext ""

/-- A hover that has something to show. -/
def hover? (v : Json) : Option Hover := do
  let contents := markup (← v.get? "contents")
  if contents.value = "" then none else return ⟨contents, field? v "range" range?⟩

def textEdit? (v : Json) : Option TextEdit := do
  return ⟨← field? v "range" range?, ← field? v "newText" Json.asText?⟩

def textEdits (v : Json) : List TextEdit := (v.asArray?.getD []).filterMap textEdit?

def completionItem? (v : Json) : Option CompletionItem := do
  return {
    label := ← v.textField? "label"
    kind := field? v "kind" word
    detail := v.textField? "detail"
    documentation := (v.get? "documentation").map markup
    insertText := v.textField? "insertText"
    insertTextFormat := field? v "insertTextFormat" word
    sortText := v.textField? "sortText"
    filterText := v.textField? "filterText"
    textEdit := field? v "textEdit" textEdit? }

/-- Completions: a list of items, or an object around it. -/
def completionList (v : Json) : CompletionList :=
  match v with
  | .array items => ⟨false, items.filterMap completionItem?⟩
  | v => ⟨(field? v "isIncomplete" Json.asBool?).getD false,
      ((field? v "items" Json.asArray?).getD []).filterMap completionItem?⟩

/-- The edits of one document, behind those that a URI already has. -/
def appendEdits (changes : Table (List TextEdit)) (uri : String) (edits : List TextEdit) :
    Table (List TextEdit) :=
  changes.insert uri ((changes.find? uri).getD [] ++ edits)

/-- Adds an entry of a list of versioned document edits. -/
def addDocumentChange (changes : Table (List TextEdit)) (change : Json) : Table (List TextEdit) :=
  match (change.get? "textDocument").bind fun document => document.textField? "uri" with
  | some uri => appendEdits changes uri (((change.get? "edits").map textEdits).getD [])
  | none => changes

/-- An edit of several documents, written by URI, as a list of document edits, or as both. -/
def workspaceEdit (v : Json) : WorkspaceEdit :=
  let direct := ((field? v "changes" Json.asObject?).getD []).mapValues textEdits
  ⟨((field? v "documentChanges" Json.asArray?).getD []).foldl addDocumentChange direct⟩

/-- The code of a diagnostic: a text, or a number as it is written. -/
def code? : Json → Option String
  | .text s => some s
  | .number n => some (Json.number n).compact
  | _ => none

def diagnostic? (v : Json) : Option Diagnostic := do
  return {
    range := ← field? v "range" range?
    severity := ((field? v "severity" Json.asNat?).map Severity.ofNumber).getD .error
    message := ← v.textField? "message"
    source := v.textField? "source"
    code := field? v "code" code? }

/-- The diagnostics that a server publishes for a document. -/
def publishDiagnostics? (v : Json) : Option (String × List Diagnostic) := do
  let uri ← v.textField? "uri"
  return (uri, ((field? v "diagnostics" Json.asArray?).getD []).filterMap diagnostic?)

end EditorHost.Rpc.Payload
