import EditorHost.Diagnostic

/-!
# Events for the user interface

The host tells the user interface what to show by events: diagnostics of a document, messages, the
visible status bar items, and that the set of extensions changed.  An event is written as an object
with its type and, where there is something to say, a payload.
-/

namespace EditorHost

open Json (Slot slots field?)

inductive MessageKind where
  | error
  | warning
  | info
  | log
  deriving DecidableEq, Repr, Inhabited

/-- The side of the status bar that an item stands on. -/
inductive Side where
  | left
  | right
  deriving DecidableEq, Repr, Inhabited

/-- A status bar item as it is shown. -/
structure StatusItem where
  id : String
  extension : String
  text : String
  tooltip : Option String := none
  side : Side
  priority : Int
  deriving DecidableEq, Repr, Inhabited

inductive Event where
  /-- The diagnostics of a document from one source, in place of earlier ones. -/
  | diagnostics (uri source : String) (found : List Diagnostic)
  | extensionsChanged
  | showMessage (kind : MessageKind) (text : String) (actions : List String)
  | statusBarUpdate (items : List StatusItem)
  deriving DecidableEq, Repr, Inhabited

namespace MessageKind

def name : MessageKind → String
  | .error => "error"
  | .warning => "warning"
  | .info => "info"
  | .log => "log"

/-- The name as it stands in a description. -/
def title : MessageKind → String
  | .error => "Error"
  | .warning => "Warning"
  | .info => "Info"
  | .log => "Log"

/-- The kind that a language server means by a number. -/
def ofNumber : Nat → MessageKind
  | 1 => .error
  | 2 => .warning
  | 3 => .info
  | _ => .log

def toJson (k : MessageKind) : Json := .text k.name

def read (filler : Json.Filler) (v : Json) : Option MessageKind :=
  Json.readName filler ([error, warning, info, log].map fun k => (k.name, k)) v

end MessageKind

namespace Side

def name : Side → String
  | .left => "left"
  | .right => "right"

def toJson (s : Side) : Json := .text s.name

def read (filler : Json.Filler) (v : Json) : Option Side :=
  Json.readName filler ([left, right].map fun s => (s.name, s)) v

end Side

namespace StatusItem

def toJson (i : StatusItem) : Json :=
  .ofFields <|
    [("id", .text i.id), ("extensionId", .text i.extension), ("text", .text i.text)] ++
    field? "tooltip" (i.tooltip.map .text) ++
    [("alignment", i.side.toJson), ("priority", .whole i.priority)]

def read (filler : Json.Filler) (v : Json) : Option StatusItem :=
  match slots ["id", "extensionId", "text", "tooltip", "alignment", "priority"] v with
  | some [id, extension, text, tooltip, side, priority] => do
    return {
      id := ← id.required Json.asText?
      extension := ← extension.required Json.asText?
      text := ← text.required Json.asText?
      tooltip := ← tooltip.optional Json.asText?
      side := ← side.required (Side.read filler)
      priority := ← priority.required Json.readInt32 }
  | _ => none

end StatusItem

namespace Event

/-- What an event says, in words. -/
def description : Event → String
  | .diagnostics uri source found =>
    s!"{found.length} diagnostics for {uri} from {source}"
  | .extensionsChanged => "Extensions changed"
  | .showMessage kind text _ => s!"Show {kind.title} message: {text}"
  | .statusBarUpdate items => s!"Status bar updated ({items.length} items)"

/-- An event with a payload. -/
def tagged (type : String) (payload : List (String × Json)) : Json :=
  .ofFields [("type", .text type), ("payload", .ofFields payload)]

def toJson : Event → Json
  | .diagnostics uri source found =>
    tagged "diagnostics" [("uri", .text uri), ("source", .text source),
      ("diagnostics", .array (found.map Diagnostic.toJson))]
  | .extensionsChanged => .ofFields [("type", .text "extensionsChanged")]
  | .showMessage kind text actions =>
    tagged "showMessage" [("kind", kind.toJson), ("text", .text text),
      ("actions", .ofTexts actions)]
  | .statusBarUpdate items =>
    tagged "statusBarUpdate" [("items", .array (items.map StatusItem.toJson))]

/-- The fields of a payload, which has to be an object. -/
def payloadSlots (names : List String) (payload : Option Json) : Option (List Slot) :=
  match payload with
  | some (.object fields) => slots names (.object fields)
  | _ => none

/-- The event of a type with a payload. -/
def ofTagged (filler : Json.Filler) (type : String) (payload : Option Json) : Option Event :=
  if type = "diagnostics" then
    match payloadSlots ["uri", "source", "diagnostics"] payload with
    | some [uri, source, found] => do
      return .diagnostics (← uri.required Json.asText?) (← source.required Json.asText?)
        (← found.required (Json.readList (Diagnostic.read filler)))
    | _ => none
  else if type = "extensionsChanged" then
    match payload with
    | none | some .null => some .extensionsChanged
    | _ => none
  else if type = "showMessage" then
    match payloadSlots ["kind", "text", "actions"] payload with
    | some [kind, text, actions] => do
      return .showMessage (← kind.required (MessageKind.read filler))
        (← text.required Json.asText?) (← actions.required (Json.readList Json.asText?))
    | _ => none
  else if type = "statusBarUpdate" then
    match payloadSlots ["items"] payload with
    | some [items] => do
      return .statusBarUpdate (← items.required (Json.readList (StatusItem.read filler)))
    | _ => none
  else none

/-- The type of an event. -/
def readType (v : Json) : Option String :=
  let types := ["diagnostics", "extensionsChanged", "showMessage", "statusBarUpdate"]
  Json.readName .null (types.map fun type => (type, type)) v

/-- Reads an event: an object, or its type and payload as an array.  In an object the payload comes
first, so it is put aside until the type is known. -/
def read : Json → Option Event
  | .object fields => do
    let type ← (Table.find? fields "type").bind readType
    ofTagged .nullOrEmpty type (Table.find? fields "payload")
  | .array [.text type, payload] => ofTagged .null type (some payload)
  | _ => none

end Event

end EditorHost
