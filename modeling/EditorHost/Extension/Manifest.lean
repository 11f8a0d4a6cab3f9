import EditorHost.Disk
import EditorHost.Fault
import EditorHost.Json.Shape
import EditorHost.Json.Slots
import EditorHost.Text.Blank

/-!
# Manifests of extensions

An extension is a directory with a file `package.json`, of which the host looks at the fields below.
The extension is known by its publisher and name, which it has to declare; the events that activate
it are declared, or follow from the commands and languages that it contributes.
-/

namespace EditorHost

open Json (Slot Shape slots field?)

/-- A command that an extension adds to the menus. -/
structure CommandEntry where
  command : String
  title : String := ""
  category : Option String := none
  deriving DecidableEq, Repr, Inhabited

/-- A language that an extension is for. -/
structure LanguageEntry where
  id : String
  extensions : List String := []
  aliases : List String := []
  deriving DecidableEq, Repr, Inhabited

/-- What an extension adds to the editor. -/
structure Contributions where
  commands : List CommandEntry := []
  languages : List LanguageEntry := []
  /-- Schemas of settings: one object, or an array of them. -/
  configuration : Option Json := none
  deriving DecidableEq, Repr, Inhabited

structure Manifest where
  publisher : String := ""
  name : String := ""
  version : String := "0.0.0"
  displayName : Option String := none
  description : Option String := none
  /-- The entry module; an extension without one only declares things. -/
  main : Option String := none
  activationEvents : List String := []
  engines : Table String := []
  contributes : Contributions := {}
  deriving DecidableEq, Repr, Inhabited

/-- An event that may activate extensions. -/
inductive ActivationEvent where
  | always
  | onStartupFinished
  | onLanguage (id : String)
  | onCommand (name : String)
  | workspaceContains (pattern : String)
  | other (text : String)
  deriving DecidableEq, Repr, Inhabited

/-- The event of a text. -/
def ActivationEvent.ofText (text : String) : ActivationEvent :=
  if text = "*" then .always
  else if text = "onStartupFinished" then .onStartupFinished
  else
    match Text.splitTextOnce ':' text with
    | some ("onLanguage", id) => .onLanguage id
    | some ("onCommand", name) => .onCommand name
    | some ("workspaceContains", pattern) => .workspaceContains pattern
    | _ => .other text

namespace CommandEntry

def toJson (c : CommandEntry) : Json :=
  .ofFields ([("command", .text c.command), ("title", .text c.title)] ++
    field? "category" (c.category.map .text))

def read (v : Json) : Option CommandEntry :=
  match slots ["command", "title", "category"] v with
  | some [command, title, category] => do
    return ⟨← command.required Json.asText?, ← title.orElse Json.asText? "",
      ← category.omittable Json.asText?⟩
  | _ => none

end CommandEntry

namespace LanguageEntry

def toJson (l : LanguageEntry) : Json :=
  .ofFields [("id", .text l.id), ("extensions", .ofTexts l.extensions),
    ("aliases", .ofTexts l.aliases)]

def read (v : Json) : Option LanguageEntry :=
  match slots ["id", "extensions", "aliases"] v with
  | some [id, extensions, aliases] => do
    return ⟨← id.required Json.asText?, ← extensions.orElse (Json.readList Json.asText?) [],
      ← aliases.orElse (Json.readList Json.asText?) []⟩
  | _ => none

end LanguageEntry

namespace Contributions

def toJson (c : Contributions) : Json :=
  .ofFields ([("commands", .array (c.commands.map CommandEntry.toJson)),
    ("languages", .array (c.languages.map LanguageEntry.toJson))] ++
    field? "configuration" c.configuration)

def read (v : Json) : Option Contributions :=
  match slots ["commands", "languages", "configuration"] v with
  | some [commands, languages, configuration] => do
    return ⟨← commands.orElse (Json.readList CommandEntry.read) [],
      ← languages.orElse (Json.readList LanguageEntry.read) [],
      ← configuration.omittable some⟩
  | _ => none

end Contributions

namespace Manifest

/-- The file of an extension's directory that holds its manifest. -/
def fileName : String := "package.json"

def toJson (m : Manifest) : Json :=
  .ofFields <|
    [("publisher", .text m.publisher), ("name", .text m.name), ("version", .text m.version)] ++
    field? "displayName" (m.displayName.map .text) ++
    field? "description" (m.description.map .text) ++
    field? "main" (m.main.map .text) ++
    [("activationEvents", .ofTexts m.activationEvents),
      ("engines", .object (m.engines.mapValues .text)),
      ("contributes", m.contributes.toJson)]

/-- The fields of a manifest, in order. -/
def names : List String :=
  ["publisher", "name", "version", "displayName", "description", "main", "activationEvents",
    "engines", "contributes"]

def read (v : Json) : Option Manifest :=
  match slots names v with
  | some [publisher, name, version, displayName, description, main, events, engines,
      contributes] => do
    return {
      publisher := ← publisher.orElse Json.asText? ""
      name := ← name.orElse Json.asText? ""
      version := ← version.orElse Json.asText? "0.0.0"
      displayName := ← displayName.omittable Json.asText?
      description := ← description.omittable Json.asText?
      main := ← main.omittable Json.asText?
      activationEvents := ← events.orElse (Json.readList Json.asText?) []
      engines := ← engines.orElse (Json.readTable Json.asText?) []
      contributes := ← contributes.orElse Contributions.read {} }
  | _ => none

/-- What is looked at in the text of a manifest. -/
def shape : Shape :=
  .record [("publisher", .any), ("name", .any), ("version", .any), ("displayName", .any),
    ("description", .any), ("main", .any), ("activationEvents", .any), ("engines", .texts),
    ("contributes", .record [
      ("commands", .listOf (.record [("command", .any), ("title", .any), ("category", .any)])),
      ("languages", .listOf (.record [("id", .any), ("extensions", .any), ("aliases", .any)])),
      ("configuration", .any)])]

/-- Whether a manifest says whose extension it is and how it is called. -/
def isComplete (m : Manifest) : Bool :=
  !Text.isBlankText m.publisher && !Text.isBlankText m.name

/-- Reads the text of a manifest. -/
def parse (text : String) : Except Fault Manifest :=
  match shape.parse? text >>= read with
  | none => .error (.manifest "Invalid package.json: malformed text")
  | some m =>
    if m.isComplete then .ok m
    else .error (.manifest "package.json must declare both publisher and name")

/-- Reads the manifest of a directory. -/
def ofFolder (disk : Disk) (dir : Path) : Except Fault Manifest :=
  let file := dir.join fileName
  match disk.readText file with
  | .ok text => parse text
  | .error e => .error (.manifest s!"Cannot read {file.text}: {e.message}")

/-- The identifier of the extension. -/
def id (m : Manifest) : String := s!"{m.publisher}.{m.name}"

/-- The name that is shown. -/
def label (m : Manifest) : String := m.displayName.getD m.name

/-- Whether a declared event covers one that happens. -/
def covers (workspaceOpen : Bool) (wanted declared : ActivationEvent) : Bool :=
  match declared with
  | .always => true
  | .workspaceContains _ => workspaceOpen
  | other => other == wanted

/-- Whether the extension is activated by an event.  A command or language that it contributes
counts as if the matching event were declared. -/
def activatesOn (m : Manifest) (event : String) (workspaceOpen : Bool) : Bool :=
  let wanted := ActivationEvent.ofText event
  m.activationEvents.any (fun declared => covers workspaceOpen wanted (.ofText declared)) ||
    match wanted with
    | .onCommand name => m.contributes.commands.any fun c => c.command == name
    | .onLanguage id => m.contributes.languages.any fun l => l.id == id
    | _ => false

/-- The schemas of settings. -/
def schemas (m : Manifest) : List Json :=
  match m.contributes.configuration with
  | some (.array items) => items
  | some (.object fields) => [.object fields]
  | _ => []

/-- The settings that the extension declares with a default, schema by schema. -/
def defaults (m : Manifest) : List (String × Json) :=
  m.schemas.flatMap fun schema =>
    match schema.get? "properties" with
    | some (.object properties) =>
      properties.filterMap fun (key, property) => (property.get? "default").map (key, ·)
    | _ => []

end Manifest

end EditorHost
