import EditorHost.Scenario.Stage

/-!
# Steps that are done at once

The steps of a script that do not wait: documents, listeners, settings, the window, diagnostics,
registrations, and looking at contexts.  They are also what the scripts that play pieces of code do.

A step is done in the scope of an extension, which owns what it registers.
-/

namespace EditorHost.Scenario.Step

open Stage

/-- The owner of what a step registers. -/
def ownerOf (scope : Option String) (step : Json) : String :=
  (step.textField? "ext").getD (scope.getD Api.hostOwner)

/-- The name that a step gives to something. -/
def nameOf (step : Json) : String := textOf step "as"

/-- The name in a field, or the one that the step gives. -/
def targetOf (step : Json) (key : String) : String := (step.textField? key).getD (nameOf step)

/-- The place in a document that a step is about. -/
def positionOf (step : Json) : Position :=
  let at_ := listOf step "position"
  ⟨((at_[0]?).bind Json.readNat32).getD 0, ((at_[1]?).bind Json.readNat32).getD 0⟩

/-- Remembers a handle. -/
def keep (step : Json) (handle : HandleId) : StateM Stage Json := do
  note fun s => { s with handles := s.handles.insert (nameOf step) handle }
  return .null

/-! ## Documents -/

def documentRow (d : Document) : Json :=
  .array [.text d.uri, .text d.language, .whole d.version]

/-- The version that a step states; it has 32 bits. -/
def versionOf (step : Json) : Int := Int.bmod (intOr 1 step "version") 4294967296

def documents (code : Code Script) (step : Json) : String → StateM Stage (Option Json)
  | "open" => do
    let id ← World.openDocument code (textOf step "uri") (textOf step "lang") (textOf step "text")
      (versionOf step)
    note fun s => { s with documents := s.documents.insert (nameOf step) id }
    return some (documentJson (← get) id)
  | "change" => do
    let changes := readAllOf ContentChange.read step "changes"
    match ← World.changeDocument code (textOf step "uri") changes (textOf step "text") with
    | some id => return some (documentJson (← get) id)
    | none => return some .null
  | "close" => do
    return some (.ofOption ((← World.closeDocument code (textOf step "uri")).map Document.toJson))
  | "store_open" => do
    let (id, isNew) ← World.apiPart.zoom fun api =>
      let (opened, documents) := api.documents.openDocument (textOf step "uri") (textOf step "lang")
        (textOf step "text") (versionOf step)
      (opened, { api with documents })
    note fun s => { s with documents := s.documents.insert (nameOf step) id }
    return some (.ofFields [("new", .bool isNew), ("updated", .bool !isNew),
      ("document", documentJson (← get) id)])
  | "store_change" => do
    let changed ← World.apiPart.zoom fun api =>
      let (changed, documents) := api.documents.change (textOf step "uri") (textOf step "text")
      (changed, { api with documents })
    return some (.ofOption (changed.map (documentJson (← get))))
  | "store_close" => do
    let closed ← World.apiPart.zoom fun api => api.closeDocument (textOf step "uri")
    return some (.ofOption (closed.map fun d =>
      .array [.text d.uri, .text d.language, .whole d.version, .text d.text]))
  | "documents" => do
    let store := (← get).api.documents
    let count := store.all.length
    return some (.ofFields [("all", .array (store.all.map documentRow)), ("len", .whole count),
      ("empty", .bool (count == 0)), ("contains", .bool (store.tracked.has (textOf step "uri")))])
  | "document" => do
    let w ← get
    let now := w.api.documents.find? (textOf step "uri")
    let held := w.own.documents.find? (nameOf step)
    return some (.ofFields [("now", .ofOption (now.map (documentJson w))),
      ("held", .ofOption (held.map (documentJson w))),
      ("same", .bool (now.isSome && now == held))])
  | "lines" => do
    match (← get).api.documents.get? (textOf step "uri") with
    | none => return some .null
    | some d =>
      return some (.ofFields [("count", .whole d.lineCount),
        ("lines", .array ((listOf step "at").filterMap Json.asNat? |>.map fun line =>
          .ofText? (d.lineAt? line)))])
  | _ => return none

/-! ## Listeners and handles -/

def listen (topic : Topic) (step : Json) : StateM Stage (Option Json) := do
  let callback ← assign step
  return some (← keep step (← World.apiPart.zoom fun api => api.listen topic callback))

def handles (code : Code Script) (step : Json) : String → StateM Stage (Option Json)
  | "on_open" => listen .opened step
  | "on_change" => listen .changed step
  | "on_close" => listen .closed step
  | "on_config" => listen .configured step
  | "disposable" => do
    let callback ← assign step
    return some (← keep step (← World.apiPart.zoom fun api => api.keep (.code callback)))
  | "dispose" => do
    match (← get).own.handles.find? (nameOf step) with
    | none => return some Transcript.unknown
    | some handle =>
      let before := (← get).api.isUndone handle
      World.dispose code handle
      let after := (← get).api.isUndone handle
      return some (.array [.bool before, .bool after,
        .text s!"Disposable \x7b disposed: {after} \x7d"])
  | _ => return none

/-! ## Settings -/

/-- A value as a script asks for it. -/
def typed (type : String) (v : Option Json) : Json :=
  match type with
  | "bool" => .ofOption ((v.bind Json.asBool?).map .bool)
  | "u32" => .ofOption ((v.bind Json.readNat32).map fun n => .whole n)
  | "i64" => .ofOption ((v.bind Json.asInt64?).map .whole)
  | "u8_or" => .whole ((v.bind Json.readNat8).getD 7)
  | "string" => .ofText? (v.bind Json.asText?)
  | "string_or" => .text ((v.bind Json.asText?).getD "fallback")
  | "strings" => .ofOption ((v.bind (Json.readList Json.asText?)).map Json.ofTexts)
  | "position" => .ofOption ((v.bind Position.read).map Position.toJson)
  | _ => .ofOption v

def sectionJson (c : Configuration) (step : Json) : Json :=
  let key := textOf step "key"
  .ofFields [("section", .text c.name), ("get", typed (textOf step "type") (c.get? key)),
    ("has", .bool (c.has key)), ("value", c.value)]

/-- A key with its value. -/
def readDefault : Json → Option (String × Json)
  | .array [.text key, value] => some (key, value)
  | _ => none

def settings (code : Code Script) (step : Json) : String → StateM Stage (Option Json)
  | "config_get" => do
    return some (sectionJson ((← get).api.section? (textOf step "section")) step)
  | "config_hold" => do
    let c := (← get).api.section? (textOf step "section")
    note fun s => { s with sections := s.sections.insert (nameOf step) c }
    return some .null
  | "config_held" => do
    match (← get).own.sections.find? (nameOf step) with
    | some c => return some (sectionJson c step)
    | none => return some Transcript.unknown
  | "config_set" => do
    return some (Transcript.ofUnit
      (← World.updateConfiguration code (textOf step "key") (valueOf step "value")))
  | "config_seed" => do
    let defaults := readAllOf readDefault step "defaults"
    World.apiPart.zoom fun api => ((), api.seed defaults)
    return some (← get).api.configuration
  | "set_folders" => do
    modify fun w => { w with api := { w.api with folders := textsOf step "folders" } }
    return some .null
  | "folders" => do
    return some (.ofTexts (← get).api.folders)
  | _ => return none

/-! ## The window -/

def messageKindOf (step : Json) : MessageKind :=
  match textOf step "kind" with
  | "error" => .error
  | "warning" => .warning
  | _ => .info

/-- Changes the status bar item that a step names. -/
def statusItem (step : Json) (change : String → StatusBar → List Event × StatusBar) :
    StateM Stage (Option Json) := do
  match (← get).own.items.find? (targetOf step "item") with
  | none => return some Transcript.unknown
  | some id =>
    World.change fun api => api.changeStatusBar (change id)
    return some .null

/-- Changes the output channel that a step names, and shows it. -/
def channel (step : Json) (change : OutputChannel → OutputChannel) :
    StateM Stage (Option Json) := do
  match (← get).own.channels.find? (nameOf step) with
  | none => return some Transcript.unknown
  | some c =>
    let c := change c
    note fun s => { s with channels := s.channels.insert (nameOf step) c }
    return some (.ofFields [("name", .text c.name), ("len", .whole c.lines.length),
      ("first", .ofText? c.lines.head?), ("last", .ofText? c.lines.getLast?)])

def window (scope : Option String) (step : Json) : String → StateM Stage (Option Json)
  | "message" => do
    World.emit (List.replicate (natOr 1 step "repeat")
      (.showMessage (messageKindOf step) (textOf step "text") (textsOf step "actions")))
    return some (.whole 1)
  | "status_create" => do
    let side : Side := if textOf step "side" = "right" then .right else .left
    let id ← World.apiPart.zoom fun api =>
      api.createStatusItem (ownerOf scope step) side (Int.bmod (intOr 0 step "priority") 4294967296)
    note fun s => { s with
      items := s.items.insert (nameOf step) id
      itemNames := s.itemNames ++ [(id, nameOf step)] }
    return some .null
  | "status_text" => statusItem step fun id bar => bar.setText id (textOf step "text")
  | "status_tooltip" => statusItem step fun id bar => bar.setTooltip id (step.textField? "text")
  | "status_show" => statusItem step fun id bar => bar.setVisible id true
  | "status_hide" => statusItem step fun id bar => bar.setVisible id false
  | "status_dispose" => statusItem step fun id bar => bar.remove id
  | "status_disposable" => do
    match (← get).own.items.find? (targetOf step "item") with
    | none => return some Transcript.unknown
    | some id =>
      return some (← keep step (← World.apiPart.zoom fun api => api.keep (.statusItem id)))
  | "channel_create" => do
    note fun s => { s with channels := s.channels.insert (nameOf step) ⟨textOf step "name", []⟩ }
    return some .null
  | "channel_append" => channel step fun c => (textsOf step "lines").foldl OutputChannel.append c
  | "channel_fill" => channel step fun c =>
    (List.range (natOr 0 step "count")).foldl (fun c n => c.append s!"line {n}") c
  | "channel_clear" => channel step OutputChannel.clear
  | "channel_lines" => channel step id
  | _ => return none

/-! ## Diagnostics -/

/-- Changes the collection that a step names, and shows what a document has. -/
def collection (step : Json)
    (change : DiagnosticCollection → List Event × DiagnosticCollection) :
    StateM Stage (Option Json) := do
  match (← get).own.collections.find? (targetOf step "of") with
  | none => return some Transcript.unknown
  | some id =>
    World.change fun api => api.changeCollection id change
    let c := (((← get).api.collections)[id]?).getD default
    return some (.ofFields [("name", .text c.name),
      ("get", .array ((c.get (textOf step "uri")).map Diagnostic.toJson))])

def diagnostics (step : Json) : String → StateM Stage (Option Json)
  | "diag_create" => do
    let id ← World.apiPart.zoom fun api => api.createCollection (textOf step "name")
    note fun s => { s with collections := s.collections.insert (nameOf step) id }
    return some .null
  | "diag_set" => collection step fun c =>
    c.set (textOf step "uri") (readAllOf (Diagnostic.read .null) step "diagnostics")
  | "diag_get" => collection step fun c => ([], c)
  | "diag_delete" => collection step fun c => c.delete (textOf step "uri")
  | "diag_clear" => collection step DiagnosticCollection.clear
  | "diag_disposable" => do
    match (← get).own.collections.find? (targetOf step "of") with
    | none => return some Transcript.unknown
    | some id =>
      let _ ← keep step (← World.apiPart.zoom fun api => api.keep (.collection id))
      collection step fun c => ([], c)
  | _ => return none

/-! ## Commands and providers -/

/-- The capability that a step registers a provider for, and whether the registry is used
directly. -/
def capabilityOf (step : Json) : Option (Capability × Bool) :=
  match textOf step "cap" with
  | "completion" => some (.completion, false)
  | "hover" => some (.hover, false)
  | "definition" => some (.definition, false)
  | "references" => some (.references, false)
  | "formatting" => some (.formatting, false)
  | "rename" => some (.rename, false)
  | "raw_hover" => some (.hover, true)
  | _ => none

def register (scope : Option String) (step : Json) : StateM Stage (Option Json) := do
  match selector? (valueOf step "selector"), capabilityOf step with
  | none, _ => return some Transcript.unreadable
  | _, none => return some Transcript.badStep
  | some selector, some (capability, isRaw) =>
    let callback ← assign step
    let owner := ownerOf scope step
    if isRaw then
      let id ← World.apiPart.zoom fun api =>
        let (id, registry) :=
          api.registry.register capability selector callback (textOf step "owner")
            (textsOf step "triggers")
        (id, { api with registry })
      return some (.ofFields [("id", .whole id)])
    else
      let triggers := if capability = .completion then textsOf step "triggers" else []
      let handle ← World.apiPart.zoom fun api =>
        api.registerProvider capability selector callback owner triggers
      return some (← keep step handle)

def registrationJson (r : Registration) : Json :=
  .ofFields [("id", .whole r.id), ("label", .text s!"#{r.id}"),
    ("capability", .text r.capability.name),
    ("provider", .text s!"ProviderHandle({r.capability.name})"), ("ext", .text r.extension),
    ("triggers", .ofTexts r.triggers), ("selector", r.selector.toJson)]

/-- The registrations that a look-up finds, or what is wrong with the word for the capability. -/
def lookUp (step : Json) (find : Capability → Registry → List Registration) :
    StateM Stage (Option Json) := do
  match Capability.ofText (textOf step "cap") with
  | .ok c => return some (.array ((find c (← get).api.registry).map registrationJson))
  | .error text => return some (.ofFields [("error", .text text)])

def registrations (scope : Option String) (step : Json) : String → StateM Stage (Option Json)
  | "cmd_register" => do
    let callback ← assign step
    match ← World.apiPart.zoom fun api =>
      api.registerCommand (textOf step "name") (ownerOf scope step) callback with
    | .ok handle => return some (← keep step handle)
    | .error fault => return some (Transcript.ofFault fault)
  | "cmd_list" => do
    return some (.ofTexts (← get).api.commands.entries.keys)
  | "cmd_has" => do
    return some (.bool ((← get).api.commands.entries.has (textOf step "name")))
  | "register" => register scope step
  | "unregister" => do
    match (step.get? "id").bind Json.asNat? with
    | none => return some Transcript.unreadable
    | some id =>
      return some (.bool (← World.apiPart.zoom fun api =>
        let (removed, registry) := api.registry.unregister id
        (removed, { api with registry })))
  | "unregister_ext" => do
    return some (.whole (← World.apiPart.zoom fun api =>
      let (count, registry) := api.registry.unregisterExtension (textOf step "owner")
      (count, { api with registry })))
  | "release" => do
    World.change fun api => api.release (textOf step "owner")
    return some .null
  | "for_language" => do
    let registry := (← get).api.registry
    let found := match Capability.ofText (textOf step "cap") with
      | .ok c => registry.forLanguage c (textOf step "lang")
      | .error _ => []
    return some (.array (found.map registrationJson))
  | "for_language_typed" => lookUp step fun c r => r.forLanguage c (textOf step "lang")
  | "for_document" => lookUp step fun c r =>
    r.forDocument c (textOf step "uri") (textOf step "lang")
  | "triggers" => do
    return some (.ofTexts ((← get).api.registry.triggers (textOf step "lang")))
  | "registry_len" => do
    let count := (← get).api.registry.live.length
    return some (.array [.whole count, .bool (count == 0)])
  | _ => return none

/-- Does a step at once; `none` when there is no such step. -/
def perform (code : Code Script) (scope : Option String) (step : Json) :
    StateM Stage (Option Json) := do
  let word := textOf step "do"
  if let some r ← documents code step word then return some r
  if let some r ← handles code step word then return some r
  if let some r ← settings code step word then return some r
  if let some r ← window scope step word then return some r
  if let some r ← diagnostics step word then return some r
  registrations scope step word

end EditorHost.Scenario.Step
