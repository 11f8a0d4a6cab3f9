import EditorHost.Extension.Background
import EditorHost.Scenario.Listing
import EditorHost.Scenario.Step

/-!
# Steps that may wait

The remaining steps of a script: commands and queries, contexts, the host, language servers and the
workbench.  Which of them there are depends on what the scenario is about.
-/

namespace EditorHost.Scenario

open Rpc (Client Server)
open Stage Step

/-- What a scenario is about. -/
inductive Kind where
  | api
  | host
  | servers
  | workbench
  deriving DecidableEq, Repr, Inhabited

namespace Kind

def hasHost (k : Kind) : Bool := k = host || k = workbench

def hasServers (k : Kind) : Bool := k = servers || k = workbench

end Kind

/-- What came of a step. -/
inductive Reply where
  | value (v : Json)
  | panicked
  deriving Repr, Inhabited

namespace Reply

def toJson : Reply → Json
  | value v => v
  | panicked => Transcript.panicked

/-- What is said about a command. -/
def ofCommand : Outcome Json → Reply
  | .panicked => panicked
  | outcome => value (Transcript.ofCommand outcome)

end Reply

/-- The way in which a step is done: `none` when there is no such step. -/
abbrev Way := Option (Flow Stage Reply)

/-- A step whose result is always there. -/
def way (flow : Flow Stage Json) : Way := some do return .value (← flow)

/-- A step without a result. -/
def quietWay (flow : Flow Stage Unit) : Way := way do
  flow
  return .null

/-- The values of flows that are started together. -/
def joinAll (flows : List (Flow Stage Json)) : Flow Stage (List Json) := do
  let join ← Flow.sync fun w => (w.own.joined.length, { w with
    own := { w.own with joined := w.own.joined ++ [[]] } })
  Flow.each flows.zipIdx fun (flow, index) => Flow.start .joined do
    let v ← flow
    Flow.sync (note fun s => { s with
      joined := s.joined.modify join fun results => results ++ [(index, v)] })
  let results (w : Stage) : List (Nat × Json) := (w.own.joined[join]?).getD []
  Flow.untilReady fun w => (results w).length == flows.length
  let found ← Flow.read results
  return (List.range flows.length).map fun index =>
    .ofOption ((found.find? fun entry => entry.1 == index).map Prod.snd)

namespace Play

def jsonList (write : α → Json) (items : List α) : Json := .array (items.map write)

def descriptorJson (d : Descriptor) : Json :=
  .ofFields ([("id", .text d.id), ("packagePath", .text d.path.text),
    ("manifest", d.manifest.toJson), ("isActive", .bool d.isActive),
    ("isDisabled", .bool d.isDisabled), ("isBuiltin", .bool d.isBuiltin), ("exports", d.exports),
    ("loadedAt", .bool true)] ++ (if d.isActive then [("activatedAt", .bool true)] else []))

def ofDescriptor (r : Except Fault Descriptor) : Json := Transcript.ofResult (r.map descriptorJson)

def ofFlag (r : Except Fault Bool) : Json := Transcript.ofResult (r.map .bool)

def optionsOf (step : Json) : FormattingOptions where
  tabSize := ((step.get? "tabSize").bind Json.readNat32).getD 4
  insertSpaces := ((step.get? "insertSpaces").bind Json.asBool?).getD true

/-! ## General steps -/

/-- Writes a file and the folders above it; tells whether that was possible. -/
def writeFile (path : Path) (text : String) : Flow Stage Bool := do
  return (← World.onDisk do
    path.folder?.forM Disk.createFolders
    Disk.writeText path text).isOk

/-- The place that a step names below the folder of the scenario. -/
def placeOf (w : Stage) (step : Json) (key : String) : Path := w.own.root.join (textOf step key)

def general (step : Json) : String → Way
  | "sleep" => quietWay (Flow.sleep (natOr 0 step "ms"))
  | "tree" => way (Flow.read fun w => w.disk.listing (placeOf w step "path"))
  | "write_file" => way do
    let path ← Flow.read fun w => placeOf w step "path"
    return .bool (← writeFile path (textOf step "text"))
  | "remove_dir" => way do
    let path ← Flow.read fun w => placeOf w step "path"
    return .bool (← World.onDisk (Disk.removeTree path)).isOk
  | _ => none

/-! ## Commands and queries -/

def queries (code : Code Script) (step : Json) (word : String) : Way :=
  let uri := textOf step "uri"
  let position := positionOf step
  match word with
  | "cmd_exec" => some do
    return .ofCommand (← World.runCommand code (textOf step "name") (listOf step "args"))
  | "completions" => way do
    return jsonList CompletionItem.toJson
      (← World.completions code uri position (step.textField? "trigger"))
  | "hover" => way do return jsonList Hover.toJson (← World.hovers code uri position)
  | "definition" => way do
    return jsonList Location.toJson (← World.definitions code uri position)
  | "references" => way do
    return jsonList Location.toJson
      (← World.references code uri position (boolOf step "declaration"))
  | "formatting" => way do
    return jsonList TextEdit.toJson (← World.formatting code uri (optionsOf step))
  | "rename" => way do
    return .ofOption ((← World.rename code uri position (textOf step "name")).map
      WorkspaceEdit.toJson)
  | _ => none

/-! ## Contexts -/

/-- Does something with the context of the extension that a step is about. -/
def withContext (scope : Option String) (step : Json) (body : ContextId → Flow Stage Json) : Way :=
  way do
    let id := (step.textField? "ext").or scope
    match ← Flow.read fun w => id.bind w.own.contexts.find? with
    | none => return Transcript.unknown
    | some context => body context

def isOfWorkspace (step : Json) : Bool := textOf step "state" = "workspace"

def contextJson (w : Stage) (c : Context) : Json :=
  let place (p : Path) : Json := .ofTexts [Uri.ofPath p, p.text]
  .ofFields [("id", .text c.extension), ("path", .text c.path.text),
    ("global", place c.globalStorage), ("workspace", place c.workspaceStorage),
    ("log", place c.logs),
    ("dirs", .array ([c.globalStorage, c.workspaceStorage, c.logs].map fun p =>
      .bool (w.disk.isFolder p))),
    ("subscriptions", .whole c.subscriptions.length)]

/-- The memento that a step is about. -/
def mementoOf (w : Stage) (context : ContextId) (step : Json) : Memento :=
  (Context.memento (isOfWorkspace step)).get ((World.contextPart context).get w)

/-- A value of a memento as a script asks for it. -/
def stored (type : String) (v : Option Json) : Json :=
  if type = "u32" ∨ type = "string_or" then typed type v else .ofOption v

/-- Gives a handle that the script has made to a context, and counts the handles there. -/
def subscribe (context : ContextId) (step : Json) : StateM Stage Json := do
  match (← get).own.handles.find? (nameOf step) with
  | some handle => (World.contextPart context).zoom fun c => ((), c.subscribe handle)
  | none => pure ()
  return .whole ((World.contextPart context).get (← get)).subscriptions.length

def contexts (scope : Option String) (step : Json) : String → Way
  | "ctx_info" => withContext scope step fun context =>
    Flow.read fun w => contextJson w ((World.contextPart context).get w)
  | "ctx_subscribe" => withContext scope step fun context => Flow.sync (subscribe context step)
  | "ctx_keys" => withContext scope step fun context =>
    Flow.read fun w => .ofTexts (mementoOf w context step).values.keys
  | "ctx_get" => withContext scope step fun context =>
    Flow.read fun w =>
      stored (textOf step "type") ((mementoOf w context step).values.find? (textOf step "key"))
  | "ctx_set" => withContext scope step fun context => do
    return Transcript.ofUnit (← World.updateMemento context (isOfWorkspace step)
      (textOf step "key") (valueOf step "value"))
  | "ctx_spawn" => withContext scope step fun context => do
    World.spawn context do
      Flow.sleep (natOr 0 step "sleep_ms")
      Flow.sync (trace [("task", .text (nameOf step))])
    return .null
  | "ctx_track" => withContext scope step fun context => do
    Flow.sync (World.trackProcess context (step.get? "wait").isSome)
    return .null
  | _ => none

/-! ## The host -/

def briefJson (d : Descriptor) : Json :=
  .array [.text d.id, .bool d.isActive, .bool d.isDisabled, .bool d.isBuiltin, d.exports]

/-- What building an entry module comes to. -/
def loaderJson (code : Code Script) (step : Json) : Json :=
  let id := textOf step "id"
  .ofFields [("contains", .bool (code.entry id).isSome),
    ("built", Transcript.ofUnit ((World.build code id (textOf step "main")).map fun _ => ()))]

def host (code : Code Script) (step : Json) (word : String) : Way :=
  let id := textOf step "id"
  match word with
  | "discover" => way do return .ofTexts (← World.discover)
  | "load" => way do
    return ofDescriptor (← World.load (← Flow.read fun w => placeOf w step "path"))
  | "install" => way do
    return ofDescriptor (← World.install code (← Flow.read fun w => placeOf w step "path"))
  | "activate" => way do
    return .array (← joinAll (List.replicate (natOr 1 step "times") do
      return .bool (← World.activate code id (boolOf step "force"))))
  | "activate_event" => way do
    return .ofTexts ((← World.activateByEvent code (textOf step "event")).mergeSort)
  | "deactivate" => way do return Transcript.ofUnit (← World.deactivate code id)
  | "disable" => way do return Transcript.ofUnit (← World.disable code id)
  | "enable" => way do return ofFlag (← World.enable code id)
  | "uninstall" => way do return Transcript.ofUnit (← World.uninstall code id)
  | "set_disabled" => way do
    let disabled := ((step.get? "value").bind Json.asBool?).getD true
    return Transcript.ofUnit (← World.setDisabled id disabled)
  | "state" => way (Flow.read fun w =>
    .ofFields [("active", .bool (w.host.isActive id)), ("disabled", .bool (w.host.isDisabled id))])
  | "list" => way (Flow.read fun w => jsonList descriptorJson w.host.descriptors)
  | "brief" => way (Flow.read fun w => jsonList briefJson w.host.descriptors)
  | "extension" => way (Flow.read fun w =>
    .ofOption ((w.host.descriptor? id).map descriptorJson))
  | "exec" => some do
    return .ofCommand (← World.executeCommand code (textOf step "name") (listOf step "args"))
  | "processes" => way (Flow.read fun w => .whole w.host.processes.length)
  | "kill_extension" => way do
    return .whole (← Flow.sync (World.hostPart.zoom fun h => h.killProcesses fun o => o == id))
  | "teardown" => quietWay (World.teardownHost code)
  | "loader" => way (pure (loaderJson code step))
  | "host_paths" => way (Flow.read fun w =>
    .ofFields [("data", .text w.host.layout.dataDir.text),
      ("bundled", .text w.host.layout.bundledExtensions.text), ("scope", .text Api.hostOwner)])
  | _ => none

/-! ## Language servers -/

/-- Sends what a step says from the peer at the end of a line: a message, and octets piece by
piece. -/
def sendFrom (line : Nat) (step : Json) : Flow Stage Unit := do
  match step.get? "message" with
  | some message =>
    Flow.sync (note (changePeer line fun p => p.send (Rpc.encode message)))
  | none => pure ()
  Flow.each (listOf step "chunks") fun chunk => do
    Flow.sync (note (changePeer line fun p => p.send (octets chunk)))
    Flow.sleep 1

/-- Lets the peer at the end of a line leave. -/
def leaveFrom (line : Nat) : StateM Stage Unit :=
  note (changePeer line fun p => { p with hasLeft := true })

/-- Does something with the newest peer of a language, if there is one. -/
def withPeer (language : String) (body : Nat → Flow Stage Unit) : Flow Stage Unit := do
  match ← Flow.read fun w => peerOf? language w.own with
  | some peer => body peer.line
  | none => return ()

/-- The command of a server that a script plays. -/
def commandOf (config : Json) : ServerCommand where
  command := textOf config "command"
  args := textsOf config "args"
  initializationOptions := config.get? "initializationOptions"
  settings := config.get? "settings"

/-- Something that the client does. -/
def client (flow : Flow Client α) : Flow Stage α := flow.focus World.clientPart

/-- The version that the client has of a document. -/
def versionJson (uri : String) (w : Stage) : Json :=
  .ofOption ((w.client.documents.find? uri).map fun d => .whole d.version)

/-- Something that the client does with a document, and the version that it then has. -/
def withVersion (uri : String) (flow : Flow Client Unit) : Way := way do
  client flow
  Flow.read (versionJson uri)

def stateJson (language : String) (w : Stage) : Json := .text (w.client.stateOf language).name

def infoJson (language uri : String) (w : Stage) : Json :=
  .ofFields [("state", stateJson language w),
    ("capabilities", .ofOption ((w.client.serverOf? language).bind Server.capabilities)),
    ("running", .ofTexts w.client.servers.keys),
    ("configured", .bool (w.client.isConfigured language)),
    ("needs_start", .bool (w.client.needsStart language)),
    ("tracked", .bool (w.client.documents.has uri)), ("version", versionJson uri w)]

def servers (step : Json) (word : String) : Way :=
  let language := textOf step "lang"
  let uri := textOf step "uri"
  let position := positionOf step
  match word with
  | "lsp_connect" => way do
    let line ← addPeer language (listOf step "handshake")
    let command := commandOf (valueOf step "config")
    return Transcript.ofUnit (← client (Client.connect language command line))
  | "server_send" => quietWay (withPeer language fun line => sendFrom line step)
  | "server_drop" => quietWay (withPeer language fun line => Flow.sync (leaveFrom line))
  | "lsp_start" => way do return Transcript.ofUnit (← client (Client.startServer language))
  | "lsp_open" => withVersion uri (Client.didOpen uri language (textOf step "text"))
  | "lsp_change" => withVersion uri (Client.didChange uri (textOf step "text"))
  | "lsp_close" => withVersion uri (Client.didClose uri)
  | "lsp_save" => quietWay (client (Client.didSave uri))
  | "lsp_completions" => way do return (← client (Client.completions uri position)).toJson
  | "lsp_hover" => way do
    return .ofOption ((← client (Client.hover uri position)).map Hover.toJson)
  | "lsp_definition" => way do
    return jsonList Location.toJson (← client (Client.definition uri position))
  | "lsp_format" => way do
    return jsonList TextEdit.toJson (← client (Client.formatting uri (optionsOf step)))
  | "lsp_info" => way (Flow.read (infoJson language uri))
  | "lsp_wait" => way do
    let _ ← Flow.within 2000 fun w => (w.client.stateOf language).name == textOf step "state"
    Flow.read (stateJson language)
  | "lsp_shutdown" => quietWay (client (Client.shutdownServer language))
  | "lsp_shutdown_all" => quietWay (client Client.shutdownAll)
  | "lsp_force_shutdown" => quietWay (client Client.forceShutdown)
  | _ => none

/-! ## The workbench -/

def answersJson (write : α → Json) (a : World.Answers α) : Json :=
  .ofFields [("extensions", jsonList write a.extensions),
    ("languageServer", jsonList write a.languageServer)]

def workbench (code : Code Script) (step : Json) (word : String) : Way :=
  let id := textOf step "id"
  let uri := textOf step "uri"
  let text := textOf step "text"
  let position := positionOf step
  match word with
  | "wb_start" => way do return .ofTexts (← World.start code).mergeSort
  | "wb_open" => way do
    let document ← World.didOpen code uri (textOf step "lang") text (versionOf step)
    Flow.read fun w => documentJson w document
  | "wb_change" => way do
    match ← World.didChange code uri (readAllOf ContentChange.read step "changes") text with
    | some document => Flow.read fun w => documentJson w document
    | none => return .null
  | "wb_save" => quietWay (World.didSave uri)
  | "wb_close" => way do
    return .ofOption ((← World.didClose code uri).map Document.toJson)
  | "wb_completion" => way do
    return answersJson CompletionItem.toJson
      (← World.askCompletions code uri position (step.textField? "trigger"))
  | "wb_hover" => way do return answersJson Hover.toJson (← World.askHover code uri position)
  | "wb_definition" => way do
    return answersJson Location.toJson (← World.askDefinition code uri position)
  | "wb_format" => way do
    return answersJson TextEdit.toJson (← World.askFormatting code uri (optionsOf step))
  | "wb_exec" => some do
    return .ofCommand (← World.executeCommand code (textOf step "name") (listOf step "args"))
  | "wb_install" => way do
    return ofDescriptor (← World.install code (← Flow.read fun w => placeOf w step "path"))
  | "wb_uninstall" => way do return Transcript.ofUnit (← World.uninstall code id)
  | "wb_enable" => way do return ofFlag (← World.enable code id)
  | "wb_disable" => way do return Transcript.ofUnit (← World.disable code id)
  | "wb_list" => way (Flow.read fun w => jsonList descriptorJson w.host.descriptors)
  | "wb_events" => way (pure (.whole 1))
  | "wb_teardown" => quietWay (World.teardown code)
  | _ => none

/-- The way in which a step that may wait is done. -/
def wayOf (kind : Kind) (code : Code Script) (scope : Option String) (step : Json) : Way :=
  let word := textOf step "do"
  (general step word) <|> (queries code step word) <|> (contexts scope step word) <|>
    (if kind.hasHost then host code step word else none) <|>
    (if kind.hasServers then servers step word else none) <|>
    (if kind = .workbench then workbench code step word else none)

/-- Does a step of a script. -/
def play (kind : Kind) (code : Code Script) (scope : Option String) (step : Json) :
    Flow Stage Reply := do
  match ← Flow.sync (perform code scope step) with
  | some v => return .value v
  | none => (wayOf kind code scope step).getD (.done (.value Transcript.badStep))

end Play

end EditorHost.Scenario
