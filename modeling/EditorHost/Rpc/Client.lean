import EditorHost.Document
import EditorHost.Rpc.Server

/-!
# The client of all language servers

There is at most one server per language.  Documents are tracked whether or not a server is running,
so that a server that comes up later is told all open documents of its language.

A program that serves a language is started by name; which names are known programs is given.  A
connection keeps the number of the line that it runs over, so that whoever moves the messages knows
where they belong.
-/

namespace EditorHost.Rpc

/-- A document as the servers know it. -/
structure Synced where
  language : String
  version : Int
  text : String
  deriving DecidableEq, Repr, Inhabited

/-- The number of a server that was ever connected. -/
abbrev ServerId := Nat

/-- A server that was connected, and the number of the line that it is connected over. -/
structure Connection where
  server : Server
  line : Nat
  deriving Inhabited

structure Client where
  settings : ServerSettings
  /-- The folder that servers are told to look at. -/
  root : Option Path := none
  processId : Nat := 0
  /-- The programs that can be started. -/
  programs : List String := []
  /-- Every server that was ever connected. -/
  connections : List Connection := []
  /-- The programs started so far, with the lines they are connected over. -/
  launched : List (Nat × ServerCommand) := []
  /-- How many lines there are. -/
  lines : Nat := 0
  /-- The current server of each language. -/
  servers : Table ServerId := []
  documents : Table Synced := []
  deriving Inhabited

namespace Client

/-! ## Servers -/

/-- Changes the state of a server. -/
def modifyServer (c : Client) (id : ServerId) (change : Server → Server) : Client :=
  { c with connections := c.connections.modify id fun k => { k with server := change k.server } }

/-- The state of a server as a part of the client's. -/
def server (id : ServerId) : Focus Client Server where
  get c := ((c.connections[id]?).map Connection.server).getD default
  set s c := c.modifyServer id fun _ => s

/-- The current server of a language. -/
def serverOf? (c : Client) (language : String) : Option Server :=
  (c.servers.find? language).map fun id => (server id).get c

def stateOf (c : Client) (language : String) : ServerState :=
  ((c.serverOf? language).map Server.state).getD .notStarted

/-- Whether a language has a server that has not shut down. -/
def isLive (c : Client) (language : String) : Bool :=
  (c.serverOf? language).any fun s => s.state != .shutdown

def isConfigured (c : Client) (language : String) : Bool := c.settings.servers.has language

/-- Whether a server could be started for a language and is not there. -/
def needsStart (c : Client) (language : String) : Bool :=
  c.isConfigured language && !c.isLive language

/-- The current server of a language, if it is ready to be talked to. -/
def ready? (c : Client) (language : String) : Option ServerId :=
  (c.servers.find? language).filter fun id => ((server id).get c).state == .initialized

/-- A line that nothing runs over. -/
def newLine (c : Client) : Nat × Client := (c.lines, { c with lines := c.lines + 1 })

/-- Makes a new server the current one of a language. -/
def attach (c : Client) (language : String) (command : ServerCommand) (line : Nat) :
    ServerId × Client :=
  let server : Server :=
    { language, command, timeout := c.settings.timeout, processId := c.processId }
  let id := c.connections.length
  (id, { c with
    connections := c.connections ++ [⟨server, line⟩]
    servers := c.servers.insert language id })

/-- Starts the program that is configured for a language. -/
def launch (c : Client) (language : String) : Except Fault ServerId × Client :=
  match c.settings.servers.find? language with
  | none => (.error (.unknownServer language), c)
  | some command =>
    if c.programs.contains command.command then
      let (line, c) := c.newLine
      let (id, c) := c.attach language command line
      (.ok id, { c with launched := c.launched ++ [(line, command)] })
    else
      (.error (.process
        s!"{language} language server '{command.command}' not found: no such program"), c)

/-- Tells a server something, if there is one. -/
def notify (c : Client) (id : Option ServerId) (method : String) (params : Json) : Client :=
  match id with
  | some id => c.modifyServer id fun s => (s.notify method params).2
  | none => c

/-! ## Messages about documents -/

/-- A document by its URI, as messages name it. -/
def identifier (uri : String) : Json := .ofFields [("textDocument", .ofFields [("uri", .text uri)])]

def didOpenParams (uri : String) (d : Synced) : Json :=
  .ofFields [("textDocument", .ofFields [("uri", .text uri), ("languageId", .text d.language),
    ("version", .whole d.version), ("text", .text d.text)])]

def didChangeParams (uri : String) (d : Synced) : Json :=
  .ofFields [("textDocument", .ofFields [("uri", .text uri), ("version", .whole d.version)]),
    ("contentChanges", .array [.ofFields [("text", .text d.text)]])]

def didSaveParams (uri : String) (d : Synced) : Json :=
  .ofFields [("textDocument", .ofFields [("uri", .text uri)]), ("text", .text d.text)]

/-- Tells the server of a document's language that it was opened, if the server is ready. -/
def tellOpened (c : Client) (uri : String) (d : Synced) : Client :=
  c.notify (c.ready? d.language) "textDocument/didOpen" (didOpenParams uri d)

def tellChanged (c : Client) (uri : String) (d : Synced) : Client :=
  c.notify (c.ready? d.language) "textDocument/didChange" (didChangeParams uri d)

def tellSaved (c : Client) (uri : String) (d : Synced) : Client :=
  c.notify (c.ready? d.language) "textDocument/didSave" (didSaveParams uri d)

/-- Tells the server of a language that a document was closed, if the server is ready. -/
def tellClosed (c : Client) (uri language : String) : Client :=
  c.notify (c.ready? language) "textDocument/didClose" (identifier uri)

/-! ## Starting and ending servers -/

/-- Tells a server all open documents of its language. -/
def replay (c : Client) (id : ServerId) : Client :=
  let language := ((server id).get c).language
  (c.documents.filter fun entry => entry.2.language == language).foldl
    (fun c (uri, d) => c.notify (some id) "textDocument/didOpen" (didOpenParams uri d)) c

/-- Starts the conversation with a new server.  One that fails is ended. -/
def greet (id : ServerId) : Flow Client (Except Fault Unit) := do
  let root ← Flow.read Client.root
  match ← (Server.handshake root).focus (server id) with
  | .error fault =>
    Server.kill.focus (server id)
    return .error fault
  | .ok () =>
    Flow.pause
    Flow.sync fun c => ((), c.replay id)
    return .ok ()

/-- Starts the configured server of a language, unless it has a live one. -/
def startServer (language : String) : Flow Client (Except Fault Unit) := do
  Flow.pause
  let started ← Flow.sync fun c =>
    if c.isLive language then (.ok none, c)
    else
      let (result, c) := c.launch language
      (result.map some, c)
  match started with
  | .error fault => return .error fault
  | .ok none => return .ok ()
  | .ok (some id) => greet id

/-- Takes a server that is reachable over a line, unless the language has a live one. -/
def connect (language : String) (command : ServerCommand) (line : Nat) :
    Flow Client (Except Fault Unit) := do
  Flow.pause
  let taken ← Flow.sync fun c =>
    if c.isLive language then (none, c)
    else
      let (id, c) := c.attach language command line
      (some id, c)
  match taken with
  | none => return .ok ()
  | some id => greet id

/-- Forgets the server of a language, and gives it. -/
def forget (c : Client) (language : String) : Option ServerId × Client :=
  (c.servers.find? language, { c with servers := c.servers.erase language })

/-- Forgets all servers, and gives them. -/
def forgetAll (c : Client) : List ServerId × Client := (c.servers.values, { c with servers := [] })

/-- Shuts the server of a language down. -/
def shutdownServer (language : String) : Flow Client Unit := do
  Flow.pause
  match ← Flow.sync fun c => c.forget language with
  | some id => Server.shutdown.focus (server id)
  | none => return ()

/-- Shuts all servers down, one after another. -/
def shutdownAll : Flow Client Unit := do
  Flow.pause
  let ids ← Flow.sync forgetAll
  Flow.each ids fun id => Server.shutdown.focus (server id)

/-- Ends all servers without a word, and forgets all documents. -/
def forceShutdown : Flow Client Unit := do
  Flow.pause
  let ids ← Flow.sync forgetAll
  Flow.each ids fun id => Server.kill.focus (server id)
  Flow.pause
  Flow.sync fun c => ((), { c with documents := [] })

/-! ## Documents -/

/-- Tracks a document, and gives it with the language that it had before. -/
def track (c : Client) (uri language text : String) : (Option String × Synced) × Client :=
  match c.documents.find? uri with
  | some old =>
    let d : Synced := ⟨language, Document.nextVersion old.version, text⟩
    ((some old.language, d), { c with documents := c.documents.insert uri d })
  | none =>
    let d : Synced := ⟨language, 1, text⟩
    ((none, d), { c with documents := c.documents.insert uri d })

/-- Gives a tracked document a new text. -/
def retext (c : Client) (uri text : String) : Option Synced × Client :=
  match c.documents.find? uri with
  | some old =>
    let d : Synced := { old with version := Document.nextVersion old.version, text }
    (some d, { c with documents := c.documents.insert uri d })
  | none => (none, c)

/-- Tracks a document and tells its server.  A tracked document that is opened again has changed, or
has moved to the server of another language. -/
def didOpen (uri language text : String) : Flow Client Unit := do
  Flow.pause
  let (previous, d) ← Flow.sync fun c => c.track uri language text
  match previous with
  | none =>
    Flow.pause
    Flow.sync fun c => ((), c.tellOpened uri d)
  | some previous =>
    if previous = language then
      Flow.pause
      Flow.sync fun c => ((), c.tellChanged uri d)
    else
      Flow.pause
      Flow.sync fun c => ((), c.tellClosed uri previous)
      Flow.pause
      Flow.sync fun c => ((), c.tellOpened uri d)

/-- Gives a tracked document a new text and tells its server. -/
def didChange (uri text : String) : Flow Client Unit := do
  Flow.pause
  match ← Flow.sync fun c => c.retext uri text with
  | none => return ()
  | some d =>
    Flow.pause
    Flow.sync fun c => ((), c.tellChanged uri d)

/-- Tells the server of a document that it was saved. -/
def didSave (uri : String) : Flow Client Unit := do
  Flow.pause
  match ← Flow.read fun c => c.documents.find? uri with
  | none => return ()
  | some d =>
    Flow.pause
    Flow.sync fun c => ((), c.tellSaved uri d)

/-- Tells the server of a document that it was closed, and forgets the document. -/
def didClose (uri : String) : Flow Client Unit := do
  Flow.pause
  match ← Flow.read fun c => c.documents.find? uri with
  | none => return ()
  | some d =>
    Flow.pause
    Flow.sync fun c => ((), c.tellClosed uri d.language)
    Flow.pause
    Flow.sync fun c => ((), { c with documents := c.documents.erase uri })

/-! ## Queries -/

/-- Asks the server of a document; `none` when there is nobody to ask or no answer. -/
def query (uri method : String) (params : Json) : Flow Client (Option Json) := do
  Flow.pause
  match ← Flow.read fun c => c.documents.find? uri with
  | none => return none
  | some d =>
    Flow.pause
    match ← Flow.read fun c => c.ready? d.language with
    | none => return none
    | some id => return (← (Server.request method params).focus (server id)).toOption

/-- A place in a document, as queries name it. -/
def placeParams (uri : String) (position : Position) : Json :=
  .ofFields [("textDocument", .ofFields [("uri", .text uri)]), ("position", position.toJson)]

def completions (uri : String) (position : Position) : Flow Client CompletionList := do
  let answer ← query uri "textDocument/completion" (placeParams uri position)
  return (answer.map Payload.completionList).getD {}

def hover (uri : String) (position : Position) : Flow Client (Option Hover) := do
  let answer ← query uri "textDocument/hover" (placeParams uri position)
  return answer.bind Payload.hover?

def definition (uri : String) (position : Position) : Flow Client (List Location) := do
  let answer ← query uri "textDocument/definition" (placeParams uri position)
  return (answer.map Payload.locations).getD []

def formatting (uri : String) (options : FormattingOptions) : Flow Client (List TextEdit) := do
  let answer ← query uri "textDocument/formatting"
    (.ofFields [("textDocument", .ofFields [("uri", .text uri)]), ("options", options.toJson)])
  return (answer.map Payload.textEdits).getD []

end Client

end EditorHost.Rpc
