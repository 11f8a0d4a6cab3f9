import EditorHost.Event
import EditorHost.Fault
import EditorHost.Flow
import EditorHost.Rpc.Message
import EditorHost.Rpc.Payload
import EditorHost.Settings.Servers
import EditorHost.Uri

/-!
# A language server from the client's side

A server is given requests and notifications, which are queued and written in order, and its
messages are received one by one.  Every request has a number of its own and is settled once: by the
answer of the server, by the end of the connection, or by the end of its time.

## Contents

* `Server` is the state of the connection: the table of requests that are not settled, the answers
  that nobody has collected yet, and everything that was queued.
* `Server.receive` says what a message of the server does.
* `Server.request`, `Server.handshake`, `Server.shutdown` and `Server.kill` are flows, because they
  wait or may be interrupted.
-/

namespace EditorHost

namespace Rpc

/-- How far a server has come. -/
inductive ServerState where
  | notStarted
  /-- The request `initialize` is under way. -/
  | starting
  | initialized
  | shutdown
  deriving DecidableEq, Repr, Inhabited

def ServerState.name : ServerState → String
  | notStarted => "not_started"
  | starting => "starting"
  | initialized => "initialized"
  | shutdown => "shutdown"

/-- How much a line of a server's log matters. -/
inductive LogLevel where
  | error
  | warn
  | info
  | debug
  deriving DecidableEq, Repr, Inhabited

def LogLevel.name : LogLevel → String
  | error => "error"
  | warn => "warn"
  | info => "info"
  | debug => "debug"

/-- The level of a kind of message. -/
def LogLevel.ofKind : MessageKind → LogLevel
  | .error => error
  | .warning => warn
  | .info => info
  | .log => debug

/-- What a message of a server has to be passed on to: the user interface, or the log. -/
inductive Effect where
  | event (event : Event)
  | log (level : LogLevel) (text : String)
  deriving DecidableEq, Repr, Inhabited

/-- The number of a request. -/
abbrev RequestId := Nat

/-- How a request was settled. -/
abbrev Answer := Except Fault Json

/-- The connection to a language server. -/
structure Server where
  language : String
  command : ServerCommand
  /-- How many milliseconds an answer may take. -/
  timeout : Nat
  /-- The number of the process that the server is told to serve. -/
  processId : Nat := 0
  state : ServerState := .notStarted
  /-- What the server said that it can do. -/
  capabilities : Option Json := none
  nextId : RequestId := 1
  /-- Whether the table of requests takes no more. -/
  closed : Bool := false
  /-- The requests that are not settled. -/
  pending : List RequestId := []
  /-- How requests were settled, until someone collects it. -/
  answers : List (RequestId × Answer) := []
  /-- All messages queued for the server, in order. -/
  queued : List Json := []
  /-- Whether messages can be queued. -/
  writable : Bool := true
  /-- Whether messages of the server are still received. -/
  listening : Bool := true
  deriving Inhabited

namespace Server

/-- The program as it is named to the server. -/
def clientInfo : Json := .ofFields [("name", .text "lumen"), ("version", .text "0.1.0")]

/-! ## The table of requests -/

/-- The fault of a request that the end of the connection settled. -/
def gone (s : Server) (reason : String) : Fault :=
  .process s!"{s.language} language server: {reason}"

/-- Settles a request. -/
def settle (s : Server) (id : RequestId) (answer : Answer) : Server :=
  { s with pending := s.pending.erase id, answers := s.answers ++ [(id, answer)] }

/-- Settles all requests with a fault, and takes no more. -/
def close (s : Server) (reason : String) : Server :=
  { s with
    state := .shutdown
    closed := true
    pending := []
    answers := s.answers ++ s.pending.map fun id => (id, .error (s.gone reason)) }

/-- How a request was settled, if it was. -/
def answer? (s : Server) (id : RequestId) : Option Answer :=
  (s.answers.find? fun entry => entry.1 == id).map Prod.snd

/-- Queues a message; tells whether that was possible. -/
def queue (s : Server) (message : Json) : Bool × Server :=
  if s.writable then (true, { s with queued := s.queued ++ [message] }) else (false, s)

/-- Queues a notification; tells whether that was possible. -/
def notify (s : Server) (method : String) (params : Json) : Bool × Server :=
  s.queue (notification method params)

/-- Takes a number for a request and queues it. -/
def issue (s : Server) (method : String) (params : Json) : Except Fault RequestId × Server :=
  let id := s.nextId
  let s := { s with nextId := id + 1 }
  if s.closed then (.error (.process s!"{s.language} language server is not running"), s)
  else
    match s.queue (Rpc.request id method params) with
    | (true, s) => (.ok id, { s with pending := s.pending ++ [id] })
    | (false, s) => (.error (.process "language server writer closed"), s)

/-- Takes the answer of a request, or gives it up when there is none. -/
def collect (s : Server) (id : RequestId) (method : String) : Answer × Server :=
  match s.answer? id with
  | some answer => (answer, { s with answers := s.answers.filter fun entry => entry.1 != id })
  | none => (.error (.timeout method s.timeout), { s with pending := s.pending.erase id })

/-! ## Messages of the server -/

/-- The kind of message that a server states. -/
def kindOf (params : Json) (fallback : MessageKind) : MessageKind :=
  (((params.get? "type").bind Json.asNat?).map MessageKind.ofNumber).getD fallback

/-- The message that a server wants to be shown. -/
def shown (params : Json) : Effect :=
  let actions := (((params.get? "actions").bind Json.asArray?).getD []).filterMap fun action =>
    action.textField? "title"
  .event (.showMessage (kindOf params .info) ((params.textField? "message").getD "") actions)

/-- What a request of the server is answered with. -/
def resultFor (s : Server) (method : String) (params : Json) : Json :=
  if method = "workspace/configuration" then
    .array ((((params.get? "items").bind Json.asArray?).getD []).map fun item =>
      s.command.configuration (item.textField? "section"))
  else .null

/-- What a request of the server has to be passed on to. -/
def effectsOfRequest (method : String) (params : Json) : List Effect :=
  if method = "window/showMessageRequest" then [shown params] else []

/-- What a notification of the server has to be passed on to. -/
def effectsOfNotification (s : Server) (method : String) (params : Json) : List Effect :=
  if method = "textDocument/publishDiagnostics" then
    match Payload.publishDiagnostics? params with
    | some (uri, found) => [.event (.diagnostics uri s.language found)]
    | none => []
  else if method = "window/showMessage" then [shown params]
  else if method = "window/logMessage" then
    [.log (.ofKind (kindOf params .log)) ((params.textField? "message").getD "")]
  else []

/-- The fault of a request that the server answered with an error. -/
def refusal (e : ResponseError) : Fault := .protocol s!"{e.message} (code {e.code})"

/-- Takes an answer of the server; one that nobody waits for changes nothing. -/
def respond (s : Server) (id : Int) (result : Except ResponseError Json) : Server :=
  if 0 ≤ id ∧ s.pending.contains id.toNat then s.settle id.toNat (result.mapError refusal) else s

/-- Receives a message of the server. -/
def receive (s : Server) (message : Json) : List Effect × Server :=
  match Incoming.classify message with
  | .response id result => ([], s.respond id result)
  | .request id method params =>
    (effectsOfRequest method params, (s.queue (response id (s.resultFor method params))).2)
  | .notification method params => (s.effectsOfNotification method params, s)
  | .invalid _ => ([], s)

/-- Takes notice that the server will send nothing more. -/
def finish (s : Server) : Server := { s.close "process exited" with listening := false }

/-! ## Flows -/

/-- Sends a request and waits for its answer. -/
def request (method : String) (params : Json) : Flow Server Answer := do
  match ← Flow.sync fun s => s.issue method params with
  | .error fault => return .error fault
  | .ok id =>
    let limit ← Flow.read Server.timeout
    let _ ← Flow.within limit fun s => (s.answer? id).isSome
    Flow.sync fun s => s.collect id method

/-- The folders that a server is told to look at. -/
def foldersOf (root : Option Path) : Json :=
  match root with
  | none => .null
  | some path => .array [.ofFields [("uri", .text (Uri.ofPath path)),
      ("name", .text (path.fileName?.getD "workspace"))]]

/-- What a server is told on its start. -/
def initializeParams (s : Server) (root : Option Path) : Json :=
  .ofFields [("processId", .whole s.processId), ("clientInfo", clientInfo),
    ("rootUri", .ofText? (root.map Uri.ofPath)), ("workspaceFolders", foldersOf root),
    ("capabilities", ServerCommand.capabilities),
    ("initializationOptions", .ofOption s.command.initializationOptions)]

/-- Takes notice of what the server answered on its start. -/
def welcome (s : Server) (result : Json) : Server :=
  ({ s with
    capabilities := some (.ofOption (result.get? "capabilities"))
    state := .initialized }.notify "initialized" .empty).2

/-- Starts the conversation with the server. -/
def handshake (root : Option Path) : Flow Server (Except Fault Unit) := do
  let params ← Flow.sync fun s => (s.initializeParams root, { s with state := .starting })
  match ← request "initialize" params with
  | .error fault =>
    Flow.sync fun s => ((), { s with state := .shutdown })
    return .error fault
  | .ok result =>
    Flow.sync fun s => ((), s.welcome result)
    return .ok ()

/-- Ends the connection without a word. -/
def kill : Flow Server Unit := do
  Flow.pause
  Flow.sync fun s => ((), { s.close "shut down" with listening := false })

/-- Asks the server to end, tells it to exit, and ends the connection. -/
def shutdown : Flow Server Unit := do
  if (← Flow.read Server.state) = .initialized then
    let _ ← request "shutdown" .null
    Flow.sync fun s => ((), (s.notify "exit" .null).2)
  kill

end Server

end Rpc

end EditorHost
