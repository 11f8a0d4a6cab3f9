import EditorHost.Scenario.Peer
import EditorHost.Scenario.Transcript
import EditorHost.Rounds
import EditorHost.Workbench

/-!
# The stage of a scenario

A scenario plays on a world whose extensions are played by scripts.  A script remembers what it made
under names: handles, documents, status bar items and so on.  Whatever it registers is described by
a part of the script, whose number is the number of the piece of code.

Messages between language servers and the peers that play them are moved by three strands for every
line: one takes messages from the client, one lets the peer receive them, and one lets the client
read what the peer sent.
-/

namespace EditorHost.Scenario

open Rpc (Client Server)

/-- What a script remembers. -/
structure Script where
  /-- The folder in which the files of the scenario lie. -/
  root : Path
  /-- What plays the entry module of each extension. -/
  modules : Table Json := []
  /-- What plays each piece of code. -/
  parts : List Json := []
  handles : Table HandleId := []
  documents : Table DocumentId := []
  sections : Table Configuration := []
  items : Table String := []
  channels : Table OutputChannel := []
  collections : Table Nat := []
  contexts : Table ContextId := []
  /-- What was noted during a step. -/
  trace : List Json := []
  /-- The names of status bar items, by their identifiers. -/
  itemNames : List (String × String) := []
  peers : List Peer := []
  /-- What peers received during a step, with their languages. -/
  received : List (String × Json) := []
  /-- How many programs have got their peers. -/
  peered : Nat := 0
  /-- Results of requests that run on the side. -/
  begun : Table Nat := []
  /-- The answers to the requests on the side, as far as they have come. -/
  answers : List (Option Json) := []
  /-- Results of work that was started together. -/
  joined : List (List (Nat × Json)) := []
  /-- What is said about each step so far. -/
  entries : List Json := []
  deriving Inhabited

/-- A world whose extensions are played by scripts. -/
abbrev Stage := World Script

namespace Stage

/-- Changes what the script remembers. -/
def note (change : Script → Script) : StateM Stage Unit :=
  modify fun w => { w with own := change w.own }

/-- Adds something to what was noted. -/
def trace (fields : List (String × Json)) : StateM Stage Unit :=
  note fun s => { s with trace := s.trace ++ [.ofFields fields] }

/-- A number for a piece of code that a part of the script plays. -/
def assign (part : Json) : StateM Stage Callback := do
  let number := (← get).own.parts.length
  note fun s => { s with parts := s.parts ++ [part] }
  return number

/-- The part of the script that plays a piece of code. -/
def part (callback : Callback) : StateM Stage Json := do
  return (((← get).own.parts)[callback]?).getD .null

/-- A document as it is shown. -/
def documentJson (w : Stage) (id : DocumentId) : Json :=
  .ofOption ((w.api.documents.object? id).map Document.toJson)

/-! ## Peers -/

/-- Changes the peer at the end of a line. -/
def changePeer (line : Nat) (change : Peer → Peer) (s : Script) : Script :=
  { s with peers := s.peers.map fun p => if p.line = line then change p else p }

/-- The peer at the end of a line. -/
def peerAt? (line : Nat) (s : Script) : Option Peer := s.peers.find? fun p => p.line == line

/-- The newest scripted peer of a language. -/
def peerOf? (language : String) (s : Script) : Option Peer :=
  s.peers.reverse.find? fun p => p.language == language && p.behaviour == .scripted

/-- The server that is connected over a line. -/
def serverAt? (line : Nat) (c : Client) : Option Rpc.ServerId :=
  (List.range c.connections.length).find? fun id =>
    ((c.connections[id]?).map Rpc.Connection.line) == some line

/-- The next message of the client on a line, if one is queued, and its server. -/
def queuedOn? (line : Nat) (w : Stage) : Option (Rpc.ServerId × Json) := do
  let p ← peerAt? line w.own
  let id ← serverAt? line w.client
  let server := (Client.server id).get w.client
  if server.writable then return (id, ← server.queued[p.taken]?) else none

/-- Moves a message of the client to the peer.  When the peer has left, nothing more can be
queued. -/
def carry (line : Nat) : StateM Stage Unit := do
  match queuedOn? line (← get) with
  | none => return ()
  | some (id, message) =>
    if ((peerAt? line (← get).own).map Peer.hasLeft).getD true then
      modify fun w => { w with
        client := w.client.modifyServer id fun s => { s with writable := false } }
    else
      let arrived := Rpc.messages (Rpc.Decoder.feed {} (Rpc.encode message)).1
      note (changePeer line fun p =>
        { p with taken := p.taken + 1, arrived := p.arrived ++ arrived })

/-- Lets a peer receive a message. -/
def receive (line : Nat) : StateM Stage Unit := do
  match (peerAt? line (← get).own).bind Peer.next? with
  | none => return ()
  | some (message, p) =>
    note (changePeer line fun _ => p.take message)
    if p.behaviour = .scripted then
      note fun s => { s with received := s.received ++ [(p.language, message)] }

/-- What the client can read on a line: octets, or the end. -/
def readable (line : Nat) (w : Stage) : Bool :=
  match peerAt? line w.own, serverAt? line w.client with
  | some p, some id =>
    ((Client.server id).get w.client).listening && !p.isOver && (!p.sending.isEmpty || p.hasLeft)
  | _, _ => false

/-- Lets a server take the messages among some items. -/
def deliver (id : Rpc.ServerId) (items : List Rpc.Item) : StateM Stage Unit := do
  for message in Rpc.messages items do
    let server := (Client.server id).get (← get).client
    let (effects, changed) := server.receive message
    modify fun w => { w with client := w.client.modifyServer id fun _ => changed }
    for effect in effects do World.pass server.language effect

/-- Lets the client read what is on a line. -/
def read (line : Nat) : StateM Stage Unit := do
  let w ← get
  match peerAt? line w.own, serverAt? line w.client with
  | some p, some id =>
    match p.sending with
    | octets :: rest =>
      let (items, decoder) := p.decoder.feed octets
      note (changePeer line fun p => { p with sending := rest, decoder })
      deliver id items
    | [] =>
      note (changePeer line fun p => { p with isOver := true })
      deliver id p.decoder.finish.1
      modify fun w => { w with client := w.client.modifyServer id Server.finish }
  | _, _ => return ()

/-- Does something again and again, whenever the state allows it. -/
def whenever (ready : Stage → Bool) (body : StateM Stage Unit) : Nat → Strand Stage
  | 0 => .stop
  | times + 1 =>
    .await ready none fun _ => .act (fun w => (body w).2) fun _ => whenever ready body times

/-- How often a strand of a line does its work at most. -/
def maxTurns : Nat := 1000000

/-- Starts the strands of a line. -/
def startLine (line : Nat) : Flow Stage Unit := do
  .fork .device (whenever (fun w => (queuedOn? line w).isSome) (carry line) maxTurns) (.done ())
  .fork .device (whenever (fun w => ((peerAt? line w.own).bind Peer.next?).isSome) (receive line)
    maxTurns) (.done ())
  .fork .device (whenever (readable line) (read line) maxTurns) (.done ())

/-- Puts a new peer at the end of a new line.  An earlier one of the language leaves. -/
def addPeer (language : String) (replies : List Json) : Flow Stage Nat := do
  let line ← Flow.sync (World.clientPart.zoom Client.newLine)
  Flow.sync (note fun s => { s with
    peers := (s.peers.map fun p =>
      if p.language = language ∧ p.behaviour = .scripted then { p with hasLeft := true } else p) ++
      [{ line, language, replies }] })
  startLine line
  return line

/-- Adds replies to the queues of peers, by language. -/
def addReplies (replies : List (String × Json)) : StateM Stage Unit := do
  for (language, added) in replies do
    match peerOf? language (← get).own with
    | some peer =>
      note (changePeer peer.line fun p =>
        { p with replies := p.replies ++ (added.asArray?.getD []) })
    | none => pure ()

/-! ## Programs -/

/-- The octets that a line of a shell script prints, if it prints some. -/
def printed? (command : String) : Option (List UInt8) :=
  match Text.splitText ' ' command with
  | "echo" :: words =>
    if words.contains ">&2" then some [] else some (Utf8.encode (" ".intercalate words ++ "\n"))
  | _ => none

/-- What a shell script does: what it prints, and what it becomes; `none` when it ends at once. -/
def shellScript : List String → List UInt8 × Option Behaviour
  | [] => ([], none)
  | command :: rest =>
    match printed? command with
    | some octets =>
      let (others, behaviour) := shellScript rest
      (octets ++ others, behaviour)
    | none =>
      if command = "cat" ∨ command = "exec cat" then ([], some .echo)
      else if Text.startsWith command "sleep" ∨ Text.startsWith command "exec sleep" then
        ([], some .silent)
      else shellScript rest

/-- What a program prints at its start, and what it does; `none` when it ends at once. -/
def programOf (command : ServerCommand) : List UInt8 × Option Behaviour :=
  if command.command = "cat" then ([], some .echo)
  else if command.command = "sleep" then ([], some .silent)
  else if command.command = "sh" then
    match command.args with
    | ["-c", script] =>
      shellScript ((Text.splitText ';' script).map fun part =>
        String.ofList (Text.trim part.toList))
    | _ => ([], some .silent)
  else ([], none)

/-- The programs that can be started. -/
def programs : List String := ["cat", "true", "false", "sh", "sleep"]

/-- The peer that stands for a program. -/
def peerOfProgram (line : Nat) (language : String) (command : ServerCommand) : Peer :=
  let (printed, behaviour) := programOf command
  { line, language, behaviour := behaviour.getD .silent
    sending := if printed.isEmpty then [] else [printed]
    hasLeft := behaviour.isNone }

/-- Gives every program that is started its peer. -/
def startPrograms : Nat → Strand Stage
  | 0 => .stop
  | times + 1 =>
    .await (fun w => w.own.peered < w.client.launched.length) none fun _ =>
      .act (fun w =>
        match w.client.launched[w.own.peered]? with
        | none => w
        | some (line, command) =>
          let language := ((serverAt? line w.client).map fun id =>
            ((Client.server id).get w.client).language).getD ""
          { w with own := { w.own with
            peered := w.own.peered + 1
            peers := w.own.peers ++ [peerOfProgram line language command] } })
        fun w =>
          match w.client.launched[w.own.peered]? with
          | none => startPrograms times
          | some (line, _) => (startLine line).thenStrand fun _ => startPrograms times

end Stage

end EditorHost.Scenario
