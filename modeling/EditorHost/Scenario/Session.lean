import EditorHost.Scenario.Cast
import EditorHost.Settings.Store

/-!
# Sessions

A session plays a script on a new world, step by step, and states for each step what came of it,
what was noted, which events were told, what scripted servers received, and what they logged.

Unless a session follows the real time, a millisecond passes after every step, so that everything
that can be done is done.
-/

namespace EditorHost.Scenario

open Rpc (Client)
open Stage

/-- How many events a listener of the user interface has room for. -/
def eventRoom : Nat := 256

/-- Sorts values by a key, equal ones as they stand. -/
def sortedBy (key : Json → String) (values : List Json) : List Json :=
  values.mergeSort fun a b => !(key b < key a)

/-- The URI that the payload of an event is about. -/
def payloadUri (v : Json) : String := ((v.get? "payload").bind fun p => p.textField? "uri").getD ""

/-- The URI of the document that a message is about. -/
def messageUri (v : Json) : String :=
  (((v.get? "params").bind fun p => p.get? "textDocument").bind fun d => d.textField? "uri").getD ""

namespace Session

/-- An event as it is stated, status bar items under the names that the script gave them. -/
def eventJson (names : List (String × String)) : Event → Json
  | .statusBarUpdate items =>
    (Event.statusBarUpdate (items.map fun i =>
      { i with id := (Table.find? names i.id).getD i.id })).toJson
  | e => e.toJson

/-- The events of a step; when there are too many, the newest and how many others there were. -/
def eventsJson (names : List (String × String)) (word : String) (events : List Event) : List Json :=
  let stated := events.map (eventJson names)
  let lost := stated.length - eventRoom
  let shown :=
    if 0 < lost then .ofFields [("lagged", .whole lost)] :: stated.drop lost else stated
  if word = "diag_clear" ∨ word = "dispose" then sortedBy payloadUri shown else shown

/-- A message of the client as it is stated. -/
def messageJson (processId : Nat) (m : Json) : Json :=
  match m with
  | .object fields =>
    match (Json.object fields).get? "params" with
    | some (.object params) =>
      if Table.find? params "processId" = some (.whole processId) then
        .object (Table.insert fields "params"
          (.object (Table.insert params "processId" (.text "PID"))))
      else m
    | _ => m
  | m => m

/-- The messages that a server received, those about documents from the first opening on by URI when
the server was new. -/
def sentJson (word : String) (messages : List Json) : List Json :=
  if word = "lsp_connect" then
    let isOther (m : Json) : Bool := m.textField? "method" != some "textDocument/didOpen"
    messages.takeWhile isOther ++ sortedBy messageUri (messages.dropWhile isOther)
  else messages

/-- Pairs grouped by their names. -/
def grouped (pairs : List (String × Json)) : Table (List Json) :=
  pairs.foldl (fun t (name, v) => t.insert name ((t.find? name).getD [] ++ [v])) []

def logJson (line : LogLine) : String × Json :=
  (line.language, .ofTexts [line.level.name, line.text])

/-- A field that is left out when there is nothing in it. -/
def fieldUnlessEmpty (name : String) (items : List Json) : List (String × Json) :=
  if items.isEmpty then [] else [(name, .array items)]

/-- A field with a table that is left out when there is nothing in it. -/
def tableUnlessEmpty (name : String) (table : Table Json) : List (String × Json) :=
  if table.isEmpty then [] else [(name, .object table)]

/-- The messages that peers received during a step. -/
def receivedIn (w : Stage) : List (String × Json) :=
  w.own.received.map fun (language, m) => (language, messageJson w.client.processId m)

/-- Forgets what is only stated once. -/
def clean (w : Stage) : Stage :=
  { w with events := [], log := [], own := { w.own with trace := [], received := [] } }

/-- What is stated about a step. -/
def entry (step : Json) (reply : Reply) (w : Stage) : Json :=
  let word := textOf step "do"
  .ofFields ([("r", reply.toJson)] ++
    fieldUnlessEmpty "trace" (sortedBy (fun v => textOf v "ext") w.own.trace) ++
    fieldUnlessEmpty "events" (eventsJson w.own.itemNames word w.events) ++
    tableUnlessEmpty "sent"
      ((grouped (receivedIn w)).mapValues fun ms => .array (sentJson word ms)) ++
    tableUnlessEmpty "logs" ((grouped (w.log.map logJson)).mapValues .array))

/-- Keeps what is stated about a step. -/
def keepEntry (state : Stage → Json) : StateM Stage Unit := do
  let stated := state (← get)
  modify clean
  note fun s => { s with entries := s.entries ++ [stated] }

/-- Plays the steps of a session. -/
def playSteps (kind : Kind) (code : Code Script) (isReal : Bool) : List Json → Flow Stage Unit
  | [] => .done ()
  | step :: rest => do
    Flow.sync (addReplies (fieldsOf step "replies"))
    let reply ← Play.play kind code none step
    if !isReal then Flow.sleep 1
    Flow.sync (keepEntry (entry step reply))
    playSteps kind code isReal rest

end Session

/-- What a session is about, and where it plays. -/
structure Session where
  kind : Kind
  root : Path
  disk : Disk
  bundled : Option String
  /-- The settings of language servers; none that can be read if they are malformed. -/
  servers : Option ServerSettings
  /-- The settings tree, if it is not the one of the settings file. -/
  configuration : Option Json
  workspace : Option String
  modules : Table Json
  isReal : Bool
  steps : List Json

namespace Session

/-- The number of the process that the servers of a scenario are told. -/
def processId : Nat := 4711004711

/-- The world of a session at its start. -/
def world (s : Session) (settings : Settings) (servers : ServerSettings) : Stage :=
  let tree := if s.kind = .workbench then settings.tree else s.configuration.getD settings.tree
  let api := Api.ofConfiguration tree
  { disk := s.disk
    api := if s.kind = .workbench then { api with folders := s.workspace.toList } else api
    host := .ofDisk s.disk settings.layout
    client := {
      settings := servers, root := s.workspace.map Path.mk, processId, programs := Stage.programs }
    own := { root := s.root, modules := s.modules } }

/-- What is stated about the steps of a session, or the fault that kept it from starting. -/
def run (s : Session) : Json :=
  let layout := Layout.ofDataDir s.root
  let layout := match s.bundled with
    | some dir => layout.withBundled (s.root.join dir)
    | none => layout
  match Settings.load s.disk layout, s.servers with
  | .error fault, _ => Transcript.ofFault fault
  | .ok _, none => .ofFields [("error", .text "json"), ("message", .text "JSON error")]
  | .ok settings, some servers =>
    let code := Cast.code s.kind s.modules Cast.maxDepth
    let flow : Flow Stage Unit := do
      .fork .device (startPrograms maxTurns) (.done ())
      playSteps s.kind code s.isReal s.steps
    .array (Rounds.runFlow flow (s.world settings servers)).own.entries

end Session

end EditorHost.Scenario
