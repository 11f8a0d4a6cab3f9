import EditorHost.Scenario.Session

/-!
# Interviews of one language server

An interview plays a script against a single server: requests, notifications and the end of the
conversation on one side, and what a scripted peer sends on the other.  After each step the state of
the connection is stated.
-/

namespace EditorHost.Scenario

open Rpc (Client Server Answer)
open Stage

/-- What an interview is about. -/
structure Interview where
  language : String
  command : ServerCommand
  timeout : Nat
  steps : List Json

namespace Interview

/-- The only server of an interview. -/
def server : Focus Stage Server := World.clientPart.comp (Client.server 0)

/-- What came of a request. -/
def ofAnswer (answer : Answer) : Json := Transcript.ofResult answer

/-- A request of a script. -/
def request (step : Json) : Flow Stage Json := do
  return ofAnswer (← (Server.request (textOf step "method") (valueOf step "params")).focus server)

/-- Starts a request on the side. -/
def begin_ (step : Json) : Flow Stage Unit := do
  let number ← Flow.read fun w => w.own.answers.length
  Flow.sync (note fun s => { s with
    begun := s.begun.insert (Step.nameOf step) number, answers := s.answers ++ [none] })
  Flow.start .background do
    let answer ← request step
    Flow.sync (note fun s => { s with answers := s.answers.set number (some answer) })

/-- Waits for the request that was last begun under a name, once. -/
def await_ (step : Json) : Flow Stage Json := do
  match ← Flow.read fun w => w.own.begun.find? (Step.nameOf step) with
  | none => return .null
  | some number =>
    Flow.sync (note fun s => { s with begun := s.begun.erase (Step.nameOf step) })
    let answer (w : Stage) : Option Json := (w.own.answers[number]?).join
    Flow.untilReady fun w => (answer w).isSome
    return .ofOption (← Flow.read answer)

/-- Does a step of an interview over a line. -/
def play (line : Nat) (step : Json) : Flow Stage Json := do
  match textOf step "do" with
  | "initialize" =>
    let root := (step.textField? "root").map Path.mk
    return Transcript.ofUnit (← (Server.handshake root).focus server)
  | "request" => request step
  | "requests" =>
    return .array (← joinAll ((textsOf step "list").map fun method => do
      return ofAnswer (← (Server.request method .null).focus server)))
  | "begin" =>
    begin_ step
    return .null
  | "await" => await_ step
  | "advance" =>
    Flow.sleep (natOr 0 step "ms")
    return .null
  | "notify" =>
    return .bool (← Flow.sync (server.zoom fun s =>
      s.notify (textOf step "method") (valueOf step "params")))
  | "server_send" =>
    Play.sendFrom line step
    return .null
  | "server_drop" =>
    Flow.sync (Play.leaveFrom line)
    return .null
  | "shutdown" =>
    Server.shutdown.focus server
    return .null
  | "kill" =>
    Server.kill.focus server
    return .null
  | _ => return Transcript.badStep

/-- What is stated about a step. -/
def entry (r : Json) (w : Stage) : Json :=
  let s := server.get w
  .ofFields ([("r", r), ("state", .text s.state.name),
    ("initialized", .bool (s.state = .initialized)),
    ("capabilities", .ofOption s.capabilities), ("pending", .whole s.pending.length)] ++
    Session.fieldUnlessEmpty "sent" ((Session.receivedIn w).map Prod.snd) ++
    Session.fieldUnlessEmpty "events" (Session.eventsJson [] "" w.events) ++
    Session.fieldUnlessEmpty "logs" (w.log.map fun entry => (Session.logJson entry).2))

def playSteps (line : Nat) : List Json → Flow Stage Unit
  | [] => .done ()
  | step :: rest => do
    Flow.sync (note (changePeer line fun p =>
      { p with replies := p.replies ++ listOf step "replies" }))
    let r ← play line step
    Flow.sleep 1
    Flow.sync (Session.keepEntry (entry r))
    playSteps line rest

/-- What is stated about the steps of an interview. -/
def run (i : Interview) : Json :=
  let world : Stage := {
    disk := .empty, api := {}, host := { layout := .ofDataDir ⟨""⟩ }
    client := { settings := ⟨i.timeout, []⟩, processId := Session.processId }
    own := { root := ⟨""⟩ } }
  let flow : Flow Stage Unit := do
    let line ← addPeer i.language []
    let _ ← Flow.sync (World.clientPart.zoom fun c => c.attach i.language i.command line)
    playSteps line i.steps
  .array (Rounds.runFlow flow world).own.entries

end Interview

end EditorHost.Scenario
