import EditorHost.Proofs.Interleaving
import EditorHost.Rpc.Server

/-!
# Conversations with a language server

Everything that can be called on a server, in any interleaving with the messages of the server, the
end of its output and the passing of time.

Whatever is called puts at most one question to the server, an `Inquiry`, and goes on with the
answer to it.  So a call under way is described by its `Stage`: it has not begun, it waits for the
answer with some number, it is about to end the connection, or it is over.  `staging` says that
these are all stages there are, and what a turn does at each of them.
-/

namespace EditorHost.Rpc

open Interleaving (System Staging Staged Task Pool Move)

/-- A call that puts a question to a server. -/
inductive Inquiry where
  | request (method : String) (params : Json)
  | greet (root : Option Path)
  | shutdown

/-- What can be called on a server. -/
inductive Call where
  | ask (inquiry : Inquiry)
  | kill

/-- What a call ends with. -/
inductive Reply where
  | answered (answer : Answer)
  | greeted (result : Except Fault Unit)
  | ended
  deriving Inhabited

/-- What the surroundings of a server can do. -/
inductive Incident where
  | message (message : Json)
  /-- The server sends nothing more. -/
  | finished
  /-- Nothing can be written to the server any more. -/
  | unwritable

/-- What an incident does to a connection. -/
def Incident.change : Incident → Server → Server
  | message m, s => (s.receive m).2
  | finished, s => s.finish
  | unwritable, s => { s with writable := false }

/-- A connection that has just been made. -/
def Server.connected (language : String) (command : ServerCommand) (timeout processId : Nat) :
    Server :=
  { language, command, timeout, processId }

/-- The connection after it has been ended from this side. -/
def Server.killed (s : Server) : Server := { s.close "shut down" with listening := false }

/-! ## Calls as flows -/

def Inquiry.flow : Inquiry → Flow Server Reply
  | request method params => (Server.request method params).bind fun a => .done (.answered a)
  | greet root => (Server.handshake root).bind fun r => .done (.greeted r)
  | shutdown => Server.shutdown.bind fun _ => .done .ended

def Call.flow : Call → Flow Server Reply
  | ask q => q.flow
  | kill => Server.kill.bind fun _ => .done .ended

/-- Everything that can be called on a server and happen to it. -/
def talk : System Call Incident Server Reply := ⟨Call.flow, Incident.change⟩

/-- A connection that nothing has been called on. -/
def connection (language : String) (command : ServerCommand) (timeout processId : Nat) :
    Pool Call Server Reply :=
  { state := .connected language command timeout processId }

/-- A connection after all that was called on it and happened to it. -/
def conversation (language : String) (command : ServerCommand) (timeout processId : Nat)
    (moves : List (Move Call Incident)) : Pool Call Server Reply :=
  talk.run (connection language command timeout processId) moves

/-! ## Inquiries in three parts -/

namespace Inquiry

def method : Inquiry → String
  | request method _ => method
  | greet _ => "initialize"
  | shutdown => "shutdown"

/-- Whether a question is put at all. -/
def opens (s : Server) : Inquiry → Bool
  | shutdown => s.state = .initialized
  | _ => true

/-- The parameters of the question, and the state of the connection when it is put. -/
def prepare (s : Server) : Inquiry → Json × Server
  | request _ params => (params, s)
  | greet root => (s.initializeParams root, { s with state := .starting })
  | shutdown => (.null, s)

/-- What is left of a call that is about to end the connection. -/
def leaving : Flow Server Reply := Server.kill.bind fun _ => .done .ended

/-- How a call goes on with the answer. -/
def after : Inquiry → Answer → Flow Server Reply
  | request _ _, a => .done (.answered a)
  | greet _, .error fault =>
    .act (fun s => { s with state := .shutdown }) fun _ => .done (.greeted (.error fault))
  | greet _, .ok result => .act (fun s => s.welcome result) fun _ => .done (.greeted (.ok ()))
  | shutdown, _ => .act (fun s => (s.notify "exit" .null).2) fun _ => leaving

/-- What is left of a call that waits for the answer with a number, at most for some time. -/
def awaiting (q : Inquiry) (id : RequestId) (limit : Nat) : Flow Server Reply :=
  .await (fun s => (s.answer? id).isSome) (some limit) fun _ =>
    .act (fun s => (s.collect id q.method).2) fun s => q.after (s.collect id q.method).1

/-- A question of an inquiry, and what comes behind it. -/
def asking (q : Inquiry) (params : Json) : Flow Server Reply :=
  (Server.request q.method params).bind q.after

theorem flow_greet (root : Option Path) :
    (greet root).flow = .act (fun s => ((greet root).prepare s).2) fun s =>
      (greet root).asking ((greet root).prepare s).1 := by
  simp only [asking, flow, Server.handshake, Flow.bind_eq, Flow.sync, Flow.bind, Flow.bind_assoc]
  congr 1
  funext s
  congr 1
  funext a
  cases a <;> rfl

theorem flow_shutdown :
    shutdown.flow = .act id fun s =>
      if shutdown.opens s then shutdown.asking .null else leaving := by
  simp only [flow, Server.shutdown, Flow.bind_eq, Flow.read, Flow.bind]
  congr 1
  funext s
  by_cases hstate : s.state = .initialized
  · simp only [hstate, opens, if_true, decide_true]
    exact Flow.bind_assoc _ _ _
  · simp [hstate, opens, leaving]

end Inquiry

/-! ## Calls as stages -/

/-- How far a call has come. -/
inductive Stage where
  /-- It has begun, and its first turn is still to come. -/
  | fresh (call : Call)
  /-- It waits for the answer with a number. -/
  | waiting (inquiry : Inquiry) (id : RequestId) (limit deadline : Nat)
  /-- It is a shutdown that is about to end the connection. -/
  | leaving
  | done (call : Call) (reply : Reply)

namespace Stage

/-- The call that a stage describes. -/
def task : Stage → Task Call Server Reply
  | fresh call => ⟨call, none, call.flow⟩
  | waiting q id limit deadline => ⟨.ask q, some deadline, q.awaiting id limit⟩
  | leaving => ⟨.ask .shutdown, none, Inquiry.leaving⟩
  | done call reply => ⟨call, none, .done reply⟩

/-- Where an inquiry comes to with the answer to its question. -/
def settled (s : Server) : Inquiry → Answer → Server × Stage
  | .request m params, a => (s, done (.ask (.request m params)) (.answered a))
  | .greet root, .error fault =>
    ({ s with state := .shutdown }, done (.ask (.greet root)) (.greeted (.error fault)))
  | .greet root, .ok result => (s.welcome result, done (.ask (.greet root)) (.greeted (.ok ())))
  | .shutdown, _ => ((s.notify "exit" .null).2, leaving)

/-- Where an inquiry comes to once its question has got a number, or has not. -/
def issued (now : Nat) (q : Inquiry) : Except Fault RequestId × Server → Server × Stage
  | (.ok id, s) => (s, waiting q id s.timeout (now + s.timeout))
  | (.error fault, s) => settled s q (.error fault)

/-- Where an inquiry comes to in its first turn. -/
def asked (now : Nat) (s : Server) (q : Inquiry) : Server × Stage :=
  issued now q ((q.prepare s).2.issue q.method (q.prepare s).1)

/-- What a turn does. -/
def turn (now : Nat) (s : Server) : Stage → Option (Server × Stage)
  | fresh (.ask q) => some (if q.opens s then asked now s q else (s, leaving))
  | fresh .kill => some (s.killed, done .kill .ended)
  | waiting q id _ deadline =>
    if (s.answer? id).isSome || deadline ≤ now then
      some (settled (s.collect id q.method).2 q (s.collect id q.method).1)
    else none
  | leaving => some (s.killed, done (.ask .shutdown) .ended)
  | done _ _ => none

theorem stretch_after (s : Server) (q : Inquiry) (a : Answer) (now : Nat) :
    (q.after a).stretch s = ⟨(settled s q a).1, (settled s q a).2.task.rest, []⟩ ∧
      (settled s q a).2.task = .of now (.ask q) (settled s q a).2.task.rest := by
  cases q <;> cases a <;> exact ⟨rfl, rfl⟩

theorem stretch_asking (s : Server) (q : Inquiry) (params : Json) (now : Nat) :
    let k := issued now q (s.issue q.method params)
    (q.asking params).stretch s = ⟨k.1, k.2.task.rest, []⟩ ∧
      k.2.task = .of now (.ask q) k.2.task.rest := by
  rcases hissue : s.issue q.method params with ⟨fault | id, s'⟩
  · have hstretch : (q.asking params).stretch s = (q.after (.error fault)).stretch s' := by
      simp [Inquiry.asking, Server.request, Flow.sync, Flow.bind, hissue]
    rw [hstretch]
    exact stretch_after s' q (.error fault) now
  · simp [Inquiry.asking, Server.request, Flow.sync, Flow.bind, hissue, issued, task, Task.of,
      Inquiry.awaiting, Flow.read, Flow.within, Flow.waitEnd]

theorem stretch_fresh (s : Server) (q : Inquiry) (now : Nat) :
    let k := if q.opens s then asked now s q else (s, leaving)
    q.flow.stretch s = ⟨k.1, k.2.task.rest, []⟩ ∧ k.2.task = .of now (.ask q) k.2.task.rest := by
  cases q with
  | request m params => exact stretch_asking s (.request m params) params now
  | greet root =>
      rw [Inquiry.flow_greet]
      exact stretch_asking ((Inquiry.greet root).prepare s).2 (.greet root) _ now
  | shutdown =>
      rw [Inquiry.flow_shutdown]
      by_cases hopens : Inquiry.shutdown.opens s
      · simp only [Flow.stretch_act, hopens, if_true]
        exact stretch_asking s .shutdown .null now
      · simp only [Flow.stretch_act, hopens]
        exact ⟨rfl, rfl⟩

/-- What a turn does to a stage is what it does to the call. -/
theorem stretch_turn {now : Nat} {s s' : Server} {k k' : Stage}
    (hturn : k.turn now s = some (s', k')) :
    (k.task.rest.wake s).stretch s = ⟨s', k'.task.rest, []⟩ ∧
      k'.task = .of now k.task.call k'.task.rest := by
  cases k with
  | fresh call =>
      cases call with
      | ask q =>
          have hwake : (fresh (.ask q)).task.rest.wake s = q.flow := by
            cases q <;> rfl
          rw [turn, Option.some.injEq] at hturn
          obtain ⟨hstretch, htask⟩ := stretch_fresh s q now
          rw [hwake, hstretch]
          rw [hturn] at htask ⊢
          exact ⟨rfl, htask⟩
      | kill =>
          cases hturn
          exact ⟨rfl, rfl⟩
  | waiting q id limit deadline =>
      rw [turn] at hturn
      split at hturn
      · rw [Option.some.injEq] at hturn
        have hafter := stretch_after (s.collect id q.method).2 q (s.collect id q.method).1 now
        rwa [hturn] at hafter
      · cases hturn
  | leaving =>
      cases hturn
      exact ⟨rfl, rfl⟩
  | done call reply => cases hturn

theorem isReady_task (now : Nat) (s : Server) (k : Stage) :
    k.task.isReady now s = (k.turn now s).isSome := by
  cases k with
  | fresh call =>
      cases call with
      | ask q => cases q <;> rfl
      | kill => rfl
  | waiting q id limit deadline =>
      simp only [task, Task.isReady, Inquiry.awaiting, Flow.canGoOn, Option.any_some, turn]
      split <;> simp_all
  | leaving => rfl
  | done call reply => rfl

end Stage

/-- Every call on a server, by its stages. -/
def staging : Staging talk Stage where
  task := Stage.task
  first _ := Stage.fresh
  turn := Stage.turn
  task_first now call := by
    cases call with
    | ask q => cases q <;> rfl
    | kill => rfl
  isReady_task := Stage.isReady_task
  stretch_task _ _ _ _ _ := Stage.stretch_turn

/-- A connection that nothing has been called on, by stages. -/
def stagedConnection (language : String) (command : ServerCommand) (timeout processId : Nat) :
    Staged Server Stage :=
  { state := .connected language command timeout processId }

variable (language : String) (command : ServerCommand) (timeout processId : Nat)

/-- A connection after all that was called on it and happened to it, by stages. -/
def stagedConversation (moves : List (Move Call Incident)) : Staged Server Stage :=
  staging.run (stagedConnection language command timeout processId) moves

/-- Calls on a connection go as their stages do. -/
theorem conversation_eq (moves : List (Move Call Incident)) :
    conversation language command timeout processId moves =
      staging.pool (stagedConversation language command timeout processId moves) :=
  staging.run_pool (stagedConnection language command timeout processId) moves

theorem stagedConversation_append (moves later : List (Move Call Incident)) :
    stagedConversation language command timeout processId (moves ++ later) =
      staging.run (stagedConversation language command timeout processId moves) later :=
  staging.run_append _ moves later

end EditorHost.Rpc
