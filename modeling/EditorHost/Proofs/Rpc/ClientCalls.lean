import EditorHost.Proofs.Interference
import EditorHost.Proofs.Rpc.Conversation
import EditorHost.Proofs.Rpc.Requests
import EditorHost.Proofs.Uninterrupted
import EditorHost.Rpc.Client

/-!
# Calls on the client of all language servers

What can be called on a client, in any interleaving with what its servers do.  A call about
documents is done in one step, and so is the end of all servers at once.  The start of a server
takes two: it is asked to start, and some time later its answer, or the lack of it, is dealt with,
all at once.  To shut servers down in an orderly way takes as many steps as there are waits in it.

The program itself lets go of a call in more places than these.  What calls come to in the steps
above, they can come to in its steps too, if nothing happens to intervene (`exists_plain_run`).

## Contents

* `ClientCall` and `clientCalls` are the calls and the system that they make up; in `plainCalls`
  they may be interrupted wherever the program lets go of them.
* `Client.opened`, `Client.changed`, `Client.saved`, `Client.closed`, `Client.forced`,
  `Client.asked` and `Client.greeted` are what the steps do; the lemmas `stretch_…` say so.
  `Client.answered` is what the answer of a new server leads to where the call may be interrupted.
* `Client.Touches` is what the orderly shutdown of some servers is confined to.
-/

namespace EditorHost.Rpc

open Interleaving (Move System)

/-- What can be called on a client. -/
inductive ClientCall where
  | didOpen (uri language text : String)
  | didChange (uri text : String)
  | didSave (uri : String)
  | didClose (uri : String)
  | connect (language : String) (command : ServerCommand) (line : Nat)
  | start (language : String)
  | shutdownServer (language : String)
  | shutdownAll
  | forceShutdown

def ClientCall.flow : ClientCall → Flow Client Unit
  | didOpen uri language text => (Client.didOpen uri language text).eager
  | didChange uri text => (Client.didChange uri text).eager
  | didSave uri => (Client.didSave uri).eager
  | didClose uri => (Client.didClose uri).eager
  | connect language command line =>
    ((Client.connect language command line).bind fun _ => .done ()).eager
  | start language => ((Client.startServer language).bind fun _ => .done ()).eager
  | shutdownServer language => Client.shutdownServer language
  | shutdownAll => Client.shutdownAll
  | forceShutdown => Client.forceShutdown.eager

/-- What can be called on a client, and what can happen to its servers. -/
def clientCalls : System ClientCall (ServerId × Incident) Client Unit where
  flow := ClientCall.flow
  outside event := (Client.server event.1).modify event.2.change

/-- The calls as the program has them, which may be interrupted wherever it lets go of them. -/
def ClientCall.plain : ClientCall → Flow Client Unit
  | didOpen uri language text => Client.didOpen uri language text
  | didChange uri text => Client.didChange uri text
  | didSave uri => Client.didSave uri
  | didClose uri => Client.didClose uri
  | connect language command line =>
    (Client.connect language command line).bind fun _ => .done ()
  | start language => (Client.startServer language).bind fun _ => .done ()
  | shutdownServer language => Client.shutdownServer language
  | shutdownAll => Client.shutdownAll
  | forceShutdown => Client.forceShutdown

@[inherit_doc ClientCall.plain]
def plainCalls : System ClientCall (ServerId × Incident) Client Unit where
  flow := ClientCall.plain
  outside := clientCalls.outside

theorem ClientCall.hastens (call : ClientCall) : call.flow.Hastens call.plain := by
  cases call with
  | shutdownServer language => exact .same _
  | shutdownAll => exact .same _
  | didOpen uri language text => exact .eager fun _ => rfl
  | didChange uri text => exact .eager fun _ => rfl
  | didSave uri => exact .eager fun _ => rfl
  | didClose uri => exact .eager fun _ => rfl
  | connect language command line => exact .eager fun _ => rfl
  | start language => exact .eager fun _ => rfl
  | forceShutdown => exact .eager fun _ => rfl

/-- Whatever a client comes to by calls that are not interrupted, it can come to by those that may
be, and the calls under way are the same. -/
theorem exists_plain_run (c : Client) (moves : List (Move ClientCall (ServerId × Incident))) :
    ∃ moves', (clientCalls.run { state := c } moves).Hastens
      (plainCalls.run { state := c } moves') := by
  have houtside : clientCalls.outside = plainCalls.outside := rfl
  exact System.run_hastened ClientCall.hastens houtside (.idle c) moves

/-- The connection to a server that is to be asked to start. -/
def Server.starting (s : Server) : Server := { s with state := .starting }

/-- The connection to a server that has not started. -/
def Server.failed (s : Server) : Server := { s with state := .shutdown }

namespace Client

variable (c : Client)

/-! ## One server of many -/

section Server

variable {c} {id : ServerId}

theorem get_modifyServer (hid : id < c.connections.length) (change : Server → Server) :
    (server id).get (c.modifyServer id change) = change ((server id).get c) := by
  simp [server, modifyServer, hid]

theorem get_modify (hid : id < c.connections.length) (change : Server → Server) :
    (server id).get ((server id).modify change c) = change ((server id).get c) :=
  get_modifyServer hid fun _ => change ((server id).get c)

theorem get_modifyServer_of_ne {other : ServerId} (h : other ≠ id) (change : Server → Server) :
    (server other).get (c.modifyServer id change) = (server other).get c := by
  simp [server, modifyServer, h.symm]

/-- A server that is left as it is. -/
theorem modify_id (c : Client) : (server id).modify (fun s => s) c = c := by
  have hsame : c.connections.modify id (fun k => { k with server := (server id).get c }) =
      c.connections := by
    refine List.ext_getElem? fun n => ?_
    rw [List.getElem?_modify]
    by_cases h : id = n
    · subst h
      cases hc : c.connections[id]? <;> simp [server, hc]
    · simp [h]
  simp only [Focus.modify, server, modifyServer] at hsame ⊢
  rw [hsame]

@[simp] theorem length_modifyServer (change : Server → Server) :
    (c.modifyServer id change).connections.length = c.connections.length := by
  simp [modifyServer]

end Server

/-! ## What the steps do -/

def opened (uri language text : String) : Client :=
  match c.track uri language text with
  | ((none, d), c) => c.tellOpened uri d
  | ((some previous, d), c) =>
    if previous = language then c.tellChanged uri d
    else (c.tellClosed uri previous).tellOpened uri d

def changed (uri text : String) : Client :=
  match c.retext uri text with
  | (none, c) => c
  | (some d, c) => c.tellChanged uri d

def saved (uri : String) : Client :=
  match c.documents.find? uri with
  | none => c
  | some d => c.tellSaved uri d

def closed (uri : String) : Client :=
  match c.documents.find? uri with
  | none => c
  | some d =>
    let c := c.tellClosed uri d.language
    { c with documents := c.documents.erase uri }

/-- The client after some servers have been ended without a word. -/
def killAll (ids : List ServerId) : Client :=
  ids.foldl (fun c id => (server id).modify Server.killed c) c

def forced : Client := { c.forgetAll.2.killAll c.forgetAll.1 with documents := [] }

/-- The client after a new server has been asked to start. -/
def asked (id : ServerId) : Client :=
  let params := ((server id).get c).initializeParams c.root
  (server id).modify (fun s => s.numbered "initialize" params)
    ((server id).modify Server.starting c)

/-- The client after the answer of a server on its start, or the lack of it, has been dealt with. -/
def greeted (id : ServerId) : Client :=
  let collected := (server id).modify (fun s => (s.collect 1 "initialize").2) c
  match (((server id).get c).collect 1 "initialize").1 with
  | .ok result => ((server id).modify (fun s => s.welcome result) collected).replay id
  | .error _ =>
    (server id).modify Server.killed ((server id).modify Server.failed collected)

/-- What is left of a start that has failed: the server is ended. -/
def dismissing (id : ServerId) (fault : Fault) : Flow Client (Except Fault Unit) :=
  (Server.kill.focus (server id)).bind fun _ => .done (.error fault)

/-- What is left of a start that has worked: the server is told the open documents. -/
def introducing (id : ServerId) : Flow Client (Except Fault Unit) :=
  Flow.pause.bind fun _ => (Flow.sync fun c => ((), c.replay id)).bind fun _ => .done (.ok ())

/-- What a start comes to with the answer of its server, or the lack of it. -/
def answered (c : Client) (id : ServerId) : Flow.Stretch Client (Except Fault Unit) :=
  let collected := (server id).modify (fun s => (s.collect 1 "initialize").2) c
  match (((server id).get c).collect 1 "initialize").1 with
  | .ok result => ⟨(server id).modify (fun s => s.welcome result) collected, introducing id, []⟩
  | .error fault => ⟨(server id).modify Server.failed collected, dismissing id fault, []⟩

/-! ## Calls that take one step -/

theorem stretch_didOpen (uri language text : String) :
    (ClientCall.didOpen uri language text).flow.stretch c =
      ⟨c.opened uri language text, .done (), []⟩ := by
  simp only [ClientCall.flow, didOpen, opened, Flow.bind_eq, Flow.stretch_eager_pause,
    Flow.stretch_eager_sync_bind]
  rcases c.track uri language text with ⟨⟨_ | previous, d⟩, c'⟩
  · rfl
  · by_cases h : previous = language
    · simp only [h, if_true]
      rfl
    · simp only [h, if_false]
      rfl

theorem stretch_didChange (uri text : String) :
    (ClientCall.didChange uri text).flow.stretch c = ⟨c.changed uri text, .done (), []⟩ := by
  simp only [ClientCall.flow, didChange, changed, Flow.bind_eq, Flow.stretch_eager_pause,
    Flow.stretch_eager_sync_bind]
  rcases c.retext uri text with ⟨_ | d, c'⟩ <;> rfl

theorem stretch_didSave (uri : String) :
    (ClientCall.didSave uri).flow.stretch c = ⟨c.saved uri, .done (), []⟩ := by
  simp only [ClientCall.flow, didSave, saved, Flow.bind_eq, Flow.stretch_eager_pause,
    Flow.stretch_eager_read_bind]
  cases c.documents.find? uri <;> rfl

theorem stretch_didClose (uri : String) :
    (ClientCall.didClose uri).flow.stretch c = ⟨c.closed uri, .done (), []⟩ := by
  simp only [ClientCall.flow, didClose, closed, Flow.bind_eq, Flow.stretch_eager_pause,
    Flow.stretch_eager_read_bind]
  cases c.documents.find? uri <;> rfl

theorem stretch_killAll (ids : List ServerId) (k : Unit → Flow Client Unit) :
    ((Flow.each ids fun id => Server.kill.focus (server id)).bind k).eager.stretch c =
      (k ()).eager.stretch (c.killAll ids) := by
  induction ids generalizing c with
  | nil => rfl
  | cons id ids ih => exact ih ((server id).modify Server.killed c)

theorem stretch_forceShutdown :
    ClientCall.forceShutdown.flow.stretch c = ⟨c.forced, .done (), []⟩ := by
  simp only [ClientCall.flow, forceShutdown, Flow.bind_eq, Flow.stretch_eager_pause,
    Flow.stretch_eager_sync_bind, stretch_killAll]
  rfl

/-! ## The start of a server -/

variable {c} in
theorem get_asked {id : ServerId} (hid : id < c.connections.length) :
    (server id).get (c.asked id) = ((server id).get c).starting.numbered "initialize"
      (((server id).get c).initializeParams c.root) := by
  have hlength : id < ((server id).modify Server.starting c).connections.length := by
    simpa [Focus.modify, server] using hid
  rw [asked, get_modify hlength, get_modify hid]

/-- A request that can be written is waited for. -/
theorem stretch_request {α : Type} {id : ServerId}
    (hclosed : ((server id).get c).closed = false)
    (hwritable : ((server id).get c).writable = true) (method : String) (params : Json)
    (k : Answer → Flow Client α) :
    ∃ limit, (((Server.request method params).focus (server id)).bind k).stretch c =
      ⟨(server id).modify (fun s => s.numbered method params) c,
        .await (fun c' => (((server id).get c').answer? ((server id).get c).nextId).isSome) limit
          fun _ => (Flow.sync ((server id).zoom fun s =>
            s.collect ((server id).get c).nextId method)).bind k, []⟩ := by
  have hissue : (server id).zoom (fun s => s.issue method params) c =
      (.ok ((server id).get c).nextId,
        (server id).modify (fun s => s.numbered method params) c) := by
    simp only [Focus.zoom, Server.issue_of_open hclosed hwritable method params]
    rfl
  have hread : (Flow.read Server.timeout).focus (server id) =
      .act ((server id).modify fun s => s) fun c => .done ((server id).get c).timeout := rfl
  simp only [Server.request, Flow.bind_eq, Flow.focus_bind, Flow.bind_assoc, Flow.focus_sync,
    Flow.stretch_sync_bind, hissue]
  rw [hread]
  simp only [Flow.bind, Flow.stretch_act, modify_id, Flow.within]
  exact ⟨_, rfl⟩

/-- A new server is asked to start, and its answer is waited for. -/
theorem stretch_greet {id : ServerId} (hid : id < c.connections.length)
    {language : String} {command : ServerCommand} {timeout processId : Nat}
    (hnew : (server id).get c = .connected language command timeout processId) :
    ∃ limit next, (greet id).stretch c =
        ⟨c.asked id, .await (fun c' => (((server id).get c').answer? 1).isSome) limit next, []⟩ ∧
      ∀ met c', (next met).stretch c' = c'.answered id := by
  have hstarting : (server id).get ((server id).modify Server.starting c) =
      (Server.connected language command timeout processId).starting := by
    rw [get_modify hid, hnew]
  have hzoom :
      (server id).zoom (fun s => (s.initializeParams c.root, { s with state := .starting })) c =
        (((server id).get c).initializeParams c.root, (server id).modify Server.starting c) := rfl
  simp only [greet, Server.handshake, Flow.bind_eq, Flow.pure_eq, Flow.bind_assoc,
    Flow.focus_bind, Flow.focus_sync, Flow.stretch_read_bind, Flow.stretch_sync_bind, hzoom]
  obtain ⟨limit, hrequest⟩ := stretch_request ((server id).modify Server.starting c)
    (by rw [hstarting]; rfl) (by rw [hstarting]; rfl) "initialize"
    (((server id).get c).initializeParams c.root) _
  rw [hrequest, hstarting]
  refine ⟨_, _, rfl, fun met c' => ?_⟩
  rw [Flow.stretch_sync_bind, show
    (Server.connected language command timeout processId).starting.nextId = 1 from rfl]
  simp only [answered, Focus.zoom, Focus.modify]
  cases (((server id).get c').collect 1 "initialize").1 with
  | error fault => rfl
  | ok result => rfl

/-- When it is not interrupted, a new server is asked to start, and the rest is one step more,
whenever it is taken. -/
theorem stretch_greet_eager {id : ServerId} (hid : id < c.connections.length)
    {language : String} {command : ServerCommand} {timeout processId : Nat}
    (hnew : (server id).get c = .connected language command timeout processId) :
    ∃ ready limit next,
      ((greet id).bind fun _ => .done ()).eager.stretch c =
        ⟨c.asked id, .await ready limit next, []⟩ ∧
      ∀ met c', (next met).stretch c' = ⟨c'.greeted id, .done (), []⟩ := by
  obtain ⟨limit, next, hstretch, hnext⟩ := c.stretch_greet hid hnew
  have hget := get_asked hid
  rw [hnew] at hget
  have hanswer : (((server id).get (c.asked id)).answer? 1).isSome = false := by
    rw [hget]
    rfl
  refine ⟨fun c' => (((server id).get c').answer? 1).isSome, limit,
    fun met => ((next met).bind fun _ => .done ()).eager, ?_, fun met c' => ?_⟩
  · rw [Flow.stretch_eager, Flow.stretch_bind, hstretch]
    simp [Flow.bind, Flow.eager, hanswer]
  · rw [Flow.stretch_eager, Flow.stretch_bind, hnext]
    unfold answered greeted
    cases (((server id).get c').collect 1 "initialize").1 with
    | error fault => rfl
    | ok result => rfl

/-- The second client is the first one with a new server for a language. -/
structure Attached (language : String) (c c' : Client) : Prop where
  connections : ∃ command timeout processId line,
    c'.connections = c.connections ++ [⟨.connected language command timeout processId, line⟩]
  servers : c'.servers = c.servers.insert language c.connections.length
  documents : c'.documents = c.documents

variable {c} in
theorem Attached.get {language : String} {c' : Client} (h : Attached language c c') :
    ∃ command timeout processId, (server c.connections.length).get c' =
      .connected language command timeout processId := by
  obtain ⟨command, timeout, processId, line, hconnections⟩ := h.connections
  exact ⟨command, timeout, processId, by simp [server, hconnections]⟩

variable {c} in
theorem Attached.length {language : String} {c' : Client} (h : Attached language c c') :
    c'.connections.length = c.connections.length + 1 := by
  obtain ⟨command, timeout, processId, line, hconnections⟩ := h.connections
  simp [hconnections]

variable {c} in
theorem Attached.known {language : String} {c' : Client} (h : Attached language c c') :
    c.connections.length < c'.connections.length := h.length ▸ Nat.lt_succ_self _

variable {c} in
theorem Attached.get_old {language : String} {c' : Client} (h : Attached language c c')
    {id : ServerId} (hid : id < c.connections.length) :
    (server id).get c' = (server id).get c := by
  obtain ⟨command, timeout, processId, line, hconnections⟩ := h.connections
  simp [server, hconnections, List.getElem?_append_left hid]

theorem attached_attach (language : String) (command : ServerCommand) (line : Nat) :
    Attached language c (c.attach language command line).2 :=
  ⟨⟨command, c.settings.timeout, c.processId, line, rfl⟩, rfl, rfl⟩

/-- What a call that starts a server comes to: either it is over at once and nothing has happened,
or a new server has been asked to start, and one step is left. -/
inductive Started (c : Client) : Flow.Stretch Client Unit → Prop
  | unneeded : Started c ⟨c, .done (), []⟩
  | waiting {language : String} {base : Client} (h : Attached language c base) {ready limit next}
      (hnext : ∀ met c', (next met).stretch c' = ⟨c'.greeted c.connections.length, .done (), []⟩) :
      Started c ⟨base.asked c.connections.length, .await ready limit next, []⟩

theorem started_greet {language : String} {base : Client} (h : Attached language c base) :
    Started c (((greet c.connections.length).bind fun _ => .done ()).eager.stretch base) := by
  obtain ⟨command, timeout, processId, hnew⟩ := h.get
  obtain ⟨ready, limit, next, hstretch, hnext⟩ := stretch_greet_eager base h.known hnew
  rw [hstretch]
  exact .waiting h hnext

theorem started_connect (language : String) (command : ServerCommand) (line : Nat) :
    Started c ((ClientCall.connect language command line).flow.stretch c) := by
  simp only [ClientCall.flow, connect, Flow.bind_eq, Flow.bind_assoc, Flow.stretch_eager_pause,
    Flow.stretch_eager_sync_bind]
  cases c.isLive language with
  | true => exact .unneeded
  | false => exact started_greet c (c.attached_attach language command line)

theorem started_start (language : String) :
    Started c ((ClientCall.start language).flow.stretch c) := by
  simp only [ClientCall.flow, startServer, Flow.bind_eq, Flow.bind_assoc, Flow.stretch_eager_pause,
    Flow.stretch_eager_sync_bind]
  cases c.isLive language with
  | true => exact .unneeded
  | false =>
      simp only [Bool.false_eq_true, if_false, launch]
      cases c.settings.servers.find? language with
      | none => exact .unneeded
      | some command =>
          cases hknown : c.programs.contains command.command with
          | false =>
              simp only [hknown, Bool.false_eq_true, if_false]
              exact .unneeded
          | true =>
              simp only [hknown, if_true]
              exact started_greet c
                ⟨⟨command, c.settings.timeout, c.processId, _, rfl⟩, rfl, rfl⟩

/-! ## The orderly shutdown of servers -/

/-- At most some servers are not as they were. -/
structure Touches (ids : List ServerId) (c c' : Client) : Prop where
  documents : c'.documents = c.documents
  servers : c'.servers = c.servers
  length : c'.connections.length = c.connections.length
  others : ∀ id ∉ ids, (server id).get c' = (server id).get c

variable {ids : List ServerId}

theorem Touches.refl (c : Client) : Touches ids c c := ⟨rfl, rfl, rfl, fun _ _ => rfl⟩

theorem Touches.trans {c₁ c₂ c₃ : Client} (h : Touches ids c₁ c₂) (h' : Touches ids c₂ c₃) :
    Touches ids c₁ c₃ :=
  ⟨h'.documents.trans h.documents, h'.servers.trans h.servers, h'.length.trans h.length,
    fun id hid => (h'.others id hid).trans (h.others id hid)⟩

theorem touches_modifyServer {id : ServerId} (hid : id ∈ ids) (change : Server → Server) :
    Touches ids c (c.modifyServer id change) := by
  refine ⟨rfl, rfl, length_modifyServer change, fun other hother => ?_⟩
  have hne : other ≠ id := by
    rintro rfl
    exact hother hid
  exact get_modifyServer_of_ne hne change

theorem touches_modify {id : ServerId} (hid : id ∈ ids) (change : Server → Server) :
    Touches ids c ((server id).modify change c) :=
  c.touches_modifyServer hid fun _ => change ((server id).get c)

theorem touches_foldl {β : Type} {step : Client → β → Client}
    (h : ∀ c item, Touches ids c (step c item)) (items : List β) :
    Touches ids c (items.foldl step c) := by
  induction items generalizing c with
  | nil => exact .refl c
  | cons item items ih => exact (h c item).trans (ih (step c item))

theorem touches_replay (id : ServerId) : Touches [id] c (c.replay id) := by
  refine c.touches_foldl (fun c entry => ?_) _
  exact c.touches_modifyServer (List.mem_singleton_self id) fun s =>
    (s.notify "textDocument/didOpen" (didOpenParams entry.1 entry.2)).2

theorem touches_asked (id : ServerId) : Touches [id] c (c.asked id) := by
  have hid : id ∈ [id] := List.mem_singleton_self id
  exact (c.touches_modify hid Server.starting).trans
    (touches_modify _ hid fun s => s.numbered "initialize" _)

theorem within_focus {α : Type} (flow : Flow Server α) {id : ServerId} (hid : id ∈ ids) :
    (flow.focus (server id)).Within (Touches ids) :=
  flow.within_true.focus fun c s _ => c.touches_modifyServer hid fun _ => s

/-- A stretch and what is left behind it touch only some servers. -/
structure Confined (ids : List ServerId) (c : Client) (r : Flow.Stretch Client Unit) : Prop where
  state : Touches ids c r.state
  rest : r.rest.Within (Touches ids)
  started : ∀ child ∈ r.started, child.Within (Touches ids)

theorem confined_of_within (flow : Flow Client Unit) (h : flow.Within (Touches ids)) :
    Confined ids c (flow.stretch c) := by
  obtain ⟨hstate, hrest, hstarted⟩ := h.stretch Touches.refl (fun _ _ _ => Touches.trans) c
  exact ⟨hstate, hrest, hstarted⟩

/-- Once a server has been forgotten, its shutdown touches no other one. -/
theorem confined_shutdownServer (language : String) :
    Confined (c.forget language).1.toList (c.forget language).2
      (((ClientCall.shutdownServer language).flow.wake c).stretch c) := by
  apply confined_of_within
  change Flow.Within _ (Flow.bind (.done (c.forget language).1) _)
  cases (c.forget language).1 with
  | none => trivial
  | some id => exact within_focus _ (by simp)

theorem confined_shutdownAll :
    Confined c.forgetAll.1 c.forgetAll.2
      ((ClientCall.shutdownAll.flow.wake c).stretch c) := by
  refine confined_of_within _ (.each c.forgetAll.1 fun id =>
    Server.shutdown.focus (server id)) ?_
  exact .each fun id hid => within_focus _ hid

/-! ## The start of a server, whatever comes between -/

/-- The conversation with a new server touches no other one. -/
theorem within_touches_greet (id : ServerId) : (greet id).Within (Touches [id]) := by
  have hid : id ∈ [id] := List.mem_singleton_self id
  refine (Flow.within_read Touches.refl Client.root).bind fun root => ?_
  refine (within_focus _ hid).bind fun result => ?_
  cases result with
  | error fault => exact (within_focus _ hid).bind fun _ => trivial
  | ok _ =>
      have hpause : (Flow.pause : Flow Client Unit).Within (Touches [id]) := fun _ => trivial
      exact hpause.bind fun _ => (Flow.within_sync fun c => c.touches_replay id).bind fun _ =>
        trivial

section Start

variable {R : Client → Client → Prop} (htouches : ∀ id c c', Touches [id] c c' → R c c')

include htouches

theorem within_greet (id : ServerId) : (greet id).Within R :=
  (within_touches_greet id).mono (htouches id)

theorem within_startServer (hlaunch : ∀ language (c : Client), R c (c.launch language).2)
    (language : String) : (startServer language).Within R := by
  have hpause : (Flow.pause : Flow Client Unit).Within R := fun _ => trivial
  refine hpause.bind fun _ => (Flow.within_sync fun c => ?_).bind fun started => ?_
  · dsimp only
    split
    · exact htouches 0 c c (.refl c)
    · exact hlaunch language c
  · match started with
    | .error fault => trivial
    | .ok none => trivial
    | .ok (some id) => exact within_greet htouches id

end Start

end Client

end EditorHost.Rpc
