import EditorHost.Proofs.Interference
import EditorHost.Proofs.Rpc.Closing
import EditorHost.Proofs.Rpc.Standing
import EditorHost.Proofs.Single

/-!
# Calls on the client and what they return

`returningCalls` are the calls on a client as the program has them: they may be interrupted wherever
it lets go of them, and the start of a server returns whether it has worked.

What such a call does to a server that it has not started itself is little, however it is
interrupted (`Server.Endures`): the server stays the one that it is, messages are queued behind those
that were queued, and if the connection has ended, it has ended for ever.  `Client.Meddles` says so of a
client, but for some servers that a call is starting.  Before its first turn a call that starts a
server is none of this kind, because it takes its server from the client that it finds then; so a
call under way is `Fresh`, or it is `Settled` on servers that are there (`settled_run`).
-/

namespace EditorHost

open Interleaving (System Pool Move Task)

namespace Rpc

/-! ## The calls -/

/-- A call with what it returns; calls other than the start of a server cannot fail. -/
def ClientCall.returning : ClientCall → Flow Client (Except Fault Unit)
  | connect language command line => Client.connect language command line
  | start language => Client.startServer language
  | call => call.plain.bind fun _ => .done (.ok ())

/-- The calls as the program has them, with what they return. -/
def returningCalls : System ClientCall (ServerId × Incident) Client (Except Fault Unit) where
  flow := ClientCall.returning
  outside := clientCalls.outside

/-- The language whose server a call starts, if it starts one. -/
def ClientCall.language? : ClientCall → Option String
  | connect language _ _ => some language
  | start language => some language
  | _ => none

/-- What a call has returned, if it is over. -/
def returned (p : Pool ClientCall Client (Except Fault Unit)) (n : Nat) :
    Option (Except Fault Unit) :=
  (p.tasks[n]?).bind fun t => t.rest.result?

theorem returned_eq_some {p : Pool ClientCall Client (Except Fault Unit)} {n : Nat}
    {result : Except Fault Unit} :
    returned p n = some result ↔ ∃ t, p.tasks[n]? = some t ∧ t.rest = .done result := by
  unfold returned
  rw [Option.bind_eq_some_iff]
  refine exists_congr fun t => and_congr_right fun _ => ⟨Flow.eq_done_of_result?, fun h => ?_⟩
  rw [h]
  rfl

/-! ## What a server endures -/

/-- A server later on, whoever else has used it. -/
structure Server.Endures (s s' : Server) : Prop where
  language : s'.language = s.language
  queued : s.queued <+: s'.queued
  isEnded : s.IsEnded → s'.IsEnded

namespace Server

theorem Endures.refl (s : Server) : s.Endures s := ⟨rfl, List.prefix_refl _, id⟩

theorem Endures.trans (s t u : Server) (h : s.Endures t) (h' : t.Endures u) : s.Endures u :=
  ⟨h'.language.trans h.language, h.queued.trans h'.queued,
    fun hended => h'.isEnded (h.isEnded hended)⟩

theorem endures_queue (s : Server) (message : Json) : s.Endures (s.queue message).2 := by
  rw [queue_snd]
  exact ⟨rfl, List.prefix_append _ _, fun h => ⟨h.closed, h.pending, h.state⟩⟩

theorem endures_notify (s : Server) (method : String) (params : Json) :
    s.Endures (s.notify method params).2 := s.endures_queue _

theorem endures_killed (s : Server) : s.Endures s.killed :=
  ⟨rfl, List.prefix_refl _, fun _ => ⟨rfl, rfl, rfl⟩⟩

theorem endures_issue (s : Server) (method : String) (params : Json) :
    s.Endures (s.issue method params).2 := by
  cases hclosed : s.closed with
  | true =>
      rw [issue_of_closed hclosed]
      exact ⟨rfl, List.prefix_refl _, fun h => ⟨h.closed, h.pending, h.state⟩⟩
  | false =>
      have hopen : ¬ s.IsEnded := fun h => by simpa [hclosed] using h.closed
      cases hwritable : s.writable with
      | true =>
          rw [issue_of_open hclosed hwritable]
          exact ⟨rfl, List.prefix_append _ _, fun h => absurd h hopen⟩
      | false =>
          rw [issue_of_unwritable hclosed hwritable]
          exact ⟨rfl, List.prefix_refl _, fun h => absurd h hopen⟩

theorem endures_collect (s : Server) (id : RequestId) (method : String) :
    s.Endures (s.collect id method).2 := by
  refine ⟨?_, (s.collect_queued id method).symm ▸ List.prefix_refl _,
    fun h => (h.fades_collect id method).isEnded⟩
  unfold collect
  split <;> rfl

theorem endures_incident (s : Server) (i : Incident) : s.Endures (i.change s) := by
  refine ⟨incident_language i s, ?_, fun h => (h.fades_incident i).isEnded⟩
  cases i with
  | message m =>
      simp only [Incident.change, receive]
      split
      · unfold respond
        split <;> exact List.prefix_refl _
      · exact (s.endures_queue _).queued
      · exact List.prefix_refl _
      · exact List.prefix_refl _
  | finished => exact List.prefix_refl _
  | unwritable => exact List.prefix_refl _

theorem within_kill : kill.Within Endures := fun _ => Flow.within_sync endures_killed

theorem within_request (method : String) (params : Json) :
    (request method params).Within Endures := by
  refine (Flow.within_sync fun s => s.endures_issue method params).bind fun issued => ?_
  cases issued with
  | error fault => trivial
  | ok id =>
      refine (Flow.within_read Endures.refl Server.timeout).bind fun limit => ?_
      have hwait : (Flow.within limit fun s : Server => (s.answer? id).isSome).Within Endures :=
        fun _ => trivial
      exact hwait.bind fun _ => Flow.within_sync fun s => s.endures_collect id method

theorem within_shutdown : shutdown.Within Endures := by
  refine (Flow.within_read Endures.refl Server.state).bind fun state => ?_
  split
  · refine (within_request "shutdown" .null).bind fun _ => ?_
    exact (Flow.within_sync fun s => s.endures_notify "exit" .null).bind fun _ => within_kill
  · exact within_kill

end Server

/-! ## What is done to servers by others -/

namespace Client

/-- The second client is the first one later on.  No server has become the current one of its
language, and all but some servers have been used only as they endure it. -/
structure Meddles (ids : List ServerId) (c c' : Client) : Prop where
  length : c.connections.length ≤ c'.connections.length
  servers : ∀ language, c'.servers.find? language = c.servers.find? language ∨
    c'.servers.find? language = none
  endures : ∀ id ∉ ids, ((server id).get c).Endures ((server id).get c')

variable {c c' : Client} {ids : List ServerId}

namespace Meddles

/-- Servers are as they were, and no language has got another one. -/
theorem of_eq (hconnections : c'.connections = c.connections)
    (hservers : ∀ language, c'.servers.find? language = c.servers.find? language ∨
      c'.servers.find? language = none) : Meddles ids c c' := by
  refine ⟨Nat.le_of_eq (congrArg List.length hconnections.symm), hservers, fun id _ => ?_⟩
  have hsame : (server id).get c' = (server id).get c := by
    simp only [server, hconnections]
  exact hsame ▸ Server.Endures.refl _

theorem refl (c : Client) : Meddles ids c c := .of_eq rfl fun _ => .inl rfl

theorem trans (c c' c'' : Client) (h : Meddles ids c c') (h' : Meddles ids c' c'') :
    Meddles ids c c'' := by
  refine ⟨Nat.le_trans h.length h'.length, fun language => ?_, fun id hid =>
    (h.endures id hid).trans _ _ _ (h'.endures id hid)⟩
  rcases h'.servers language with heq | hnone
  · exact heq ▸ h.servers language
  · exact .inr hnone

theorem of_touches (h : Touches ids c c') : Meddles ids c c' := by
  refine ⟨Nat.le_of_eq h.length.symm, fun _ => .inl (by rw [h.servers]), fun id hid => ?_⟩
  rw [h.others id hid]
  exact .refl _

end Meddles

theorem meddles_modifyServer (c : Client) (id : ServerId) (change : Server → Server)
    (h : ((server id).get c).Endures (change ((server id).get c))) :
    Meddles ids c (c.modifyServer id change) := by
  refine ⟨Nat.le_of_eq (length_modifyServer change).symm, fun _ => .inl rfl, fun other _ => ?_⟩
  by_cases heq : other = id
  · subst heq
    by_cases hlength : other < c.connections.length
    · rwa [get_modifyServer hlength]
    · -- There is no such server, and so nothing is changed.
      have hsame : (server other).get (c.modifyServer other change) = (server other).get c := by
        simp [server, modifyServer, Nat.le_of_not_lt hlength]
      exact hsame ▸ .refl _
  · rw [get_modifyServer_of_ne heq]
    exact .refl _

theorem meddles_notify (c : Client) (id : Option ServerId) (method : String) (params : Json) :
    Meddles ids c (c.notify id method params) := by
  cases id with
  | none => exact .refl c
  | some id =>
      exact c.meddles_modifyServer id (fun s => (s.notify method params).2)
        (Server.endures_notify _ method params)

theorem meddles_incident (c : Client) (event : ServerId × Incident) :
    Meddles ids c (clientCalls.outside event c) :=
  c.meddles_modifyServer event.1 (fun _ => _) (Server.endures_incident _ event.2)

/-- Only a server is used, and only as it endures it. -/
theorem within_meddles_focus {α : Type} {flow : Flow Server α} (h : flow.Within Server.Endures)
    (id : ServerId) : (flow.focus (server id)).Within (Meddles ids) :=
  h.focus fun c _ hendures => c.meddles_modifyServer id (fun _ => _) hendures

theorem within_meddles_pause : (Flow.pause : Flow Client Unit).Within (Meddles ids) :=
  fun _ => trivial

theorem within_meddles_tell (id : Client → Option ServerId) (method : String) (params : Json) :
    (Flow.pause.bind fun _ => Flow.sync fun c =>
      ((), c.notify (id c) method params)).Within (Meddles ids) :=
  fun _ => Flow.within_sync fun c => c.meddles_notify (id c) method params

theorem meddles_forget (c : Client) (language : String) :
    Meddles ids c (c.forget language).2 := by
  refine .of_eq rfl fun other => ?_
  rw [forget, Table.find?_erase]
  split
  · exact .inr rfl
  · exact .inl rfl

theorem meddles_forgetAll (c : Client) : Meddles ids c c.forgetAll.2 := .of_eq rfl fun _ => .inr rfl

/-! ## Calls that start no server -/

theorem within_meddles_didOpen (uri language text : String) :
    (didOpen uri language text).Within (Meddles ids) := by
  refine within_meddles_pause.bind fun _ => (Flow.within_sync fun c => ?_).bind
    fun (previous, d) => ?_
  · unfold track
    split <;> exact .of_eq rfl fun _ => .inl rfl
  · cases previous with
    | none => exact within_meddles_tell _ _ _
    | some previous =>
        dsimp only
        split
        · exact within_meddles_tell _ _ _
        · refine within_meddles_pause.bind fun _ => ?_
          exact (Flow.within_sync fun c => c.meddles_notify _ _ _).bind fun _ =>
            within_meddles_tell _ _ _

theorem within_meddles_didChange (uri text : String) :
    (didChange uri text).Within (Meddles ids) := by
  refine within_meddles_pause.bind fun _ => (Flow.within_sync fun c => ?_).bind fun changed => ?_
  · unfold retext
    split <;> exact .of_eq rfl fun _ => .inl rfl
  · cases changed with
    | none => trivial
    | some d => exact within_meddles_tell _ _ _

theorem within_meddles_didSave (uri : String) : (didSave uri).Within (Meddles ids) := by
  refine within_meddles_pause.bind fun _ => (Flow.within_read Meddles.refl _).bind fun found => ?_
  cases found with
  | none => trivial
  | some d => exact within_meddles_tell _ _ _

theorem within_meddles_didClose (uri : String) : (didClose uri).Within (Meddles ids) := by
  refine within_meddles_pause.bind fun _ => (Flow.within_read Meddles.refl _).bind fun found => ?_
  cases found with
  | none => trivial
  | some d =>
      refine within_meddles_pause.bind fun _ => ?_
      refine (Flow.within_sync fun c => c.meddles_notify _ _ _).bind fun _ => ?_
      exact within_meddles_pause.bind fun _ => Flow.within_sync fun c =>
        .of_eq rfl fun _ => .inl rfl

theorem within_meddles_shutdownServer (language : String) :
    (shutdownServer language).Within (Meddles ids) := by
  refine within_meddles_pause.bind fun _ => ?_
  refine (Flow.within_sync fun c => c.meddles_forget language).bind fun forgotten => ?_
  cases forgotten with
  | none => trivial
  | some id => exact within_meddles_focus Server.within_shutdown id

theorem within_meddles_shutdownAll : shutdownAll.Within (Meddles ids) := by
  refine within_meddles_pause.bind fun _ => ?_
  refine (Flow.within_sync meddles_forgetAll).bind fun forgotten => ?_
  exact .each fun id _ => within_meddles_focus Server.within_shutdown id

theorem within_meddles_forceShutdown : forceShutdown.Within (Meddles ids) := by
  refine within_meddles_pause.bind fun _ => ?_
  refine (Flow.within_sync meddles_forgetAll).bind fun forgotten => ?_
  refine Flow.Within.bind (.each fun id _ => within_meddles_focus Server.within_kill id) fun _ => ?_
  exact within_meddles_pause.bind fun _ => Flow.within_sync fun c => .of_eq rfl fun _ => .inl rfl

end Client

open Client (Meddles server)

theorem ClientCall.within_meddles {call : ClientCall} (h : call.language? = none)
    (ids : List ServerId) : call.returning.Within (Meddles ids) := by
  have hreturn (result : Unit) :
      (Flow.done (Except.ok ()) : Flow Client (Except Fault Unit)).Within (Meddles ids) := trivial
  cases call with
  | didOpen uri language text =>
      exact (Client.within_meddles_didOpen uri language text).bind hreturn
  | didChange uri text => exact (Client.within_meddles_didChange uri text).bind hreturn
  | didSave uri => exact (Client.within_meddles_didSave uri).bind hreturn
  | didClose uri => exact (Client.within_meddles_didClose uri).bind hreturn
  | connect language command line => cases h
  | start language => cases h
  | shutdownServer language => exact (Client.within_meddles_shutdownServer language).bind hreturn
  | shutdownAll => exact Client.within_meddles_shutdownAll.bind hreturn
  | forceShutdown => exact Client.within_meddles_forceShutdown.bind hreturn

/-! ## Calls that start a server -/

/-- A program is not started, or it is the new server of its language. -/
theorem launch_cases (c : Client) (language : String) :
    (∃ fault, c.launch language = (.error fault, c)) ∨
      ∃ base, Client.Attached language c base ∧
        c.launch language = (.ok c.connections.length, base) := by
  unfold Client.launch
  split
  · exact .inl ⟨_, rfl⟩
  next command _ =>
    split
    · let base := (c.newLine.2.attach language command c.lines).2
      exact .inr ⟨{ base with launched := c.launched ++ [(c.lines, command)] },
        ⟨⟨command, c.settings.timeout, c.processId, c.lines, rfl⟩, rfl, rfl⟩, rfl⟩
    · exact .inl ⟨_, rfl⟩

/-- The first turn of a call that takes a server. -/
theorem stretch_connect (c : Client) (language : String) (command : ServerCommand) (line : Nat) :
    ((ClientCall.connect language command line).returning.wake c).stretch c =
      if c.isLive language then ⟨c, .done (.ok ()), []⟩
      else (Client.greet c.connections.length).stretch (c.attach language command line).2 := by
  simp only [ClientCall.returning, Client.connect, Flow.bind_eq, Flow.wake_pause_bind,
    Flow.stretch_sync_bind]
  cases c.isLive language <;> rfl

/-- The first turn of a call that starts a server: it is over and nothing has happened, or it has
found no live server and speaks to a new one. -/
theorem stretch_fresh {call : ClientCall} {language : String}
    (hlanguage : call.language? = some language) (c : Client) :
    (∃ result, (call.returning.wake c).stretch c = ⟨c, .done result, []⟩) ∨
      c.isLive language = false ∧ ∃ base, Client.Attached language c base ∧
        (call.returning.wake c).stretch c = (Client.greet c.connections.length).stretch base := by
  cases call with
  | connect other command line =>
      obtain rfl : other = language := Option.some.inj hlanguage
      rw [stretch_connect]
      cases hlive : c.isLive other with
      | true => exact .inl ⟨.ok (), rfl⟩
      | false => exact .inr ⟨rfl, _, c.attached_attach other command line, rfl⟩
  | start other =>
      obtain rfl : other = language := Option.some.inj hlanguage
      simp only [ClientCall.returning, Client.startServer, Flow.bind_eq, Flow.wake_pause_bind,
        Flow.stretch_sync_bind]
      cases hlive : c.isLive other with
      | true => exact .inl ⟨.ok (), rfl⟩
      | false =>
          rcases launch_cases c other with ⟨fault, hlaunch⟩ | ⟨base, hbase, hlaunch⟩
          · rw [hlaunch]
            exact .inl ⟨.error fault, rfl⟩
          · rw [hlaunch]
            exact .inr ⟨rfl, base, hbase, rfl⟩
  | _ => cases hlanguage

/-- What is left of a call uses servers that are there, and all but some only as they endure it. -/
def Settled (c : Client) (rest : Flow Client (Except Fault Unit)) : Prop :=
  ∃ ids : List ServerId, (∀ id ∈ ids, id < c.connections.length) ∧ rest.Within (Meddles ids)

theorem settled_of_within {rest : Flow Client (Except Fault Unit)} (h : rest.Within (Meddles []))
    (c : Client) : Settled c rest := by
  refine ⟨[], fun id hid => ?_, h⟩
  cases hid

theorem Settled.mono {c c' : Client} {rest : Flow Client (Except Fault Unit)}
    (h : Settled c rest) (hlength : c.connections.length ≤ c'.connections.length) :
    Settled c' rest := by
  obtain ⟨ids, hids, hrest⟩ := h
  exact ⟨ids, fun id hid => Nat.lt_of_lt_of_le (hids id hid) hlength, hrest⟩

/-- A turn of a settled call. -/
theorem Settled.turn {c : Client} {rest : Flow Client (Except Fault Unit)} (h : Settled c rest) :
    c.connections.length ≤ ((rest.wake c).stretch c).state.connections.length ∧
      Settled ((rest.wake c).stretch c).state ((rest.wake c).stretch c).rest := by
  obtain ⟨ids, hids, hrest⟩ := h
  obtain ⟨hstate, hleft, -⟩ := (hrest.wake c).stretch Meddles.refl Meddles.trans c
  exact ⟨hstate.length, ids, fun id hid => Nat.lt_of_lt_of_le (hids id hid) hstate.length, hleft⟩

theorem settled_greet {language : String} {c base : Client} (h : Client.Attached language c base) :
    Settled base (Client.greet c.connections.length) := by
  refine ⟨[c.connections.length], fun id hid => ?_, ?_⟩
  · exact List.mem_singleton.mp hid ▸ h.known
  · exact (Client.within_touches_greet _).mono fun _ _ => .of_touches

/-- A call whose first turn is still to come. -/
def Fresh (t : Task ClientCall Client (Except Fault Unit)) : Prop := t.rest = t.call.returning

/-- A call is settled behind its first turn. -/
theorem settled_turn {c : Client} {t : Task ClientCall Client (Except Fault Unit)}
    (h : Settled c t.rest ∨ Fresh t) :
    c.connections.length ≤ ((t.rest.wake c).stretch c).state.connections.length ∧
      Settled ((t.rest.wake c).stretch c).state ((t.rest.wake c).stretch c).rest := by
  rcases h with hsettled | hfresh
  · exact hsettled.turn
  · rw [hfresh]
    cases hlanguage : t.call.language? with
    | none =>
        exact (settled_of_within (ClientCall.within_meddles hlanguage []) c).turn
    | some language =>
        rcases stretch_fresh hlanguage c with ⟨result, hstretch⟩ | ⟨-, base, hbase, hstretch⟩
        · have hdone : (Flow.done result : Flow Client (Except Fault Unit)).Within (Meddles []) :=
            trivial
          rw [hstretch]
          exact ⟨Nat.le_refl _, settled_of_within hdone c⟩
        · rw [hstretch]
          obtain ⟨ids, hids, hgreet⟩ := settled_greet hbase
          obtain ⟨hstate, hleft, -⟩ := hgreet.stretch Meddles.refl Meddles.trans base
          exact ⟨Nat.le_trans (Nat.le_of_lt hbase.known) hstate.length, ids,
            fun id hid => Nat.lt_of_lt_of_le (hids id hid) hstate.length, hleft⟩

/-! ## Runs -/

/-- Every call is settled, or its first turn is still to come. -/
def AllSettled (p : Pool ClientCall Client (Except Fault Unit)) : Prop :=
  ∀ t ∈ p.tasks, Settled p.state t.rest ∨ Fresh t

variable {p p' : Pool ClientCall Client (Except Fault Unit)}

/-- No call but a given one goes about the start of a server for a language: none that would start
one takes its first turn. -/
def StartsOnly (language : String) (n : Nat) (p : Pool ClientCall Client (Except Fault Unit))
    (move : Move ClientCall (ServerId × Incident)) : Prop :=
  ∀ m t, m ≠ n → move = .turn m → p.tasks[m]? = some t → Fresh t → t.call.language? ≠ some language

theorem single_request (method : String) (params : Json) :
    (Server.request method params).Single := by
  refine (Flow.single_sync _).bind fun issued => ?_
  cases issued with
  | error fault => trivial
  | ok id =>
      have hwait (limit : Nat) :
          (Flow.within limit fun s : Server => (s.answer? id).isSome).Single := fun _ => trivial
      exact (Flow.single_read _).bind fun limit => (hwait limit).bind fun _ => Flow.single_sync _

theorem single_kill : Server.kill.Single := Flow.single_pause.bind fun _ => Flow.single_sync _

theorem single_shutdown : Server.shutdown.Single := by
  refine (Flow.single_read _).bind fun state => ?_
  split
  · exact (single_request _ _).bind fun _ => (Flow.single_sync _).bind fun _ => single_kill
  · exact single_kill

theorem single_handshake (root : Option Path) : (Server.handshake root).Single := by
  refine (Flow.single_sync _).bind fun params => (single_request _ _).bind fun answer => ?_
  cases answer with
  | error fault => exact (Flow.single_sync _).bind fun _ => trivial
  | ok result => exact (Flow.single_sync _).bind fun _ => trivial

theorem single_greet (id : ServerId) : (Client.greet id).Single := by
  refine (Flow.single_read _).bind fun root => ((single_handshake root).focus _).bind
    fun result => ?_
  cases result with
  | error fault => exact (single_kill.focus _).bind fun _ => trivial
  | ok _ => exact Flow.single_pause.bind fun _ => (Flow.single_sync _).bind fun _ => trivial

theorem ClientCall.single (call : ClientCall) : call.returning.Single := by
  have htell (run : StateM Client Unit) : (Flow.pause.bind fun _ => Flow.sync run).Single :=
    Flow.single_pause.bind fun _ => Flow.single_sync run
  have hreturn (result : Unit) :
      (Flow.done (Except.ok ()) : Flow Client (Except Fault Unit)).Single := trivial
  cases call with
  | didOpen uri language text =>
      refine Flow.Single.bind (Flow.single_pause.bind fun _ => (Flow.single_sync _).bind
        fun (previous, d) => ?_) hreturn
      cases previous with
      | none => exact htell _
      | some previous =>
          dsimp only
          split
          · exact htell _
          · exact Flow.single_pause.bind fun _ => (Flow.single_sync _).bind fun _ => htell _
  | didChange uri text =>
      refine Flow.Single.bind (Flow.single_pause.bind fun _ => (Flow.single_sync _).bind
        fun changed => ?_) hreturn
      cases changed with
      | none => trivial
      | some d => exact htell _
  | didSave uri =>
      refine Flow.Single.bind (Flow.single_pause.bind fun _ => (Flow.single_read _).bind
        fun found => ?_) hreturn
      cases found with
      | none => trivial
      | some d => exact htell _
  | didClose uri =>
      refine Flow.Single.bind (Flow.single_pause.bind fun _ => (Flow.single_read _).bind
        fun found => ?_) hreturn
      cases found with
      | none => trivial
      | some d => exact Flow.single_pause.bind fun _ => (Flow.single_sync _).bind fun _ => htell _
  | connect language command line =>
      refine Flow.single_pause.bind fun _ => (Flow.single_sync _).bind fun taken => ?_
      cases taken with
      | none => trivial
      | some id => exact single_greet id
  | start language =>
      refine Flow.single_pause.bind fun _ => (Flow.single_sync _).bind fun started => ?_
      match started with
      | .error fault => trivial
      | .ok none => trivial
      | .ok (some id) => exact single_greet id
  | shutdownServer language =>
      refine Flow.Single.bind (Flow.single_pause.bind fun _ => (Flow.single_sync _).bind
        fun forgotten => ?_) hreturn
      cases forgotten with
      | none => trivial
      | some id => exact single_shutdown.focus _
  | shutdownAll =>
      exact Flow.Single.bind (Flow.single_pause.bind fun _ => (Flow.single_sync _).bind
        fun ids => .each fun id => single_shutdown.focus _) hreturn
  | forceShutdown =>
      refine Flow.Single.bind (Flow.single_pause.bind fun _ => (Flow.single_sync _).bind
        fun ids => ?_) hreturn
      exact Flow.Single.bind (.each fun id => single_kill.focus _) fun _ => htell _

/-- A move leaves every call settled, or its first turn still to come. -/
theorem AllSettled.step (h : AllSettled p) {move : Move ClientCall (ServerId × Incident)}
    (hmove : returningCalls.Moved p move p') : AllSettled p' := by
  have hothers {c : Client} (hlength : p.state.connections.length ≤ c.connections.length) :
      ∀ t ∈ p.tasks, Settled c t.rest ∨ Fresh t :=
    fun t ht => (h t ht).imp_left fun hsettled => hsettled.mono hlength
  cases hmove with
  | idle => exact h
  | start call => exact List.forall_mem_append.mpr ⟨h, List.forall_mem_singleton.mpr (.inr rfl)⟩
  | @turn m t r hm hstretch =>
      obtain ⟨hlength, hsettled⟩ := settled_turn (h t (List.mem_of_getElem? hm))
      rw [hstretch] at hlength hsettled
      intro t' ht'
      rcases List.mem_or_eq_of_mem_set ht' with hold | rfl
      · exact hothers hlength t' hold
      · exact .inl hsettled
  | pass time => exact h
  | outside event =>
      have hmeddles : Meddles [] p.state (clientCalls.outside event p.state) :=
        p.state.meddles_incident event
      exact hothers hmeddles.length

theorem settled_run (moves : List (Move ClientCall (ServerId × Incident))) (h : AllSettled p)
    (hsingle : ∀ t ∈ p.tasks, t.rest.Single) : AllSettled (returningCalls.run p moves) := by
  induction moves generalizing p with
  | nil => exact h
  | cons move moves ih =>
      have hmove := (returningCalls.step_cases p move).moved hsingle
      exact ih (h.step hmove) (System.single_moved ClientCall.single hsingle hmove)

/-- When no other call is to start a server for a language, none goes about it. -/
theorem startsOnly_of_calls {language : String} {n : Nat} (hsingle : ∀ t ∈ p.tasks, t.rest.Single)
    (hcalls : ∀ m t, m ≠ n → p.tasks[m]? = some t → t.call.language? ≠ some language)
    {moves : List (Move ClientCall (ServerId × Incident))}
    (hmoves : ∀ call, .start call ∈ moves → call.language? ≠ some language) :
    returningCalls.Along (StartsOnly language n) p moves := by
  induction moves generalizing p with
  | nil => trivial
  | cons move moves ih =>
      refine ⟨fun m t hm _ ht _ => hcalls m t hm ht, ?_⟩
      have hmove := (returningCalls.step_cases p move).moved hsingle
      refine ih (System.single_moved ClientCall.single hsingle hmove) (fun m t hm ht => ?_)
        fun call hcall => hmoves call (List.mem_cons_of_mem _ hcall)
      generalize returningCalls.step p move = p' at hmove ht
      cases hmove with
      | start call =>
          rcases Interleaving.getElem?_concat_cases ht with hold | ⟨-, rfl⟩
          · exact hcalls m t hm hold
          · exact hmoves call List.mem_cons_self
      | @turn m' t' r hn hstretch =>
          rcases Interleaving.getElem?_set_cases hn ht with ⟨rfl, rfl⟩ | ⟨-, hold⟩
          · have hcall := hcalls m t' hm hn
            exact hcall
          · exact hcalls m t hm hold
      | idle => exact hcalls m t hm ht
      | pass time => exact hcalls m t hm ht
      | outside event => exact hcalls m t hm ht

end Rpc

end EditorHost
