import EditorHost.Proofs.Rpc.DocumentTable
import EditorHost.Proofs.Rpc.Handshake

/-!
# Starts of servers that fail

When a call that takes a server returns an error, whatever was the matter and whatever else went on
meanwhile, nothing is left of it (`failed_start`): its server has ended and the language is not live
(`Dismissed`), and the documents are what the calls about documents have made of them (`Traced`).
So the next call that takes a server for the language begins anew.  If its server answers, it is told
the open documents of the language (`Restarted`), and this is also what has happened whenever such a
call works out, however it was interrupted (`StartsAnew`).
-/

namespace EditorHost

namespace Rpc

open Interleaving (System Pool Move Task)
open Client (Attached Hosts Touches server)

/-- The calls on a client after some moves. -/
def callsOn (c : Client) (moves : List (Move ClientCall (ServerId × Incident))) :
    Pool ClientCall Client (Except Fault Unit) :=
  returningCalls.run { state := c } moves

section CallsOn

variable (c : Client) (moves : List (Move ClientCall (ServerId × Incident)))

theorem callsOn_append (more : List (Move ClientCall (ServerId × Incident))) :
    callsOn c (moves ++ more) = returningCalls.run (callsOn c moves) more :=
  System.run_append _ _ _ _

theorem single_callsOn : ∀ t ∈ (callsOn c moves).tasks, t.rest.Single := by
  refine System.single_run (S := returningCalls) ClientCall.single (fun t ht => ?_) moves
  cases ht

theorem settled_callsOn : AllSettled (callsOn c moves) := by
  refine settled_run moves (fun t ht => ?_) fun t ht => ?_
  · cases ht
  · cases ht

end CallsOn

/-! ## What is left behind -/

/-- A server that has ended, and the language that it was for, which has no live one. -/
structure Dismissed (language : String) (id : ServerId) (c : Client) : Prop where
  serves : ((server id).get c).language = language
  isEnded : ((server id).get c).IsEnded
  notLive : c.isLive language = false

/-- The documents are what calls about documents alone make of them in a given order, in which each
of them stands at most once, and once if it is over. -/
structure Traced (c : Client) (moves : List (Move ClientCall (ServerId × Incident)))
    (order : List (Nat × ClientCall)) : Prop where
  enacts : Enacts { state := c } moves order
  once : (order.map Prod.fst).Nodup
  calls : ∀ entry ∈ order, entry.2.changesDocuments = true ∧
    ∃ t, (callsOn c moves).tasks[entry.1]? = some t ∧ t.call = entry.2
  complete : ∀ n t, (callsOn c moves).tasks[n]? = some t → t.call.changesDocuments = true →
    t.rest.isDone = true → (n, t.call) ∈ order
  documents : (callsOn c moves).state.documents =
    order.foldl (fun documents entry => entry.2.onDocuments documents) c.documents

theorem exists_traced (c : Client) (moves : List (Move ClientCall (ServerId × Incident))) :
    ∃ order, Traced c moves order := by
  obtain ⟨order, henacts, hnodup, hentries, hover⟩ := (due_fresh c).enacts moves
  exact ⟨order, henacts, hnodup, fun entry hentry => (hentries entry hentry).2,
    fun n t hn hcall => hover n t hn hcall List.not_mem_nil, henacts.documents⟩

theorem sorted_callsOn {c : Client} (h : c.documents.Sorted)
    (moves : List (Move ClientCall (ServerId × Incident))) :
    (callsOn c moves).state.documents.Sorted := by
  obtain ⟨order, htraced⟩ := exists_traced c moves
  exact htraced.documents ▸ sorted_foldl_onDocuments order h

variable {language : String} {n : Nat} {id : ServerId}
  {p : Pool ClientCall Client (Except Fault Unit)}

/-- What a call has returned, it has returned for good. -/
theorem returned_run {result : Except Fault Unit} (h : returned p n = some result)
    (moves : List (Move ClientCall (ServerId × Incident))) :
    returned (returningCalls.run p moves) n = some result := by
  obtain ⟨t, hn, hrest⟩ := returned_eq_some.mp h
  exact returned_eq_some.mpr ⟨t, System.run_over hn hrest moves, hrest⟩

/-- The server of a start that has failed. -/
theorem Greeting.dismissed (h : Greeting language n id p) {fault : Fault}
    (hfailed : returned p n = some (.error fault)) : Dismissed language id p.state := by
  obtain ⟨t, hn, hgreets⟩ := h.own
  obtain ⟨t', hn', hrest⟩ := returned_eq_some.mp hfailed
  obtain rfl : t = t' := Option.some.inj (hn.symm.trans hn')
  rw [hrest] at hgreets
  cases hgreets with
  | dismissed hended => exact ⟨h.hosts.serves, hended, h.hosts.not_live hended⟩

/-! ## The next start -/

/-- A server is told the open documents of its language: each once, with the version and the text
that it has. -/
structure Introduced (language : String) (id : ServerId) (c c' : Client) : Prop where
  sorted : c.documents.Sorted
  documents : c'.documents = c.documents
  queued : ((server id).get c').queued = ((server id).get c).queued ++
    if ((server id).get c).writable then
      openings (c.documents.filter fun entry => entry.2.language == language) else []

theorem introduced_replay {c : Client} (h : Hosts language id c) (hsorted : c.documents.Sorted) :
    Introduced language id c (c.replay id) := by
  refine ⟨hsorted, (c.touches_replay id).documents, ?_⟩
  rw [get_replay h.known, foldl_opening, h.serves]

/-- The turns in which a call starts a new server for a language. -/
structure StartsAnew (language : String) (n : Nat)
    (p : Pool ClientCall Client (Except Fault Unit))
    (first middle : List (Move ClientCall (ServerId × Incident))) : Prop where
  begins : Begins language n (returningCalls.run p first)
  hosts : Hosts language (returningCalls.run p first).state.connections.length
    (returningCalls.run p (first ++ .turn n :: middle)).state
  introduced : Introduced language (returningCalls.run p first).state.connections.length
    (returningCalls.run p (first ++ .turn n :: middle)).state
    (returningCalls.run p (first ++ .turn n :: (middle ++ [.turn n]))).state

/-- A server that has been started and told all there is to tell, and nothing else. -/
structure Restarted (language : String) (id : ServerId) (c c' : Client) : Prop where
  current : c'.servers.find? language = some id
  live : c'.isLive language = true
  documents : c'.documents = c.documents
  queued : ∃ params, ((server id).get c').queued =
    request 1 "initialize" params :: notification "initialized" .empty ::
      openings (c.documents.filter fun entry => entry.2.language == language)

/-- A call that takes a server and works out has started a new one, if there was no live one. -/
theorem exists_startsAnew (hsettled : AllSettled p) (hsingle : ∀ t ∈ p.tasks, t.rest.Single)
    {t : Task ClientCall Client (Except Fault Unit)} (hn : p.tasks[n]? = some t)
    {command : ServerCommand} {line : Nat}
    (hfresh : t.rest = (ClientCall.connect language command line).returning)
    {moves : List (Move ClientCall (ServerId × Incident))}
    (hstarts : returningCalls.Along (StartsOnly language n) p moves)
    (hsorted : ∀ moves, (returningCalls.run p moves).state.documents.Sorted)
    (hdown : ∀ first rest, moves = first ++ .turn n :: rest → .turn n ∉ first →
      (returningCalls.run p first).state.isLive language = false)
    (hresult : returned (returningCalls.run p moves) n = some (.ok ())) :
    ∃ first middle last, moves = first ++ .turn n :: (middle ++ .turn n :: last) ∧
      StartsAnew language n p first middle := by
  obtain ⟨first, rest, rfl, hnew, hbegin⟩ := exists_begin hn hfresh hsettled hsingle hresult
  have hnotLive := hdown first rest rfl hnew
  rcases hbegin with ⟨hlive, -⟩ | ⟨hbegins, hgreeting, hnone⟩
  · rw [hnotLive] at hlive
    cases hlive
  have hrest := (Interleaving.System.along_append.mp hstarts).2.2
  rw [System.run_append, System.run_cons] at hresult
  rcases (hgreeting.run hrest).2 hresult with hover | ⟨middle, last, rfl, hmiddle, hreplay⟩
  · rw [hnone] at hover
    cases hover
  refine ⟨first, middle, last, rfl, hbegins, ?_, ?_⟩
  · rw [System.run_append, System.run_cons]
    exact hmiddle.hosts
  · have hgoal := introduced_replay hmiddle.hosts
      (by simpa only [System.run_append, System.run_cons] using
        hsorted (first ++ .turn n :: middle))
    rw [← hreplay] at hgoal
    simpa only [System.run_append, System.run_cons] using hgoal

/-! ### A start that its server answers -/

/-- Where a client and one of the calls on it stand. -/
structure Stands (n : Nat) (c : Client) (rest : Flow Client (Except Fault Unit))
    (p : Pool ClientCall Client (Except Fault Unit)) : Prop where
  state : p.state = c
  task : ∃ t, p.tasks[n]? = some t ∧ t.rest = rest
  single : rest.Single

theorem Stands.turn {c : Client} {rest : Flow Client (Except Fault Unit)}
    (h : Stands n c rest p) (hready : ∀ now deadline, rest.canGoOn now c deadline = true) :
    Stands n ((rest.wake c).stretch c).state ((rest.wake c).stretch c).rest
      (returningCalls.step p (.turn n)) := by
  obtain ⟨rfl, ⟨t, hn, rfl⟩, hsingle⟩ := h
  rw [System.step_turn hn hsingle (hready p.now t.deadline)]
  refine ⟨rfl, ⟨_, List.getElem?_set_self (List.getElem?_eq_some_iff.mp hn).1, rfl⟩, ?_⟩
  exact ((hsingle.wake p.state).stretch p.state).2

theorem answered_of_some {c : Client} {result : Json}
    (h : ((server id).get c).answer? 1 = some (.ok result)) :
    c.answered id =
      ⟨(server id).modify (fun s => s.welcome result)
        ((server id).modify (fun s => (s.collect 1 "initialize").2) c),
        Client.introducing id, []⟩ := by
  simp only [Client.answered, Server.collect_of_some h]

/-- A server that has been asked to start and been welcomed, and told nothing else. -/
structure JustWelcomed (language : String) (params : Json) (s : Server) : Prop where
  serves : s.language = language
  state : s.state = .initialized
  writable : s.writable = true
  queued : s.queued = [request 1 "initialize" params, notification "initialized" .empty]

theorem welcomed_of_answer (language : String) (command : ServerCommand) (timeout processId : Nat)
    (params : Json) {message result : Json}
    (hmessage : Server.answerOf? 1 message = some (.ok result)) :
    let asked := (Server.connected language command timeout processId).starting.numbered
      "initialize" params
    (asked.receive message).2.answer? 1 = some (.ok result) ∧
      JustWelcomed language params
        (((asked.receive message).2.collect 1 "initialize").2.welcome result) := by
  intro asked
  have hpending : 1 ∈ asked.pending := List.mem_singleton_self 1
  rw [Server.receive_of_answer hpending hmessage]
  exact ⟨rfl, rfl, rfl, rfl, rfl⟩

/-- A new server that has been welcomed is told the open documents. -/
theorem restarted_replay {c base welcomed : Client} {params : Json}
    (hbase : Attached language c base) (htouches : Touches [c.connections.length] base welcomed)
    (hwelcomed : JustWelcomed language params ((server c.connections.length).get welcomed)) :
    Restarted language c.connections.length c (welcomed.replay c.connections.length) := by
  have hknown : c.connections.length < welcomed.connections.length :=
    htouches.length.symm ▸ hbase.known
  have hreplay := htouches.trans (welcomed.touches_replay c.connections.length)
  have hget := get_replay hknown
  rw [foldl_opening, hwelcomed.serves, hwelcomed.writable, if_pos rfl, htouches.documents,
    hbase.documents] at hget
  have hcurrent : (welcomed.replay c.connections.length).servers.find? language =
      some c.connections.length := by
    rw [hreplay.servers, hbase.servers, Table.find?_insert, if_pos rfl]
  refine ⟨hcurrent, ?_, hreplay.documents.trans hbase.documents, params, ?_⟩
  · simp [Client.isLive, Client.serverOf?, hcurrent, hget, hwelcomed.state]
  · rw [hget, hwelcomed.queued]
    rfl

/-- A new server that has been asked to start answers. -/
theorem heard_answer {c base : Client} (hbase : Attached language c base) {message result : Json}
    (hmessage : Server.answerOf? 1 message = some (.ok result)) :
    let heard := clientCalls.outside (c.connections.length, .message message)
      (base.asked c.connections.length)
    Touches [c.connections.length] base heard ∧
      ((server c.connections.length).get heard).answer? 1 = some (.ok result) ∧
      ∃ params, JustWelcomed language params
        ((((server c.connections.length).get heard).collect 1 "initialize").2.welcome result) := by
  obtain ⟨command, timeout, processId, hnew⟩ := hbase.get
  have hasked := Client.get_asked hbase.known
  rw [hnew] at hasked
  obtain ⟨hanswer, hwelcomed⟩ := welcomed_of_answer language command timeout processId
    ((Server.connected language command timeout processId).initializeParams base.root) hmessage
  rw [← hasked] at hanswer hwelcomed
  have htouches := base.touches_asked c.connections.length
  have hheard : (server c.connections.length).get (clientCalls.outside
      (c.connections.length, .message message) (base.asked c.connections.length)) =
      (((server c.connections.length).get (base.asked c.connections.length)).receive message).2 :=
    Client.get_modify (htouches.length.symm ▸ hbase.known) _
  rw [← hheard] at hanswer hwelcomed
  exact ⟨htouches.trans (Client.touches_modify _ (List.mem_singleton_self _) _), hanswer, _,
    hwelcomed⟩

/-- The answer of a new server makes it welcome. -/
theorem restarted_answered {c base heard : Client} {params result : Json}
    (hbase : Attached language c base) (htouches : Touches [c.connections.length] base heard)
    (hanswer : ((server c.connections.length).get heard).answer? 1 = some (.ok result))
    (hwelcomed : JustWelcomed language params
      ((((server c.connections.length).get heard).collect 1 "initialize").2.welcome result)) :
    Restarted language c.connections.length c
      ((heard.answered c.connections.length).state.replay c.connections.length) := by
  have hmem := List.mem_singleton_self c.connections.length
  have hknown : c.connections.length < heard.connections.length :=
    htouches.length.symm ▸ hbase.known
  have hcollected := heard.touches_modify hmem fun s => (s.collect 1 "initialize").2
  have hcollect := Client.get_modify hknown fun s => (s.collect 1 "initialize").2
  have hwelcome := Client.get_modify (hcollected.length.symm ▸ hknown) fun s => s.welcome result
  rw [← hcollect, ← hwelcome] at hwelcomed
  rw [answered_of_some hanswer]
  exact restarted_replay hbase ((htouches.trans hcollected).trans
    (Client.touches_modify _ hmem fun s => s.welcome result)) hwelcomed

/-- A call that finds no live server for a language starts a new one, if that one answers. -/
theorem connect_answered (hlive : p.state.isLive language = false) (command : ServerCommand)
    (line : Nat) {message result : Json}
    (hmessage : Server.answerOf? 1 message = some (.ok result)) :
    let after := returningCalls.run p [.start (.connect language command line),
      .turn p.tasks.length, .outside (p.state.connections.length, .message message),
      .turn p.tasks.length, .turn p.tasks.length]
    returned after p.tasks.length = some (.ok ()) ∧
      Restarted language p.state.connections.length p.state after.state := by
  have hbase := p.state.attached_attach language command line
  obtain ⟨limit, next, hstretch, hnext⟩ := stretch_connect_new hlive command line
  have hstart : Stands p.tasks.length p.state
      (ClientCall.connect language command line).returning
      (returningCalls.step p (.start (.connect language command line))) :=
    ⟨rfl, ⟨_, List.getElem?_concat_length, rfl⟩, ClientCall.single _⟩
  have hfirst := hstart.turn fun _ _ => rfl
  rw [hstretch] at hfirst
  obtain ⟨htouches, hanswer, params, hwelcomed⟩ := heard_answer hbase hmessage
  have houtside : Stands p.tasks.length _ _ (returningCalls.step _
      (.outside (p.state.connections.length, .message message))) :=
    ⟨congrArg (clientCalls.outside _) hfirst.state, hfirst.task, hfirst.single⟩
  have hsecond := houtside.turn fun now deadline => by simp [Flow.canGoOn, hanswer]
  rw [Flow.wake, hnext, answered_of_some hanswer] at hsecond
  -- It is welcomed, and told the documents with the last turn.
  have hrestarted := restarted_answered hbase htouches hanswer hwelcomed
  rw [answered_of_some hanswer] at hrestarted
  obtain ⟨hstate, ⟨t, hn, hrest⟩, -⟩ := hsecond.turn fun _ _ => rfl
  refine ⟨returned_eq_some.mpr ⟨t, hn, hrest⟩, ?_⟩
  exact hstate ▸ hrestarted

/-! ## Failed starts -/

/-- A start that fails has asked a new server, and has been about that one ever since. -/
theorem exists_greeting_of_failed (hsettled : AllSettled p) (hsingle : ∀ t ∈ p.tasks, t.rest.Single)
    {t : Task ClientCall Client (Except Fault Unit)} (hn : p.tasks[n]? = some t)
    {command : ServerCommand} {line : Nat}
    (hfresh : t.rest = (ClientCall.connect language command line).returning)
    {moves : List (Move ClientCall (ServerId × Incident))}
    (hstarts : returningCalls.Along (StartsOnly language n) p moves) {fault : Fault}
    (hfailed : returned (returningCalls.run p moves) n = some (.error fault)) :
    ∃ first rest, moves = first ++ .turn n :: rest ∧
      Begins language n (returningCalls.run p first) ∧
      Greeting language n (returningCalls.run p first).state.connections.length
        (returningCalls.run p moves) := by
  obtain ⟨first, rest, rfl, -, ⟨-, hresult⟩ | ⟨hbegins, hgreeting, -⟩⟩ :=
    exists_begin hn hfresh hsettled hsingle hfailed
  · cases hresult
  · have hrest := (System.along_append.mp hstarts).2.2
    refine ⟨first, rest, rfl, hbegins, ?_⟩
    rw [System.run_append, System.run_cons]
    exact (hgreeting.run hrest).1

/-- After a failed start, the next call that takes a server for the language and works out has
started a new one. -/
theorem Greeting.exists_startsAnew (h : Greeting language n id p) {fault : Fault}
    (hfailed : returned p n = some (.error fault)) (hsettled : AllSettled p)
    (hsorted : ∀ moves, (returningCalls.run p moves).state.documents.Sorted)
    {command : ServerCommand} {line : Nat} {later : List (Move ClientCall (ServerId × Incident))}
    (hstarts : returningCalls.Along (StartsOnly language p.tasks.length)
      (returningCalls.step p (.start (.connect language command line))) later)
    (hresult : returned (returningCalls.run p (.start (.connect language command line) :: later))
      p.tasks.length = some (.ok ())) :
    ∃ first middle last, later = first ++ .turn p.tasks.length :: (middle ++
        .turn p.tasks.length :: last) ∧ StartsAnew language p.tasks.length
      (returningCalls.step p (.start (.connect language command line))) first middle := by
  have hmove := (returningCalls.step_cases p (.start (.connect language command line))).moved
    h.single
  have hbegun : Greeting language n id
      (returningCalls.step p (.start (.connect language command line))) :=
    (h.step hmove fun _ _ _ hturn => nomatch hturn).1
  refine Rpc.exists_startsAnew (hsettled.step hmove)
    (System.single_moved ClientCall.single h.single hmove) List.getElem?_concat_length rfl hstarts
    (fun moves => hsorted (_ :: moves)) (fun first rest hlater hnew => ?_) hresult
  -- Up to its first turn nobody else has started a server, so the failed one is the last.
  rw [hlater] at hstarts
  have hquiet := (System.along_append.mp hstarts).1.mono_of_mem (Q := StartsOnly language n)
    fun q move hmem hstarts m t hm hturn => hstarts m t (fun heq => hnew (heq ▸ hturn ▸ hmem)) hturn
  have hover := returned_run hfailed (.start (.connect language command line) :: first)
  exact ((hbegun.run hquiet).1.dismissed hover).notLive

/-- What the next call that takes a server for a language comes to. -/
structure Recovers (language : String) (p : Pool ClientCall Client (Except Fault Unit)) : Prop where
  /-- It works if the server answers. -/
  answered : ∀ (command : ServerCommand) (line : Nat) (message result : Json),
    Server.answerOf? 1 message = some (.ok result) →
    let after := returningCalls.run p [.start (.connect language command line),
      .turn p.tasks.length, .outside (p.state.connections.length, .message message),
      .turn p.tasks.length, .turn p.tasks.length]
    returned after p.tasks.length = some (.ok ()) ∧
      Restarted language p.state.connections.length p.state after.state
  /-- If it works, however it is interrupted, a new server has been told the documents. -/
  anew : ∀ (command : ServerCommand) (line : Nat)
      (later : List (Move ClientCall (ServerId × Incident))),
    let begun := returningCalls.step p (.start (.connect language command line))
    returningCalls.Along (StartsOnly language p.tasks.length) begun later →
    returned (returningCalls.run begun later) p.tasks.length = some (.ok ()) →
    ∃ first middle last, later = first ++ .turn p.tasks.length :: (middle ++
        .turn p.tasks.length :: last) ∧
      StartsAnew language p.tasks.length begun first middle

/-- A call that takes a server and fails leaves nothing behind, whatever was the matter and whatever
else went on, as long as no other call went about the start of a server for the language meanwhile.
This is so from its return on: `during` may end with it or go on. -/
theorem failed_start {c : Client} (hsorted : c.documents.Sorted)
    {before during : List (Move ClientCall (ServerId × Incident))} {language : String}
    {command : ServerCommand} {line : Nat} {fault : Fault}
    (hstarts : returningCalls.Along (StartsOnly language (callsOn c before).tasks.length)
      (callsOn c (before ++ [.start (.connect language command line)])) during)
    (hfailed : returned (callsOn c (before ++ [.start (.connect language command line)] ++ during))
      (callsOn c before).tasks.length = some (.error fault)) :
    let n := (callsOn c before).tasks.length
    let begun := before ++ [.start (.connect language command line)]
    let failed := callsOn c (begun ++ during)
    (∃ first rest, during = first ++ .turn n :: rest ∧
      Begins language n (callsOn c (begun ++ first)) ∧
      Dismissed language (callsOn c (begun ++ first)).state.connections.length failed.state) ∧
    (∃ order, Traced c (begun ++ during) order) ∧ Recovers language failed := by
  intro n begun failed
  have hbegun : (callsOn c begun).tasks[n]? = some (.of (callsOn c before).now
      (.connect language command line) (ClientCall.connect language command line).returning) := by
    rw [callsOn_append]
    exact List.getElem?_concat_length
  have hrun : failed = returningCalls.run (callsOn c begun) during := callsOn_append c begun during
  have hfailed' : returned failed n = some (.error fault) := hfailed
  obtain ⟨first, rest, hduring, hbegins, hgreeting⟩ :=
    exists_greeting_of_failed (settled_callsOn c begun) (single_callsOn c begun) hbegun rfl hstarts
      (hrun ▸ hfailed')
  rw [← hrun, ← callsOn_append] at hgreeting
  rw [← callsOn_append] at hbegins
  have hdismissed := hgreeting.dismissed hfailed'
  refine ⟨⟨first, rest, hduring, hbegins, hdismissed⟩, exists_traced c _,
    fun command line message result => connect_answered hdismissed.notLive command line,
    fun command line later => hgreeting.exists_startsAnew hfailed' (settled_callsOn c _) ?_⟩
  intro moves
  rw [← callsOn_append]
  exact sorted_callsOn hsorted _

/-- A server for Python is asked to start and never answers; a document changes while it is waited
for. -/
def silentStart : List (Move ClientCall (ServerId × Incident)) :=
  [.turn 1, .start (.didChange "file:///a.py" "x = 2"), .turn 2, .turn 2, .pass 30000, .turn 1,
    .turn 1]

theorem failed_start_silent :
    let before : List (Move ClientCall (ServerId × Incident)) :=
      [.start (.didOpen "file:///a.py" "python" "x = 1"), .turn 0, .turn 0]
    let begun := before ++ [.start (.connect "python" { command := "pylsp" } 0)]
    let failed := callsOn (freshClient ⟨30000, []⟩ none 1 []) (begun ++ silentStart)
    returned failed 1 = some (.error (.timeout "initialize" 30000)) ∧
      failed.state.documents = [("file:///a.py", ⟨"python", 2, "x = 2"⟩)] ∧
      failed.state.isLive "python" = false ∧ Recovers "python" failed := by
  intro before begun failed
  have hfailed : returned failed 1 = some (.error (.timeout "initialize" 30000)) := by rfl
  have hcalls : (callsOn (freshClient ⟨30000, []⟩ none 1 []) begun).tasks.map Task.call =
      [.didOpen "file:///a.py" "python" "x = 1",
        .connect "python" { command := "pylsp" } 0] := by rfl
  have hstarts : returningCalls.Along (StartsOnly "python" 1)
      (callsOn (freshClient ⟨30000, []⟩ none 1 []) begun) silentStart := by
    refine startsOnly_of_calls (single_callsOn _ _) (fun m t hm ht => ?_) (fun call hcall => ?_)
    · have hcall := congrArg (Option.map Task.call) ht
      rw [← List.getElem?_map, hcalls] at hcall
      match m with
      | 0 =>
          rw [← show _ = t.call from Option.some.inj hcall]
          nofun
      | 1 => exact absurd rfl hm
      | m + 2 => cases hcall
    · obtain rfl : call = .didChange "file:///a.py" "x = 2" := by simpa [silentStart] using hcall
      nofun
  obtain ⟨⟨first, rest, -, -, hdismissed⟩, -, hrecovers⟩ :=
    @failed_start (freshClient ⟨30000, []⟩ none 1 []) Table.sorted_nil before silentStart "python"
      { command := "pylsp" } 0 _ hstarts hfailed
  exact ⟨hfailed, by rfl, hdismissed.notLive, hrecovers⟩

end Rpc

end EditorHost
