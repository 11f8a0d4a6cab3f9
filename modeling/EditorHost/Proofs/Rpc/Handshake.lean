import EditorHost.Proofs.Rpc.Mirror
import EditorHost.Proofs.Rpc.Returning

/-!
# The start of a server, turn by turn

A call that takes a server asks it to start (`Begins`), waits for the answer, and then takes one
turn to look at the answer (`Client.answered`) and one to tell the server the open documents or to
end it (`Client.Greets`).  Between these turns everybody else may do anything but start a server of
that language: the server stays the one of its language or is forgotten, and what was queued stays
queued (`Client.Respects`).  `Greeting` puts this together for the calls under way.
-/

namespace EditorHost

namespace Rpc

open Interleaving (System Pool Move Task)
open Client (Attached Meddles Touches server)

namespace Client

/-! ## The server between the turns of its start -/

/-- A server that has been asked to start, and is the one of its language if there is one. -/
structure Hosts (language : String) (id : ServerId) (c : Client) : Prop where
  known : id < c.connections.length
  serves : ((server id).get c).language = language
  asked : ∃ params, [request 1 "initialize" params] <+: ((server id).get c).queued
  current : ∀ other, c.servers.find? language = some other → other = id

/-- What others do: a server is used only as it endures it, and its language gets no other one. -/
structure Respects (language : String) (id : ServerId) (c c' : Client) : Prop where
  length : c.connections.length ≤ c'.connections.length
  current : c'.servers.find? language = c.servers.find? language ∨ c'.servers.find? language = none
  endures : ((server id).get c).Endures ((server id).get c')

/-- What the start of a server does: it changes that server only. -/
structure Advances (id : ServerId) (c c' : Client) : Prop where
  touches : Touches [id] c c'
  language : ((server id).get c').language = ((server id).get c).language
  queued : ((server id).get c).queued <+: ((server id).get c').queued

variable {language : String} {id : ServerId} {c c' : Client}

namespace Respects

theorem refl (c : Client) : Respects language id c c := ⟨Nat.le_refl _, .inl rfl, .refl _⟩

theorem trans (c c' c'' : Client) (h : Respects language id c c')
    (h' : Respects language id c' c'') : Respects language id c c'' := by
  refine ⟨Nat.le_trans h.length h'.length, ?_, h.endures.trans _ _ _ h'.endures⟩
  rcases h'.current with heq | hnone
  · exact heq ▸ h.current
  · exact .inr hnone

theorem of_meddles {ids : List ServerId} (h : Meddles ids c c') (hid : id ∉ ids) :
    Respects language id c c' := ⟨h.length, h.servers language, h.endures id hid⟩

/-- A server for another language is a new one. -/
theorem of_attached {other : String} (h : Attached other c c') (hother : other ≠ language)
    (hid : id < c.connections.length) : Respects language id c c' := by
  refine ⟨Nat.le_of_lt h.known, .inl ?_, h.get_old hid ▸ .refl _⟩
  rw [h.servers, Table.find?_insert, if_neg hother.symm]

end Respects

namespace Advances

theorem refl (c : Client) : Advances id c c := ⟨.refl c, rfl, List.prefix_refl _⟩

theorem trans {c'' : Client} (h : Advances id c c') (h' : Advances id c' c'') : Advances id c c'' :=
  ⟨h.touches.trans h'.touches, h'.language.trans h.language, h.queued.trans h'.queued⟩

theorem of_modify (hid : id < c.connections.length) (change : Server → Server)
    (hlanguage : (change ((server id).get c)).language = ((server id).get c).language)
    (hqueued : ((server id).get c).queued <+: (change ((server id).get c)).queued) :
    Advances id c ((server id).modify change c) := by
  have hget := get_modify hid change
  exact ⟨c.touches_modify (List.mem_singleton_self id) change, hget ▸ hlanguage, hget ▸ hqueued⟩

theorem known (h : Advances id c c') (hid : id < c.connections.length) :
    id < c'.connections.length := h.touches.length.symm ▸ hid

end Advances

theorem Hosts.respects (h : Hosts language id c) (hothers : Respects language id c c') :
    Hosts language id c' := by
  obtain ⟨params, hasked⟩ := h.asked
  refine ⟨Nat.lt_of_lt_of_le h.known hothers.length, hothers.endures.language.trans h.serves,
    ⟨params, hasked.trans hothers.endures.queued⟩, fun other hother => ?_⟩
  rcases hothers.current with heq | hnone
  · exact h.current other (heq ▸ hother)
  · rw [hnone] at hother
    cases hother

theorem Hosts.advances (h : Hosts language id c) (hown : Advances id c c') :
    Hosts language id c' := by
  obtain ⟨params, hasked⟩ := h.asked
  exact ⟨hown.known h.known, hown.language.trans h.serves, ⟨params, hasked.trans hown.queued⟩,
    fun other hother => h.current other (hown.touches.servers ▸ hother)⟩

/-- If its server has ended, a language has no live one. -/
theorem Hosts.not_live (h : Hosts language id c) (hended : ((server id).get c).IsEnded) :
    c.isLive language = false := by
  unfold isLive serverOf?
  cases hfind : c.servers.find? language with
  | none => rfl
  | some other =>
      obtain rfl := h.current other hfind
      simp [hended.state]

theorem advances_replay (hid : id < c.connections.length) : Advances id c (c.replay id) := by
  refine ⟨c.touches_replay id, ?_, ?_⟩
  · rw [get_replay hid, foldl_opening]
  · rw [get_replay hid, foldl_opening]
    exact List.prefix_append _ _

/-- A server that has just been asked to start. -/
theorem hosts_asked {base : Client} (h : Attached language c base) :
    Hosts language c.connections.length (base.asked c.connections.length) := by
  obtain ⟨command, timeout, processId, hnew⟩ := h.get
  have htouches := base.touches_asked c.connections.length
  have hget := get_asked h.known
  rw [hnew] at hget
  refine ⟨htouches.length.symm ▸ h.known, by rw [hget]; rfl, ?_, fun other hother => ?_⟩
  · rw [hget]
    exact ⟨_, List.prefix_refl _⟩
  · rw [htouches.servers, h.servers, Table.find?_insert, if_pos rfl] at hother
    exact (Option.some.inj hother).symm

/-! ## The turns of a start -/

/-- How far the start of a server has come, behind its first turn. -/
inductive Greets (id : ServerId) (c : Client) : Flow Client (Except Fault Unit) → Prop
  | waiting {ready limit next} (hnext : ∀ met c', (next met).stretch c' = c'.answered id) :
      Greets id c (.await ready limit next)
  | dismissing (fault : Fault) : Greets id c (dismissing id fault)
  | dismissed {fault : Fault} (hended : ((server id).get c).IsEnded) :
      Greets id c (.done (.error fault))
  | introducing : Greets id c (introducing id)
  | introduced : Greets id c (.done (.ok ()))

variable {rest : Flow Client (Except Fault Unit)}

/-- Others do not set a start back. -/
theorem Greets.respects (h : Greets id c rest) (hothers : Respects language id c c') :
    Greets id c' rest := by
  cases h with
  | waiting hnext => exact .waiting hnext
  | dismissing fault => exact .dismissing fault
  | dismissed hended => exact .dismissed (hothers.endures.isEnded hended)
  | introducing => exact .introducing
  | introduced => exact .introduced

/-- What a turn of a start comes to; it is over when the server has been told the documents. -/
structure Greeted (id : ServerId) (c : Client) (rest : Flow Client (Except Fault Unit))
    (r : Flow.Stretch Client (Except Fault Unit)) : Prop where
  advances : Advances id c r.state
  left : Greets id r.state r.rest
  worked : r.rest.result? = some (.ok ()) → rest.result? = some (.ok ()) ∨ r.state = c.replay id

theorem greeted_answered (hid : id < c.connections.length) : Greeted id c rest (c.answered id) := by
  have hlanguage : (((server id).get c).collect 1 "initialize").2.language =
      ((server id).get c).language := (Server.endures_collect _ 1 "initialize").language
  have hqueued := (Server.endures_collect ((server id).get c) 1 "initialize").queued
  have hcollected :=
    Advances.of_modify hid (fun s => (s.collect 1 "initialize").2) hlanguage hqueued
  unfold answered
  dsimp only
  cases (((server id).get c).collect 1 "initialize").1 with
  | error fault =>
      refine ⟨hcollected.trans (.of_modify (hcollected.known hid) _ rfl (List.prefix_refl _)),
        .dismissing fault, fun hover => ?_⟩
      cases hover
  | ok result =>
      have hwelcome := Advances.of_modify (hcollected.known hid) (fun s => s.welcome result)
        (by simp [Server.welcome]) (by simp [Server.welcome])
      refine ⟨hcollected.trans hwelcome, .introducing, fun hover => ?_⟩
      cases hover

theorem Greets.turn (h : Greets id c rest) (hid : id < c.connections.length) :
    Greeted id c rest ((rest.wake c).stretch c) := by
  cases h with
  | waiting hnext =>
      rw [Flow.wake, hnext]
      exact greeted_answered hid
  | dismissing fault =>
      have hstretch : ((Client.dismissing id fault).wake c).stretch c =
          ⟨(server id).modify Server.killed c, .done (.error fault), []⟩ := rfl
      rw [hstretch]
      refine ⟨.of_modify hid _ rfl (List.prefix_refl _), .dismissed ?_, fun hover => ?_⟩
      · exact get_modify hid Server.killed ▸ ⟨rfl, rfl, rfl⟩
      · cases hover
  | dismissed hended => exact ⟨.refl c, .dismissed hended, fun hover => .inl hover⟩
  | introducing =>
      have hstretch : ((Client.introducing id).wake c).stretch c =
          ⟨c.replay id, .done (.ok ()), []⟩ := rfl
      rw [hstretch]
      exact ⟨advances_replay hid, .introduced, fun _ => .inr rfl⟩
  | introduced => exact ⟨.refl c, .introduced, fun hover => .inl hover⟩

end Client

open Client (Greets Hosts Respects)

/-! ## Calls under way -/

variable {language : String} {n : Nat} {id : ServerId}
  {p p' : Pool ClientCall Client (Except Fault Unit)}

/-- A turn of a call, if it does not go about the start of a server for the language. -/
theorem respects_turn {c : Client} (hid : id < c.connections.length)
    {t : Task ClientCall Client (Except Fault Unit)}
    (h : Fresh t ∧ t.call.language? ≠ some language ∨ t.rest.Within (Respects language id)) :
    Respects language id c ((t.rest.wake c).stretch c).state ∧
      ((t.rest.wake c).stretch c).rest.Within (Respects language id) := by
  have hturn {rest : Flow Client (Except Fault Unit)} (hrest : rest.Within (Respects language id))
      (base : Client) : Respects language id base (rest.stretch base).state ∧
        (rest.stretch base).rest.Within (Respects language id) := by
    obtain ⟨hstate, hleft, -⟩ := hrest.stretch Respects.refl Respects.trans base
    exact ⟨hstate, hleft⟩
  have hmeddles (ids : List ServerId) (hids : id ∉ ids) (c c' : Client) (h : Meddles ids c c') :
      Respects language id c c' := .of_meddles h hids
  rcases h with ⟨hfresh, hcall⟩ | hwithin
  · rw [hfresh]
    cases hlanguage : t.call.language? with
    | none =>
        have hwithin := (ClientCall.within_meddles hlanguage []).mono (hmeddles [] List.not_mem_nil)
        exact hturn (hwithin.wake c) c
    | some other =>
        have hother : other ≠ language := fun heq => hcall (heq ▸ hlanguage)
        rcases stretch_fresh hlanguage c with ⟨result, hstretch⟩ | ⟨-, base, hbase, hstretch⟩
        · rw [hstretch]
          exact ⟨.refl c, trivial⟩
        · -- The call speaks to a server of its own from now on.
          have hne : id ∉ [c.connections.length] := fun hin =>
            Nat.ne_of_lt hid (List.mem_singleton.mp hin)
          have hgreet := (Client.within_touches_greet c.connections.length).mono
            fun c c' htouches => hmeddles _ hne c c' (.of_touches htouches)
          obtain ⟨hstate, hleft⟩ := hturn hgreet base
          rw [hstretch]
          exact ⟨(Respects.of_attached hbase hother hid).trans _ _ _ hstate, hleft⟩
  · exact hturn (hwithin.wake c) c

/-- A call is starting a server, or has been, while others are under way. -/
structure Greeting (language : String) (n : Nat) (id : ServerId)
    (p : Pool ClientCall Client (Except Fault Unit)) : Prop where
  single : ∀ t ∈ p.tasks, t.rest.Single
  hosts : Hosts language id p.state
  own : ∃ t, p.tasks[n]? = some t ∧ Greets id p.state t.rest
  others : ∀ m t, m ≠ n → p.tasks[m]? = some t → Fresh t ∨ t.rest.Within (Respects language id)

namespace Greeting

/-- What others do to the client does not matter. -/
theorem respects (h : Greeting language n id p) {c : Client}
    (hothers : Respects language id p.state c) :
    Hosts language id c ∧ ∃ t, p.tasks[n]? = some t ∧ Greets id c t.rest := by
  obtain ⟨t, hn, hgreets⟩ := h.own
  exact ⟨h.hosts.respects hothers, t, hn, hgreets.respects hothers⟩

/-- What a move makes of it.  The call is over when it has told the server the documents. -/
theorem step (h : Greeting language n id p) {move : Move ClientCall (ServerId × Incident)}
    (hmove : returningCalls.Moved p move p') (hstarts : StartsOnly language n p move) :
    Greeting language n id p' ∧ (returned p' n = some (.ok ()) →
      returned p n = some (.ok ()) ∨ move = .turn n ∧ p'.state = p.state.replay id) := by
  have hsingle := System.single_moved ClientCall.single h.single hmove
  obtain ⟨own, hn, hgreets⟩ := h.own
  cases hmove with
  | idle => exact ⟨h, .inl⟩
  | start call =>
      have hlt : n < p.tasks.length := (List.getElem?_eq_some_iff.mp hn).1
      have hsame {t : Task ClientCall Client (Except Fault Unit)} :
          (p.tasks ++ [t])[n]? = p.tasks[n]? := List.getElem?_append_left hlt
      refine ⟨⟨hsingle, h.hosts, ⟨own, hsame.trans hn, hgreets⟩, fun m t hm hold => ?_⟩,
        fun hover => .inl ?_⟩
      · rcases Interleaving.getElem?_concat_cases hold with hold | ⟨-, rfl⟩
        · exact h.others m t hm hold
        · exact .inl rfl
      · rwa [returned, hsame] at hover
  | @turn m t r hm hstretch =>
      by_cases heq : m = n
      · subst heq
        obtain rfl : t = own := Option.some.inj (hm.symm.trans hn)
        have hturn := hgreets.turn h.hosts.known
        rw [hstretch] at hturn
        have hself : (p.tasks.set m (.of p.now t.call r.rest))[m]? =
            some (.of p.now t.call r.rest) :=
          List.getElem?_set_self (List.getElem?_eq_some_iff.mp hm).1
        refine ⟨⟨hsingle, h.hosts.advances hturn.advances, ⟨_, hself, hturn.left⟩,
          fun other t' hother hold => ?_⟩, fun hover => ?_⟩
        · exact h.others other t' hother (List.getElem?_set_ne hother.symm ▸ hold)
        · rw [returned, hself] at hover
          rw [returned, hm]
          exact (hturn.worked hover).imp_right fun hstate => ⟨rfl, hstate⟩
      · -- It is the turn of another call, which has a server of its own or none.
        have hcalm : Fresh t ∧ t.call.language? ≠ some language ∨
            t.rest.Within (Respects language id) :=
          (h.others m t heq hm).imp_left fun hfresh => ⟨hfresh, hstarts m t heq rfl hm hfresh⟩
        obtain ⟨hstate, hleft⟩ := respects_turn h.hosts.known hcalm
        rw [hstretch] at hstate hleft
        obtain ⟨hhosts, t', hn', hgreets'⟩ := h.respects hstate
        have hsame : (p.tasks.set m (.of p.now t.call r.rest))[n]? = p.tasks[n]? :=
          List.getElem?_set_ne heq
        refine ⟨⟨hsingle, hhosts, ⟨t', hsame.trans hn', hgreets'⟩, fun other t'' hother hold => ?_⟩,
          fun hover => .inl ?_⟩
        · rcases Interleaving.getElem?_set_cases hm hold with ⟨rfl, rfl⟩ | ⟨-, hold⟩
          · exact .inr hleft
          · exact h.others other t'' hother hold
        · rwa [returned, hsame] at hover
  | pass time => exact ⟨⟨hsingle, h.hosts, h.own, h.others⟩, .inl⟩
  | outside event =>
      have hmeddles : Meddles [] p.state (clientCalls.outside event p.state) :=
        p.state.meddles_incident event
      have hstate : Respects language id p.state (clientCalls.outside event p.state) :=
        .of_meddles hmeddles List.not_mem_nil
      obtain ⟨hhosts, hown⟩ := h.respects hstate
      exact ⟨⟨hsingle, hhosts, hown, h.others⟩, .inl⟩

/-- Nothing that others do stops the start of a server from being one.  If it works, there is a turn
that tells the server the open documents. -/
theorem run (h : Greeting language n id p) {moves : List (Move ClientCall (ServerId × Incident))}
    (hstarts : returningCalls.Along (StartsOnly language n) p moves) :
    Greeting language n id (returningCalls.run p moves) ∧
      (returned (returningCalls.run p moves) n = some (.ok ()) → returned p n = some (.ok ()) ∨
        ∃ middle last, moves = middle ++ .turn n :: last ∧
          Greeting language n id (returningCalls.run p middle) ∧
          (returningCalls.run p (middle ++ [.turn n])).state =
            (returningCalls.run p middle).state.replay id) := by
  induction moves generalizing p with
  | nil => exact ⟨h, .inl⟩
  | cons move moves ih =>
      obtain ⟨hmove, hmoves⟩ := hstarts
      obtain ⟨hnext, hover⟩ := h.step ((returningCalls.step_cases p move).moved h.single) hmove
      obtain ⟨hend, hlater⟩ := ih hnext hmoves
      refine ⟨hend, fun hresult => ?_⟩
      rcases hlater hresult with hbefore | ⟨middle, last, rfl, hmiddle, hreplay⟩
      · rcases hover hbefore with hbefore | ⟨rfl, hreplay⟩
        · exact .inl hbefore
        · exact .inr ⟨[], moves, rfl, h, hreplay⟩
      · exact .inr ⟨move :: middle, last, rfl, hmiddle, hreplay⟩

end Greeting

/-! ## The first turn -/

/-- With its turn a call finds no live server for a language, and asks a new one to start. -/
structure Begins (language : String) (n : Nat)
    (p : Pool ClientCall Client (Except Fault Unit)) : Prop where
  notLive : p.state.isLive language = false
  asks : ∃ base, Attached language p.state base ∧
    (returningCalls.step p (.turn n)).state = base.asked p.state.connections.length

/-- The first turn of a call that takes a server and finds no live one. -/
theorem stretch_connect_new {c : Client} {language : String} (hlive : c.isLive language = false)
    (command : ServerCommand) (line : Nat) :
    ∃ limit next,
      ((ClientCall.connect language command line).returning.wake c).stretch c =
        ⟨(c.attach language command line).2.asked c.connections.length,
          .await (fun c' => (((server c.connections.length).get c').answer? 1).isSome) limit next,
          []⟩ ∧
      ∀ met c', (next met).stretch c' = c'.answered c.connections.length := by
  have hbase := c.attached_attach language command line
  obtain ⟨_, timeout, processId, hnew⟩ := hbase.get
  rw [stretch_connect, hlive, if_neg Bool.false_ne_true]
  exact Client.stretch_greet _ hbase.known hnew

section Connect

variable {command : ServerCommand} {line : Nat}
  {t : Task ClientCall Client (Except Fault Unit)} (hn : p.tasks[n]? = some t)
  (hfresh : t.rest = (ClientCall.connect language command line).returning)

include hn hfresh

/-- The first turn of a call that takes a server and finds a live one. -/
theorem over_turned (hlive : p.state.isLive language = true) :
    (p.turned n t).tasks[n]? = some (.of p.now t.call (.done (.ok ()))) := by
  have hstretch := stretch_connect p.state language command line
  rw [hlive, if_pos rfl, ← hfresh] at hstretch
  unfold Interleaving.Pool.turned
  rw [hstretch]
  exact List.getElem?_set_self (List.getElem?_eq_some_iff.mp hn).1

/-- After its first turn, a call that has found no live server is starting one. -/
theorem greeting_turned (hsettled : AllSettled p) (hsingle : ∀ t ∈ p.tasks, t.rest.Single)
    (hlive : p.state.isLive language = false) :
    (p.turned n t).state =
        (p.state.attach language command line).2.asked p.state.connections.length ∧
      Greeting language n p.state.connections.length (p.turned n t) ∧
      returned (p.turned n t) n = none := by
  have hbase := p.state.attached_attach language command line
  obtain ⟨limit, next, hstretch, hnext⟩ := stretch_connect_new hlive command line
  rw [← hfresh] at hstretch
  have hself (rest : Flow Client (Except Fault Unit)) :
      (p.tasks.set n (.of p.now t.call rest))[n]? = some (.of p.now t.call rest) :=
    List.getElem?_set_self (List.getElem?_eq_some_iff.mp hn).1
  have hrest := (((hsingle t (List.mem_of_getElem? hn)).wake p.state).stretch p.state).2
  unfold Interleaving.Pool.turned
  rw [hstretch] at hrest ⊢
  refine ⟨rfl, ⟨fun t' ht' => ?_, Client.hosts_asked hbase, ⟨_, hself _, .waiting hnext⟩,
    fun m t' hm hold => ?_⟩, ?_⟩
  · rcases List.mem_or_eq_of_mem_set ht' with hold | rfl
    · exact hsingle t' hold
    · exact hrest
  · -- What others use was there before, so it is not the new server.
    rw [List.getElem?_set_ne hm.symm] at hold
    rcases hsettled t' (List.mem_of_getElem? hold) with ⟨ids, hids, hwithin⟩ | hfresh
    · refine .inr (hwithin.mono fun _ _ hmeddles => .of_meddles hmeddles fun hin => ?_)
      exact Nat.lt_irrefl _ (hids _ hin)
    · exact .inl hfresh
  · rw [returned, hself]
    rfl

/-- A call that takes a server and is over has taken its first turn: there was a live server, or a
new one has been asked to start. -/
theorem exists_begin (hsettled : AllSettled p) (hsingle : ∀ t ∈ p.tasks, t.rest.Single)
    {moves : List (Move ClientCall (ServerId × Incident))} {result : Except Fault Unit}
    (hresult : returned (returningCalls.run p moves) n = some result) :
    ∃ first rest, moves = first ++ .turn n :: rest ∧ .turn n ∉ first ∧
      ((returningCalls.run p first).state.isLive language = true ∧ result = .ok () ∨
        Begins language n (returningCalls.run p first) ∧
          Greeting language n (returningCalls.run p first).state.connections.length
            (returningCalls.step (returningCalls.run p first) (.turn n)) ∧
          returned (returningCalls.step (returningCalls.run p first) (.turn n)) n = none) := by
  have hready (now : Nat) (c : Client) : t.isReady now c = true := by
    rw [Interleaving.Task.isReady, hfresh]
    rfl
  rcases System.exists_turn (S := returningCalls) hn (hsingle t (List.mem_of_getElem? hn)) hready
    moves with hsame | ⟨first, rest, rfl, hnew, hfirst, hturned⟩
  · rw [returned, hsame, Option.bind_some, hfresh] at hresult
    cases hresult
  refine ⟨first, rest, rfl, hnew, ?_⟩
  have hsettled' := settled_run first hsettled hsingle
  have hsingle' := System.single_run (S := returningCalls) ClientCall.single hsingle first
  rw [System.run_append, System.run_cons] at hresult
  generalize returningCalls.run p first = q at *
  rw [hturned] at hresult ⊢
  cases hlive : q.state.isLive language with
  | true =>
      have hover := over_turned hfirst hfresh hlive
      rw [returned, System.run_over hover rfl rest] at hresult
      exact .inl ⟨rfl, (Option.some.inj hresult).symm⟩
  | false =>
      obtain ⟨hstate, hgreeting, hnone⟩ :=
        greeting_turned hfirst hfresh hsettled' hsingle' hlive
      refine .inr ⟨⟨hlive, _, q.state.attached_attach language command line, ?_⟩, hgreeting, hnone⟩
      rw [hturned, hstate]

end Connect

end Rpc

end EditorHost
