import Mathlib.Data.List.Induction
import EditorHost.Proofs.Rpc.Bookkeeping
import EditorHost.Rpc.Client

/-!
# The end of a connection

A connection that has ended is meant to stay shut down, whatever is still under way on it.  It does,
with one exception: a handshake whose answer came before the end, and which takes its turn after it,
makes the connection initialized again.

* `shutDown_iff` states this for every run: the connection is shut down at all points behind its end
  if and only if no `Welcomed` handshake takes a turn there.
* `shutDown_forever` needs to know about one point only: when no handshake is welcomed at the end
  of the connection, none will ever be.  The invariant is `Ended`: the table is empty, so that no
  answer can come any more, and no handshake that is under way has an answer to collect.
-/

namespace EditorHost.Rpc

open Interleaving (Staged Pool Move Task)

/-- The connection has ended. -/
structure Server.IsEnded (s : Server) : Prop where
  closed : s.closed = true
  pending : s.pending = []
  state : s.state = .shutdown

/-- The connection has ended, and has no answers that an earlier one did not have. -/
structure Server.Fades (s s' : Server) : Prop where
  isEnded : s'.IsEnded
  answers : ∀ id a, s'.answer? id = some a → s.answer? id = some a

/-- The stage is that of a handshake whose answer has come and is still to be collected. -/
def Stage.IsWelcomed (s : Server) : Stage → Prop
  | waiting (.greet _) id _ _ => ∃ result, s.answer? id = some (.ok result)
  | _ => False

/-- The connection has ended, and no handshake has an answer to collect. -/
structure Ended (l : Staged Server Stage) : Prop where
  isEnded : l.state.IsEnded
  unwelcomed : ∀ k ∈ l.stages, ¬ k.IsWelcomed l.state

/-! ## What happens to a connection that has ended -/

namespace Server.Fades

variable {s s' : Server}

theorem of_answers (h : s'.IsEnded) (hanswers : s'.answers = s.answers) : s.Fades s' :=
  ⟨h, fun id a ha => by rwa [answer?_congr hanswers] at ha⟩

theorem trans {s'' : Server} (h : s.Fades s') (h' : s'.Fades s'') : s.Fades s'' :=
  ⟨h'.isEnded, fun id a ha => h.answers id a (h'.answers id a ha)⟩

/-- A call that had nothing to collect still has nothing. -/
theorem isWelcomed (h : s.Fades s') {k : Stage} (hk : k.IsWelcomed s') : k.IsWelcomed s := by
  unfold Stage.IsWelcomed at hk ⊢
  split at hk
  · obtain ⟨result, hresult⟩ := hk
    exact ⟨result, h.answers _ _ hresult⟩
  · exact hk

end Server.Fades

namespace Server.IsEnded

variable {s : Server} (h : s.IsEnded)
include h

theorem fades_close (reason : String) : s.Fades (s.close reason) :=
  .of_answers ⟨rfl, rfl, rfl⟩ (by simp [close, h.pending])

theorem fades_incident (i : Incident) : s.Fades (i.change s) := by
  cases i with
  | message m =>
      simp only [Incident.change, receive]
      split
      · rw [respond_of_not_mem (by simp [h.pending])]
        exact .of_answers h rfl
      · rw [queue_snd]
        exact .of_answers ⟨h.closed, h.pending, h.state⟩ rfl
      · exact .of_answers h rfl
      · exact .of_answers h rfl
  | finished => exact (h.fades_close "process exited").trans (.of_answers ⟨rfl, rfl, rfl⟩ rfl)
  | unwritable => exact .of_answers ⟨h.closed, h.pending, h.state⟩ rfl

theorem fades_killed : s.Fades s.killed :=
  (h.fades_close "shut down").trans (.of_answers ⟨rfl, rfl, rfl⟩ rfl)

theorem fades_collect (id : RequestId) (method : String) : s.Fades (s.collect id method).2 := by
  refine ⟨?_, ?_⟩
  · unfold collect
    split
    · exact ⟨h.closed, h.pending, h.state⟩
    · exact ⟨h.closed, by simp [h.pending], h.state⟩
  · intro other a ha
    rw [answer?_collect] at ha
    split at ha
    · cases ha
    · exact ha

/-- Only a good answer to a handshake brings a connection back. -/
theorem fades_settled (q : Inquiry) (a : Answer)
    (hbad : ∀ root result, q = .greet root → a ≠ .ok result) :
    s.Fades (Stage.settled s q a).1 ∧ ∀ t : Server, ¬ (Stage.settled s q a).2.IsWelcomed t := by
  cases q with
  | request m params => exact ⟨.of_answers h rfl, fun _ => id⟩
  | greet root =>
      cases a with
      | error fault => exact ⟨.of_answers ⟨h.closed, h.pending, rfl⟩ rfl, fun _ => id⟩
      | ok result => exact absurd rfl (hbad root result rfl)
  | shutdown =>
      refine ⟨?_, fun _ => id⟩
      simp only [Stage.settled, notify_snd]
      exact .of_answers ⟨h.closed, h.pending, h.state⟩ rfl

/-- A new question gets no number, so its call does not wait. -/
theorem fades_fresh (q : Inquiry) (now : Nat) :
    let k := if q.opens s then Stage.asked now s q else (s, .leaving)
    s.Fades k.1 ∧ ∀ t : Server, ¬ k.2.IsWelcomed t := by
  cases q with
  | request m params =>
      simp only [Inquiry.opens, if_true, Stage.asked, Inquiry.prepare, issue_of_closed h.closed]
      exact ⟨.of_answers ⟨h.closed, h.pending, h.state⟩ rfl, fun _ => id⟩
  | greet root =>
      have hclosed : ({ s with state := .starting } : Server).closed = true := h.closed
      simp only [Inquiry.opens, if_true, Stage.asked, Inquiry.prepare, issue_of_closed hclosed]
      exact ⟨.of_answers ⟨h.closed, h.pending, rfl⟩ rfl, fun _ => id⟩
  | shutdown =>
      simp only [Inquiry.opens, h.state]
      exact ⟨.of_answers h rfl, fun _ => id⟩

/-- A turn leaves a connection ended, unless it is the turn of a welcomed handshake. -/
theorem fades_turn {now : Nat} {s' : Server} {k k' : Stage} (hturn : k.turn now s = some (s', k'))
    (hk : ¬ k.IsWelcomed s) : s.Fades s' ∧ ∀ t : Server, ¬ k'.IsWelcomed t := by
  cases k with
  | fresh call =>
      cases call with
      | ask q =>
          rw [Stage.turn, Option.some.injEq] at hturn
          have hfresh := h.fades_fresh q now
          rwa [hturn] at hfresh
      | kill =>
          cases hturn
          exact ⟨h.fades_killed, fun _ => id⟩
  | waiting q id limit deadline =>
      rw [Stage.turn] at hturn
      split at hturn
      · rw [Option.some.injEq] at hturn
        have hcollect := h.fades_collect id q.method
        -- A good answer to a handshake would make it welcomed.
        have hbad : ∀ root result, q = .greet root → (s.collect id q.method).1 ≠ .ok result := by
          rintro root result rfl hok
          cases hanswer : s.answer? id with
          | none => simp [collect_of_none hanswer] at hok
          | some a =>
              rw [collect_of_some hanswer] at hok
              exact hk ⟨result, hok ▸ hanswer⟩
        obtain ⟨hfades, hstage⟩ := hcollect.isEnded.fades_settled q _ hbad
        rw [hturn] at hfades hstage
        exact ⟨hcollect.trans hfades, hstage⟩
      · cases hturn
  | leaving =>
      cases hturn
      exact ⟨h.fades_killed, fun _ => id⟩
  | done call reply => cases hturn

end Server.IsEnded

namespace Ended

variable {l : Staged Server Stage}

/-- An ended connection stays ended, whatever happens. -/
theorem step (h : Ended l) {move : Move Call Incident} {l' : Staged Server Stage}
    (hstep : staging.Stepped l move l') : Ended l' := by
  cases hstep with
  | idle => exact h
  | start call =>
      refine ⟨h.isEnded, fun k hk => ?_⟩
      rcases List.mem_append.mp hk with hk | hk
      · exact h.unwelcomed k hk
      · rw [List.mem_singleton.mp hk]
        exact id
  | turn hn hturn =>
      obtain ⟨hfades, hstage⟩ :=
        h.isEnded.fades_turn hturn (h.unwelcomed _ (List.mem_of_getElem? hn))
      refine ⟨hfades.isEnded, fun other hother => ?_⟩
      rcases List.mem_or_eq_of_mem_set hother with hother | rfl
      · exact fun hw => h.unwelcomed other hother (hfades.isWelcomed hw)
      · exact hstage _
  | pass _ _ => exact ⟨h.isEnded, h.unwelcomed⟩
  | outside i =>
      have hfades := h.isEnded.fades_incident i
      exact ⟨hfades.isEnded, fun k hk hw => h.unwelcomed k hk (hfades.isWelcomed hw)⟩

theorem run (h : Ended l) (moves : List (Move Call Incident)) : Ended (staging.run l moves) :=
  staging.run_invariant (fun _ _ _ hstep h => h.step hstep) h moves

end Ended

/-! ## Runs behind the end -/

/-- The call is a handshake whose answer has come and is still to be collected. -/
def Welcomed (p : Pool Call Server Reply) (n : Nat) : Prop :=
  ∃ t root id limit result, p.tasks[n]? = some t ∧
    t.rest = (Inquiry.greet root).awaiting id limit ∧ p.state.answer? id = some (.ok result)

/-- With its turn a welcomed handshake makes the connection initialized, be it closed or not. -/
theorem initialized_of_welcomed {p : Pool Call Server Reply} {n : Nat} (h : Welcomed p n) :
    (p.turn n).state.state = .initialized ∧ (p.turn n).state.closed = p.state.closed := by
  obtain ⟨t, root, id, limit, result, hn, hrest, hanswer⟩ := h
  have hready : t.isReady p.now p.state = true := by
    simp [Task.isReady, hrest, Inquiry.awaiting, Flow.canGoOn, hanswer]
  have hcollect : p.state.collect id "initialize" = (.ok result, { p.state with
      answers := p.state.answers.filter fun entry => entry.1 != id }) := by
    simp [Server.collect, hanswer]
  have hstretch : ((t.rest.wake p.state).stretch p.state).state =
      (p.state.collect id "initialize").2.welcome result := by
    simp only [hrest, Inquiry.awaiting, Flow.wake, Flow.stretch_act, Inquiry.method, hcollect]
    rfl
  simp [Pool.turn, hn, hready, hstretch, Server.welcome, hcollect]

/-- What is described as a welcomed handshake is one. -/
theorem Stage.IsWelcomed.welcomed {l : Staged Server Stage} {n : Nat} {k : Stage}
    (hk : k.IsWelcomed l.state) (hn : l.stages[n]? = some k) : Welcomed (staging.pool l) n := by
  unfold IsWelcomed at hk
  split at hk
  next root id limit deadline =>
    obtain ⟨result, hresult⟩ := hk
    have htask : (staging.pool l).tasks[n]? =
        some (waiting (.greet root) id limit deadline).task := by
      rw [Interleaving.Staging.tasks_pool, hn]
      rfl
    exact ⟨_, root, id, limit, result, htask, rfl, hresult⟩
  · exact hk.elim

/-- A turn that closes a connection ends it. -/
theorem Stage.isEnded_of_turn {now : Nat} {s s' : Server} {k k' : Stage}
    (hturn : k.turn now s = some (s', k')) (hclosed : s'.closed = true) :
    s.closed = true ∨ s'.IsEnded := by
  cases turn_cases hturn with
  | asks _ _ hsame => exact .inl (hsame.closed ▸ hclosed)
  | refused hsame _ => exact .inl (hsame.closed ▸ hclosed)
  | idles hsame _ => exact .inl (hsame.closed ▸ hclosed)
  | collects _ hsame _ =>
      rw [hsame.closed, Server.collect_closed] at hclosed
      exact .inl hclosed
  | closes _ => exact .inr ⟨rfl, rfl, rfl⟩

/-- An incident that closes a connection ends it. -/
theorem Incident.isEnded_of_change {s : Server} (i : Incident)
    (hclosed : (i.change s).closed = true) : s.closed = true ∨ (i.change s).IsEnded := by
  cases i with
  | message m =>
      rw [change, Server.receive_closed] at hclosed
      exact .inl hclosed
  | finished => exact .inr ⟨rfl, rfl, rfl⟩
  | unwritable => exact .inl hclosed

/-- A connection is ended with the move that closes it, and stays so until a welcomed handshake
takes its turn. -/
theorem isEnded_step {l l' : Staged Server Stage} {move : Move Call Incident}
    (h : l.state.closed = true → l.state.IsEnded) (hstep : staging.Stepped l move l')
    (hmove : ∀ n, move = .turn n → l.state.closed = true → ¬ Welcomed (staging.pool l) n)
    (hclosed : l'.state.closed = true) : l'.state.IsEnded := by
  cases hstep with
  | idle => exact h hclosed
  | start call => exact h hclosed
  | turn hn hturn =>
      rcases Stage.isEnded_of_turn hturn hclosed with hbefore | hafter
      · have hfades := (h hbefore).fades_turn hturn fun hk => hmove _ rfl hbefore (hk.welcomed hn)
        exact hfades.1.isEnded
      · exact hafter
  | pass _ _ => exact h hclosed
  | outside i =>
      rcases i.isEnded_of_change hclosed with hbefore | hafter
      · exact ((h hbefore).fades_incident i).isEnded
      · exact hafter

variable (language : String) (command : ServerCommand) (timeout processId : Nat)

/-- A connection is shut down at every point behind its end exactly as long as no handshake that is
welcomed takes a turn there. -/
theorem shutDown_iff (moves : List (Move Call Incident)) :
    (∀ before, before <+: moves →
        (conversation language command timeout processId before).state.closed = true →
        (conversation language command timeout processId before).state.state = .shutdown) ↔
      ∀ before n, before ++ [.turn n] <+: moves →
        (conversation language command timeout processId before).state.closed = true →
        ¬ Welcomed (conversation language command timeout processId before) n := by
  constructor
  · intro hshut before n hprefix hclosed hwelcomed
    obtain ⟨hstate, hsame⟩ := initialized_of_welcomed hwelcomed
    have hturn : conversation language command timeout processId (before ++ [.turn n]) =
        (conversation language command timeout processId before).turn n :=
      talk.run_append _ before [.turn n]
    have hlater := hshut (before ++ [.turn n]) hprefix (by rw [hturn, hsame, hclosed])
    rw [hturn, hstate] at hlater
    cases hlater
  · intro hcalm
    suffices hended : ∀ before, before <+: moves →
        (stagedConversation language command timeout processId before).state.closed = true →
        (stagedConversation language command timeout processId before).state.IsEnded by
      intro before hbefore hclosed
      rw [conversation_eq] at hclosed ⊢
      exact (hended before hbefore hclosed).state
    -- Every point of the run is reached by a prefix that is calm as well.
    intro before
    induction before using List.reverseRecOn with
    | nil =>
        intro _ hclosed
        cases hclosed
    | append_singleton before move ih =>
        intro hbefore hclosed
        rw [stagedConversation_append] at hclosed ⊢
        refine isEnded_step (ih ((List.prefix_append _ _).trans hbefore))
          (staging.step_cases _ move) ?_ hclosed
        rintro n rfl hwas
        rw [← conversation_eq]
        exact hcalm before n hbefore (by rwa [conversation_eq])

/-- A connection can be initialized behind its end, so that its client takes it for live: the
answer to a handshake comes, the output of the server ends, and then the handshake goes on. -/
theorem not_shutDown_of_closed : ¬ ∀ moves : List (Move Call Incident),
    let s := (conversation "py" default 1000 0 moves).state
    let client : Client := { settings := default, connections := [⟨s, 0⟩], servers := [("py", 0)] }
    s.closed = true → s.state = .shutdown ∧ client.isLive "py" = false := by
  intro h
  have hend := h [.start (.ask (.greet none)), .turn 0,
    .outside (.message (response (.whole 1) .null)), .outside .finished, .turn 0] rfl
  exact absurd hend.1 (by decide)

/-- When no handshake is welcomed at the end of a connection, it stays shut down for ever. -/
theorem shutDown_forever {moves : List (Move Call Incident)}
    (hclosed : (conversation language command timeout processId moves).state.closed = true)
    (hstate : (conversation language command timeout processId moves).state.state = .shutdown)
    (hcalm : ∀ n, ¬ Welcomed (conversation language command timeout processId moves) n)
    (later : List (Move Call Incident)) :
    (conversation language command timeout processId (moves ++ later)).state.state =
      .shutdown := by
  have hbooks := (Sound.conversation language command timeout processId moves).books
  rw [conversation_eq] at hclosed hstate hcalm
  have hended : Ended (stagedConversation language command timeout processId moves) := by
    refine ⟨⟨hclosed, hbooks.closed_empty hclosed, hstate⟩, fun k hk hwelcomed => ?_⟩
    obtain ⟨n, hn⟩ := List.mem_iff_getElem?.mp hk
    exact hcalm n (hwelcomed.welcomed hn)
  rw [conversation_eq, stagedConversation_append]
  exact (hended.run later).isEnded.state

end EditorHost.Rpc
