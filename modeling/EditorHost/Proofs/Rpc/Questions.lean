import Mathlib.Data.List.Induction
import EditorHost.Proofs.Rpc.Bookkeeping

/-!
# What becomes of a question

A question that has got a number is settled by the first move that says something about it: a
message with its number, the end of the connection, or the turn with which its call gives it up.
`Question.verdict` reads off the moves what that move says.

`Tracked` is what the state of the connection has to do with the verdict.  As long as there is none
the call waits and has no answer.  Once there is one, either the answer waits to be collected, or
the call has gone on with it and nobody waits for the number any more.  `Tracked.step` carries this
over every move, and `Tracked.run` over all moves.
-/

namespace EditorHost.Rpc

open Interleaving (Staged Pool Move Task)

/-- A question that a call puts. -/
structure Question where
  /-- The number of the call among all calls. -/
  call : Nat
  inquiry : Inquiry
  id : RequestId
  /-- When the call gives the question up. -/
  deadline : Nat

/-- What a call ends with when its question has an answer. -/
def Inquiry.reply : Inquiry → Answer → Reply
  | request _ _, a => .answered a
  | greet _, a => .greeted (a.map fun _ => ())
  | shutdown, _ => .ended

namespace Question

variable (w : Question)

/-- The next turn of the call puts the question. -/
structure IsPut (p : Pool Call Server Reply) : Prop where
  fresh : p.tasks[w.call]? = some (.of p.now (.ask w.inquiry) w.inquiry.flow)
  opens : w.inquiry.opens p.state = true
  isOpen : p.state.closed = false
  id : p.state.nextId = w.id
  deadline : p.now + p.state.timeout = w.deadline

/-- What a move says about a question that is not settled. -/
def decision (p : Pool Call Server Reply) : Move Call Incident → Option Answer
  | .outside (.message m) => Server.answerOf? w.id m
  | .outside .finished => some (.error (p.state.gone "process exited"))
  | .turn n =>
    if (p.turn n).state.closed then some (.error (p.state.gone "shut down"))
    else if n = w.call ∧ w.deadline ≤ p.now then
      some (.error (.timeout w.inquiry.method p.state.timeout))
    else none
  | .outside .unwritable | .start _ | .pass _ => none

/-- What the first move says that says anything. -/
def verdict (p : Pool Call Server Reply) : List (Move Call Incident) → Option Answer
  | [] => none
  | move :: moves => (w.decision p move).or (verdict (talk.step p move) moves)

/-- The call waits for the answer. -/
def Waits (p : Pool Call Server Reply) : Prop :=
  ∃ limit, p.tasks[w.call]? =
    some ⟨.ask w.inquiry, some w.deadline, w.inquiry.awaiting w.id limit⟩

/-- The call has ended with a reply. -/
def IsOver (p : Pool Call Server Reply) (reply : Reply) : Prop :=
  p.tasks[w.call]? = some ⟨.ask w.inquiry, none, .done reply⟩

end Question

/-! ## The stages of a question -/

/-- A call that has just begun is told from all others by what is left of it. -/
theorem Stage.eq_fresh {k : Stage} {q : Inquiry} {now : Nat}
    (h : k.task = .of now (.ask q) q.flow) : k = .fresh (.ask q) := by
  have hflow : ∃ change next, q.flow = .act change next := by
    cases q <;> exact ⟨_, _, rfl⟩
  obtain ⟨change, next, hflow⟩ := hflow
  have hrest : k.task.rest = .act change next := by
    rw [h, ← hflow]
    rfl
  cases k with
  | fresh call =>
      have hcall : call = .ask q := congrArg Task.call h
      rw [hcall]
  | waiting q id limit deadline => cases hrest
  | leaving => cases hrest
  | done call reply => cases hrest

/-- The call has gone on with the answer to its question. -/
inductive Stage.IsPast (q : Inquiry) (a : Answer) : Stage → Prop
  | done : IsPast q a (.done (.ask q) (q.reply a))
  | leaving (h : q = .shutdown) : IsPast q a .leaving

theorem Stage.isPast_settled (s : Server) (q : Inquiry) (a : Answer) :
    (settled s q a).2.IsPast q a := by
  cases q with
  | request m params => exact .done
  | greet root => cases a <;> exact .done
  | shutdown => exact .leaving rfl

/-- Nothing but a shutdown has anything left to do, and it ends the connection. -/
theorem Stage.IsPast.turn {q : Inquiry} {a : Answer} {k k' : Stage} {now : Nat} {s s' : Server}
    (h : k.IsPast q a) (hturn : k.turn now s = some (s', k')) : k'.IsPast q a := by
  cases h with
  | done => cases hturn
  | leaving h =>
      cases hturn
      subst h
      exact .done

/-- The call waits for the answer, as a stage. -/
def Question.WaitsIn (w : Question) (l : Staged Server Stage) : Prop :=
  ∃ limit, l.stages[w.call]? = some (.waiting w.inquiry w.id limit w.deadline)

/-- What the state of the connection has to do with the verdict about a question. -/
inductive Tracked (l : Staged Server Stage) (w : Question) : Option Answer → Prop
  /-- The verdict waits to be collected, if there is one. -/
  | waits (hstage : w.WaitsIn l) : Tracked l w (l.state.answer? w.id)
  /-- The call has gone on with the verdict, and its number is not used again. -/
  | past {a k} (hstage : l.stages[w.call]? = some k) (hpast : k.IsPast w.inquiry a)
      (hgone : w.id ∉ waited l.stages) (hknown : w.id < l.state.nextId) : Tracked l w (some a)

/-! ## Numbers that are waited for -/

theorem mem_waited {stages : List Stage} {id : RequestId} :
    id ∈ waited stages ↔ ∃ (n : Nat) (k : Stage), stages[n]? = some k ∧ k.id? = some id := by
  rw [waited, List.mem_filterMap]
  constructor
  · rintro ⟨k, hk, hid⟩
    obtain ⟨n, hn⟩ := List.mem_iff_getElem?.mp hk
    exact ⟨n, k, hn, hid⟩
  · rintro ⟨n, k, hn, hid⟩
    exact ⟨k, List.mem_of_getElem? hn, hid⟩

/-- A number is waited for at one place only. -/
theorem Sound.unique {l : Staged Server Stage} (h : Sound l) {n m : Nat} {k k' : Stage}
    {id : RequestId} (hn : l.stages[n]? = some k) (hm : l.stages[m]? = some k')
    (hk : k.id? = some id) (hk' : k'.id? = some id) : n = m := by
  have hpair := List.pairwise_iff_getElem.mp (List.pairwise_filterMap.mp h.books.unique)
  obtain ⟨hnlt, hnget⟩ := List.getElem?_eq_some_iff.mp hn
  obtain ⟨hmlt, hmget⟩ := List.getElem?_eq_some_iff.mp hm
  rcases Nat.lt_trichotomy n m with hlt | heq | hgt
  · exact absurd rfl (hpair n m hnlt hmlt hlt id (hnget ▸ hk) id (hmget ▸ hk'))
  · exact heq
  · exact absurd rfl (hpair m n hmlt hnlt hgt id (hmget ▸ hk') id (hnget ▸ hk))

/-- Nobody waits for a number when the call that waited for it has gone on. -/
theorem Sound.not_mem_waited_set {l : Staged Server Stage} (h : Sound l) {n : Nat} {k k' : Stage}
    {id : RequestId} (hn : l.stages[n]? = some k) (hk : k.id? = some id) (hk' : k'.id? = none) :
    id ∉ waited (l.stages.set n k') := by
  obtain ⟨others, hbefore, hafter⟩ := waited_set hn
  have hnodup := hbefore.nodup_iff.mp h.books.unique
  rw [(hafter k').mem_iff, hk']
  rw [hk] at hnodup
  exact (List.nodup_cons.mp hnodup).1

/-- A turn gives away no number but the next. -/
theorem Stage.Turned.numbers {now : Nat} {s s' : Server} {k k' : Stage}
    (h : k.Turned now s s' k') :
    s.nextId ≤ s'.nextId ∧ ∀ id, k'.id? = some id → id = s.nextId := by
  have hnone (hid : k'.id? = none) (id : RequestId) (hsome : k'.id? = some id) :
      id = s.nextId := by
    rw [hid] at hsome
    cases hsome
  cases h with
  | asks _ _ hsame =>
      refine ⟨hsame.nextId ▸ Nat.le_succ _, fun id hid => ?_⟩
      cases hid
      rfl
  | refused hsame hid => exact ⟨hsame.nextId ▸ Nat.le_succ _, hnone hid⟩
  | idles hsame hid => exact ⟨hsame.nextId ▸ Nat.le_refl _, hnone hid⟩
  | collects _ hsame hid =>
      have hnext := hsame.nextId.trans (Server.collect_nextId _ _ _)
      exact ⟨Nat.le_of_eq hnext.symm, hnone hid⟩
  | closes _ =>
      refine ⟨Nat.le_refl _, fun id hid => ?_⟩
      cases hid

theorem Incident.nextId_change (i : Incident) (s : Server) : (i.change s).nextId = s.nextId := by
  cases i with
  | message m => exact s.receive_nextId m
  | finished => rfl
  | unwritable => rfl

/-! ## Every move -/

namespace Question

variable {w : Question} {l l' : Staged Server Stage}

theorem WaitsIn.mem_waited (hw : w.WaitsIn l) : w.id ∈ waited l.stages := by
  obtain ⟨limit, hstage⟩ := hw
  exact EditorHost.Rpc.mem_waited.mpr ⟨w.call, _, hstage, rfl⟩

/-- What waits for a missing answer is in the table. -/
theorem WaitsIn.or_pending (h : Sound l) (hw : w.WaitsIn l) (a : Option Answer) :
    (l.state.answer? w.id).or (if w.id ∈ l.state.pending then a else none) =
      (l.state.answer? w.id).or a := by
  cases hanswer : l.state.answer? w.id with
  | some _ => rfl
  | none => rw [if_pos ((h.books.mem_pending w.id).mpr ⟨hw.mem_waited, hanswer⟩)]

/-- Behind the end of a connection every answer that is waited for has come. -/
theorem WaitsIn.or_closed (h : Sound l) (hw : w.WaitsIn l) (a b : Option Answer) :
    (l.state.answer? w.id).or (if l.state.closed then a else b) = (l.state.answer? w.id).or b := by
  rw [← hw.or_pending h, ← hw.or_pending h b]
  cases hclosed : l.state.closed with
  | false => rfl
  | true => simp [h.books.closed_empty hclosed]

/-- What an incident says about a question is the answer that comes with it. -/
theorem WaitsIn.incident (h : Sound l) (hw : w.WaitsIn l) (i : Incident) :
    (i.change l.state).answer? w.id =
      (l.state.answer? w.id).or (w.decision (staging.pool l) (.outside i)) := by
  rw [← hw.or_pending h]
  cases i with
  | message m => exact l.state.answer?_receive m w.id
  | finished => exact l.state.answer?_close "process exited" w.id
  | unwritable => simp [Incident.change, decision, Server.answer?]

theorem decision_turn (w : Question) (l : Staged Server Stage) (n : Nat) :
    w.decision (staging.pool l) (.turn n) =
      if (staging.step l (.turn n)).state.closed then some (.error (l.state.gone "shut down"))
      else if n = w.call ∧ w.deadline ≤ l.now then
        some (.error (.timeout w.inquiry.method l.state.timeout))
      else none := by
  simp only [decision, staging.turn_pool]
  rfl

/-- What the turn of another call says is what it does by ending the connection. -/
theorem WaitsIn.others (h : Sound l) (hw : w.WaitsIn l) {n : Nat} (hne : n ≠ w.call)
    (hstep : staging.Stepped l (.turn n) l') :
    w.WaitsIn l' ∧ l'.state.answer? w.id = (l.state.answer? w.id).or
      (if l'.state.closed then some (.error (l.state.gone "shut down")) else none) := by
  have hsame {s' : Server} (hclosed : s'.closed = l.state.closed)
      (hanswer : s'.answer? w.id = l.state.answer? w.id) :
      s'.answer? w.id = (l.state.answer? w.id).or
        (if s'.closed then some (.error (l.state.gone "shut down")) else none) := by
    rw [hclosed, hw.or_closed h, hanswer, Option.or_none]
  obtain ⟨limit, hstage⟩ := hw
  cases hstep with
  | idle => exact ⟨⟨limit, hstage⟩, hsame rfl rfl⟩
  | turn hn hturn =>
      refine ⟨⟨limit, (List.getElem?_set_ne hne).trans hstage⟩, ?_⟩
      cases Stage.turn_cases hturn with
      | asks _ _ hbooks => exact hsame hbooks.closed (hbooks.answer? _)
      | refused hbooks _ => exact hsame hbooks.closed (hbooks.answer? _)
      | idles hbooks _ => exact hsame hbooks.closed (hbooks.answer? _)
      | collects _ hbooks _ =>
          have hid := fun heq => hne (h.unique hn hstage rfl (congrArg some heq))
          refine hsame (hbooks.closed.trans (Server.collect_closed _ _ _))
            ((hbooks.answer? _).trans ?_)
          rw [Server.answer?_collect, if_neg hid]
      | closes _ =>
          have hclose := l.state.answer?_close "shut down" w.id
          rw [WaitsIn.or_pending h ⟨limit, hstage⟩] at hclose
          exact hclose

/-- What the own turn of a call says is that it gives its question up, if it is time. -/
theorem WaitsIn.giveUp (h : Sound l) (hw : w.WaitsIn l)
    (hclosed : (staging.step l (.turn w.call)).state.closed = l.state.closed) :
    (l.state.answer? w.id).or (w.decision (staging.pool l) (.turn w.call)) =
      (l.state.answer? w.id).or (if w.deadline ≤ l.now then
        some (.error (.timeout w.inquiry.method l.state.timeout)) else none) := by
  rw [decision_turn, hclosed, hw.or_closed h]
  simp

/-- With its own turn a call goes on with the answer to its question, or gives it up. -/
theorem WaitsIn.own (h : Sound l) (hw : w.WaitsIn l) :
    Tracked (staging.step l (.turn w.call)) w
      ((l.state.answer? w.id).or (w.decision (staging.pool l) (.turn w.call))) := by
  have ⟨limit, hstage⟩ := hw
  have hturn : staging.turn l.now l.state (.waiting w.inquiry w.id limit w.deadline) =
      if (l.state.answer? w.id).isSome ∨ w.deadline ≤ l.now then
        some (Stage.settled (l.state.collect w.id w.inquiry.method).2 w.inquiry
          (l.state.collect w.id w.inquiry.method).1)
      else none := by
    simp [staging, Stage.turn]
  split at hturn
  -- The answer has come or it is time, so the call goes on.
  next hready =>
    rcases hcollect : l.state.collect w.id w.inquiry.method with ⟨a, s⟩
    rcases hsettled : Stage.settled s w.inquiry a with ⟨s', k'⟩
    obtain ⟨hbooks, hid⟩ := Stage.sameBooks_settled s w.inquiry a
    have hpast := Stage.isPast_settled s w.inquiry a
    rw [hsettled] at hbooks hid hpast
    simp only [hcollect, hsettled] at hturn
    have hstep : staging.step l (.turn w.call) = _ := staging.takeTurn_of_some hstage hturn
    have hclosed := l.state.collect_closed w.id w.inquiry.method
    have hnext := l.state.collect_nextId w.id w.inquiry.method
    rw [hcollect] at hclosed hnext
    have hverdict : (l.state.answer? w.id).or (if w.deadline ≤ l.now then
        some (.error (.timeout w.inquiry.method l.state.timeout)) else none) = some a := by
      cases hanswer : l.state.answer? w.id with
      | some b =>
          have hb := Server.collect_of_some hanswer w.inquiry.method
          rw [hcollect] at hb
          rw [← hb, Option.some_or]
      | none =>
          have hlate : w.deadline ≤ l.now := by simpa [hanswer] using hready
          rw [Server.collect_of_none hanswer] at hcollect
          cases hcollect
          rw [if_pos hlate, Option.none_or]
    rw [hw.giveUp h (hstep ▸ hbooks.closed.trans hclosed), hverdict, hstep]
    refine .past (List.getElem?_set_self (List.getElem?_eq_some_iff.mp hstage).1) hpast
      (h.not_mem_waited_set hstage rfl hid) ?_
    rw [hbooks.nextId, hnext]
    exact h.books.known w.id hw.mem_waited
  next hready =>
    have hstep : staging.step l (.turn w.call) = l := staging.takeTurn_of_none hstage hturn
    rw [hw.giveUp h (by rw [hstep]), hstep, if_neg fun hlate => hready (.inr hlate), Option.or_none]
    exact .waits hw

end Question

namespace Tracked

variable {w : Question} {l l' : Staged Server Stage}

/-- A call that has gone on with its answer never waits for that number again. -/
theorem past_step {a : Answer} {k : Stage} (hstage : l.stages[w.call]? = some k)
    (hpast : k.IsPast w.inquiry a) (hgone : w.id ∉ waited l.stages) (hknown : w.id < l.state.nextId)
    {move : Move Call Incident} (hstep : staging.Stepped l move l') : Tracked l' w (some a) := by
  cases hstep with
  | idle => exact .past hstage hpast hgone hknown
  | start call =>
      have hlt := (List.getElem?_eq_some_iff.mp hstage).1
      refine .past ((List.getElem?_append_left hlt).trans hstage) hpast ?_ hknown
      rw [waited_append]
      exact fun hmem => (List.mem_append.mp hmem).elim hgone List.not_mem_nil
  | @turn n other s' other' hn hturn =>
      obtain ⟨hnext, hnew⟩ := (Stage.turn_cases hturn).numbers
      -- Whatever number a turn gives away, it is greater than all that are known.
      have hgone' : w.id ∉ waited (l.stages.set n other') := by
        rw [mem_waited]
        rintro ⟨m, k', hm, hid⟩
        rcases List.mem_or_eq_of_mem_set (List.mem_of_getElem? hm) with hmem | rfl
        · obtain ⟨m, hm⟩ := List.mem_iff_getElem?.mp hmem
          exact hgone (mem_waited.mpr ⟨m, k', hm, hid⟩)
        · exact Nat.ne_of_lt hknown (hnew _ hid)
      by_cases heq : n = w.call
      · subst heq
        rw [hstage, Option.some.injEq] at hn
        subst hn
        exact .past (List.getElem?_set_self (List.getElem?_eq_some_iff.mp hstage).1)
          (hpast.turn hturn) hgone' (Nat.lt_of_lt_of_le hknown hnext)
      · exact .past ((List.getElem?_set_ne heq).trans hstage) hpast hgone'
          (Nat.lt_of_lt_of_le hknown hnext)
  | pass _ _ => exact .past hstage hpast hgone hknown
  | outside i => exact .past hstage hpast hgone (i.nextId_change l.state ▸ hknown)

/-- A move that says something settles the question, and nothing else does. -/
theorem step {verdict : Option Answer} (h : Sound l) (ht : Tracked l w verdict)
    (move : Move Call Incident) :
    Tracked (staging.step l move) w (verdict.or (w.decision (staging.pool l) move)) := by
  cases ht with
  | past hstage hpast hgone hknown =>
      exact past_step hstage hpast hgone hknown (staging.step_cases l move)
  | waits hw =>
      have ⟨limit, hstage⟩ := hw
      cases move with
      | start call =>
          have hlt := (List.getElem?_eq_some_iff.mp hstage).1
          rw [Question.decision, Option.or_none]
          exact .waits ⟨limit, (List.getElem?_append_left hlt).trans hstage⟩
      | turn n =>
          by_cases hne : n = w.call
          · subst hne
            exact hw.own h
          · obtain ⟨hw', hanswer⟩ := hw.others h hne (staging.step_cases l (.turn n))
            have hdecision : w.decision (staging.pool l) (.turn n) =
                if (staging.step l (.turn n)).state.closed then
                  some (.error (l.state.gone "shut down")) else none := by
              rw [Question.decision_turn]
              simp [hne]
            rw [hdecision, ← hanswer]
            exact .waits hw'
      | pass time =>
          have hstep := staging.step_cases l (.pass time)
          have hsame : (staging.step l (.pass time)).state = l.state ∧
              (staging.step l (.pass time)).stages = l.stages := by
            generalize staging.step l (.pass time) = l' at hstep
            cases hstep <;> exact ⟨rfl, rfl⟩
          rw [Question.decision, Option.or_none, ← hsame.1]
          exact .waits ⟨limit, hsame.2 ▸ hstage⟩
      | outside i =>
          rw [← hw.incident h i]
          exact .waits ⟨limit, hstage⟩

/-- After all moves the state of the connection agrees with the verdict. -/
theorem run {verdict : Option Answer} (h : Sound l) (ht : Tracked l w verdict)
    (moves : List (Move Call Incident)) :
    Tracked (staging.run l moves) w (verdict.or (w.verdict (staging.pool l) moves)) := by
  induction moves generalizing l verdict with
  | nil => simpa [Question.verdict] using ht
  | cons move moves ih =>
      have hrest := ih (h.step (staging.step_cases l move)) (ht.step h move)
      rw [Question.verdict, staging.step_pool, ← Option.or_assoc]
      exact hrest

end Tracked

end EditorHost.Rpc
