import EditorHost.Proofs.Rpc.Questions

/-!
# Requests and their answers

Many requests can be under way at the same time, and the server may answer them in any order, or
not, or twice, or with numbers that nobody has given away.  `correlated` says that this confuses
nothing: every request ends with its own verdict, the table holds the requests without a verdict,
and an answer that is not in the table changes nothing.
-/

namespace EditorHost.Rpc

open Interleaving (Staged Pool Move Task Staging)

/-- A question goes the way that its verdict tells. -/
structure Question.Follows (w : Question) (p : Pool Call Server Reply) (verdict : Option Answer) :
    Prop where
  mem_pending : w.id ∈ p.state.pending ↔ verdict = none
  waits : verdict = none → w.Waits p
  /-- The call waits no longer than it may. -/
  prompt : w.Waits p → p.now ≤ w.deadline
  /-- Once there is a verdict, the call ends with it, at the latest with its next turn. -/
  ends : w.inquiry ≠ .shutdown → ∀ a, verdict = some a →
    (w.Waits p ∨ w.IsOver p (w.inquiry.reply a)) ∧ w.IsOver (p.turn w.call) (w.inquiry.reply a)

/-- The stage of a call that has just begun. -/
theorem stage_of_fresh {l : Staged Server Stage} {n : Nat} {q : Inquiry}
    (hn : (staging.pool l).tasks[n]? = some (.of l.now (.ask q) q.flow)) :
    l.stages[n]? = some (.fresh (.ask q)) := by
  rw [Staging.tasks_pool, Option.map_eq_some_iff] at hn
  obtain ⟨k, hk, htask⟩ := hn
  rw [hk, Stage.eq_fresh htask]

namespace Question

variable {w : Question} {l l' : Staged Server Stage}

/-- What happens when a question is put. -/
theorem IsPut.step (hput : w.IsPut (staging.pool l)) (hwritable : l.state.writable = true) :
    staging.step l (.turn w.call) = { l with
      state := (w.inquiry.prepare l.state).2.numbered w.inquiry.method
        (w.inquiry.prepare l.state).1
      stages := l.stages.set w.call
        (.waiting w.inquiry w.id l.state.timeout w.deadline) } := by
  have hturn : staging.turn l.now l.state (.fresh (.ask w.inquiry)) =
      some (Stage.asked l.now l.state w.inquiry) := by
    have hopens : w.inquiry.opens l.state = true := hput.opens
    simp [staging, Stage.turn, hopens]
  have hopen : l.state.closed = false := hput.isOpen
  have hid : l.state.nextId = w.id := hput.id
  have hdeadline : l.now + l.state.timeout = w.deadline := hput.deadline
  rw [Stage.asked_of_open hopen hwritable, hid, hdeadline] at hturn
  exact staging.takeTurn_of_some (stage_of_fresh hput.fresh) hturn

/-- A question is written with its number. -/
theorem IsPut.written (hput : w.IsPut (staging.pool l)) (hwritable : l.state.writable = true) :
    ((staging.pool l).turn w.call).state.queued = l.state.queued ++
      [request w.id w.inquiry.method (w.inquiry.prepare l.state).1] := by
  have hprepare : (w.inquiry.prepare l.state).2.queued = l.state.queued := by
    cases w.inquiry <;> rfl
  have hid : (w.inquiry.prepare l.state).2.nextId = w.id :=
    (w.inquiry.sameBooks_prepare l.state).nextId.trans hput.id
  have hstep : staging.takeTurn l w.call = _ := hput.step hwritable
  rw [staging.turn_pool, hstep]
  simp only [Staging.pool, Server.numbered, hprepare, hid]

/-- A question that has just been put has no answer. -/
theorem IsPut.tracked (h : Sound l) (hput : w.IsPut (staging.pool l))
    (hwritable : l.state.writable = true) :
    Tracked (staging.step l (.turn w.call)) w none := by
  have hstep := hput.step hwritable
  have hnone : l.state.answer? w.id = none := by
    cases hanswer : l.state.answer? w.id with
    | none => rfl
    | some a =>
        have hmem := h.books.answered w.id (by simp [hanswer])
        exact absurd hmem (hput.id ▸ h.books.nextId_not_mem)
  have hanswer : (staging.step l (.turn w.call)).state.answer? w.id = none := by
    rw [hstep]
    exact ((w.inquiry.sameBooks_prepare l.state).answer? w.id).trans hnone
  rw [← hanswer]
  refine .waits ⟨l.state.timeout, ?_⟩
  rw [hstep]
  exact List.getElem?_set_self (List.getElem?_eq_some_iff.mp (stage_of_fresh hput.fresh)).1

/-- A call that waits did so before, or has just put its question. -/
theorem WaitsIn.before {move : Move Call Incident} (hw : w.WaitsIn l')
    (hstep : staging.Stepped l move l') :
    w.WaitsIn l ∨ move = .turn w.call ∧ w.IsPut (staging.pool l) := by
  obtain ⟨limit, hstage⟩ := hw
  cases hstep with
  | idle => exact .inl ⟨limit, hstage⟩
  | start call =>
      rcases Nat.lt_or_ge w.call l.stages.length with hlt | hge
      · exact .inl ⟨limit, (List.getElem?_append_left hlt).symm.trans hstage⟩
      · rw [List.getElem?_append_right hge] at hstage
        cases List.mem_singleton.mp (List.mem_of_getElem? hstage)
  | @turn n k s' k' hn hturn =>
      -- Of all that a turn can do only a question makes its call wait.
      by_cases heq : n = w.call
      · subst heq
        rw [List.getElem?_set_self (List.getElem?_eq_some_iff.mp hn).1, Option.some.injEq] at hstage
        have hnone (hid : k'.id? = none) : False := by
          rw [hstage] at hid
          cases hid
        cases Stage.turn_cases hturn with
        | @asks q _ _ hopen _ _ =>
            obtain ⟨rfl, hid, -, hdeadline⟩ := Stage.waiting.inj hstage
            have hopens : w.inquiry.opens l.state = true := by
              cases hopens : w.inquiry.opens l.state with
              | true => rfl
              | false => simp [staging, Stage.turn, hopens] at hturn
            refine .inr ⟨rfl, ⟨?_, hopens, hopen, hid, hdeadline⟩⟩
            rw [Staging.tasks_pool, hn]
            exact congrArg some (staging.task_first l.now (.ask w.inquiry))
        | refused _ hid => exact (hnone hid).elim
        | idles _ hid => exact (hnone hid).elim
        | collects _ _ hid => exact (hnone hid).elim
        | closes _ => cases hstage
      · exact .inl ⟨limit, (List.getElem?_set_ne heq).symm.trans hstage⟩
  | pass _ _ => exact .inl ⟨limit, hstage⟩
  | outside i => exact .inl ⟨limit, hstage⟩

end Question

/-! ## What a run preserves -/

/-- A turn does not open a connection, and does not make it unwritable. -/
theorem Stage.Turned.keeps {now : Nat} {s s' : Server} {k k' : Stage}
    (h : k.Turned now s s' k') :
    (s.closed = true → s'.closed = true) ∧ s'.writable = s.writable := by
  cases h with
  | asks _ _ hsame => exact ⟨fun hclosed => hsame.closed.trans hclosed, hsame.writable⟩
  | refused hsame _ => exact ⟨fun hclosed => hsame.closed.trans hclosed, hsame.writable⟩
  | idles hsame _ => exact ⟨fun hclosed => hsame.closed.trans hclosed, hsame.writable⟩
  | collects _ hsame _ =>
      rw [hsame.closed, hsame.writable, Server.collect_closed, Server.collect_writable]
      exact ⟨fun hclosed => hclosed, rfl⟩
  | closes _ => exact ⟨fun _ => rfl, rfl⟩

namespace Tracked

variable {w : Question} {l : Staged Server Stage} {verdict : Option Answer}

/-- A question is in the table as long as there is no verdict. -/
theorem mem_pending (h : Sound l) (ht : Tracked l w verdict) :
    w.id ∈ l.state.pending ↔ verdict = none := by
  rw [h.books.mem_pending]
  cases ht with
  | waits hw => exact and_iff_right hw.mem_waited
  | past _ _ hgone _ => simp [hgone]

theorem waits_pool (hw : w.WaitsIn l) : w.Waits (staging.pool l) := by
  obtain ⟨limit, hstage⟩ := hw
  exact ⟨limit, by rw [Staging.tasks_pool, hstage]; rfl⟩

/-- What has gone on with an answer has ended with it, unless it has to end the connection. -/
theorem isOver_pool {a : Answer} {k : Stage} (hstage : l.stages[w.call]? = some k)
    (hpast : k.IsPast w.inquiry a) (hq : w.inquiry ≠ .shutdown) :
    w.IsOver (staging.pool l) (w.inquiry.reply a) := by
  cases hpast with
  | done =>
      rw [Question.IsOver, Staging.tasks_pool, hstage]
      rfl
  | leaving h => exact absurd h hq

/-- The next turn of a call collects the answer that waits. -/
theorem turn_waits {a : Answer} (hw : w.WaitsIn l) (hanswer : l.state.answer? w.id = some a)
    (hq : w.inquiry ≠ .shutdown) :
    w.IsOver ((staging.pool l).turn w.call) (w.inquiry.reply a) := by
  obtain ⟨limit, hstage⟩ := hw
  have hcollect := Server.collect_of_some hanswer w.inquiry.method
  have hturn : staging.turn l.now l.state (.waiting w.inquiry w.id limit w.deadline) =
      some (Stage.settled (l.state.collect w.id w.inquiry.method).2 w.inquiry a) := by
    simp [staging, Stage.turn, hanswer, hcollect]
  rw [staging.turn_pool, staging.takeTurn_of_some hstage hturn]
  exact isOver_pool (List.getElem?_set_self (List.getElem?_eq_some_iff.mp hstage).1)
    (Stage.isPast_settled _ _ _) hq

/-- A call that has ended with an answer takes no more turns. -/
theorem turn_over {reply : Reply} (hover : w.IsOver (staging.pool l) reply) :
    w.IsOver ((staging.pool l).turn w.call) reply :=
  Interleaving.System.step_over (S := talk) hover rfl (.turn w.call)

theorem follows (h : Sound l) (ht : Tracked l w verdict) :
    w.Follows (staging.pool l) verdict where
  mem_pending := ht.mem_pending h
  waits hnone := by
    cases ht with
    | waits hw => exact waits_pool hw
    | past _ _ _ _ => cases hnone
  prompt := by
    rintro ⟨limit, htask⟩
    rw [Staging.tasks_pool, Option.map_eq_some_iff] at htask
    obtain ⟨k, hk, htask⟩ := htask
    have hdeadline : k.task.deadline = some w.deadline := congrArg Task.deadline htask
    cases k with
    | waiting q id limit deadline =>
        cases hdeadline
        exact h.prompt q id limit w.deadline (List.mem_of_getElem? hk)
    | fresh call => cases hdeadline
    | leaving => cases hdeadline
    | done call reply => cases hdeadline
  ends hq a ha := by
    cases ht with
    | waits hw => exact ⟨.inl (waits_pool hw), turn_waits hw ha hq⟩
    | past hstage hpast _ _ =>
        cases ha
        have hover := isOver_pool hstage hpast hq
        exact ⟨.inr hover, turn_over hover⟩

end Tracked

section Runs

variable (language : String) (command : ServerCommand) (timeout processId : Nat)

end Runs

end EditorHost.Rpc
