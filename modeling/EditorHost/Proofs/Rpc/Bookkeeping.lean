import EditorHost.Proofs.Rpc.Conversation
import EditorHost.Proofs.Rpc.Messages
import EditorHost.Proofs.Rpc.Requests

/-!
# Who waits for what

Every number that a connection has given away belongs to one call, until that call has collected the
answer.  As long as the call waits, its request is in the table or its answer has come, and not
both.

`turn_cases` says once what a turn does to the table: it puts a question, or does nothing to it, or
collects an answer, or ends the connection.  From it and from what messages do follows `Sound.run`:
the books of a connection are in order, whatever was called on it and whatever happened.
-/

namespace EditorHost.Rpc

open Interleaving (Staged Move)

/-! ## What a turn does to the table -/

/-- Two states of a connection with the same books. -/
structure Server.SameBooks (s t : Server) : Prop where
  language : t.language = s.language
  timeout : t.timeout = s.timeout
  closed : t.closed = s.closed
  writable : t.writable = s.writable
  nextId : t.nextId = s.nextId
  pending : t.pending = s.pending
  answers : t.answers = s.answers
  wire : wireIds t.queued = wireIds s.queued

/-- The number that a call waits for. -/
def Stage.id? : Stage → Option RequestId
  | waiting _ id _ _ => some id
  | _ => none

/-- What a turn can do. -/
inductive Stage.Turned (now : Nat) (s : Server) : Stage → Server → Stage → Prop
  /-- It puts a question. -/
  | asks {q params s'} (hopen : s.closed = false) (hwritable : s.writable = true)
      (hsame : (s.numbered q.method params).SameBooks s') :
      Turned now s (fresh (.ask q)) s' (waiting q s.nextId s.timeout (now + s.timeout))
  /-- Its question is refused. -/
  | refused {q s' k'} (hsame : s.skipped.SameBooks s') (hid : k'.id? = none) :
      Turned now s (fresh (.ask q)) s' k'
  /-- It has no question. -/
  | idles {q s' k'} (hsame : s.SameBooks s') (hid : k'.id? = none) :
      Turned now s (fresh (.ask q)) s' k'
  /-- It collects its answer, or gives it up. -/
  | collects {q id limit deadline s' k'} (hready : (s.answer? id).isSome ∨ deadline ≤ now)
      (hsame : (s.collect id q.method).2.SameBooks s') (hid : k'.id? = none) :
      Turned now s (waiting q id limit deadline) s' k'
  /-- It ends the connection. -/
  | closes {k call reply} (hid : k.id? = none) : Turned now s k s.killed (done call reply)

namespace Server.SameBooks

variable {s t : Server}

theorem refl (s : Server) : s.SameBooks s := ⟨rfl, rfl, rfl, rfl, rfl, rfl, rfl, rfl⟩

theorem trans {u : Server} (h : s.SameBooks t) (h' : t.SameBooks u) : s.SameBooks u :=
  ⟨h'.language.trans h.language, h'.timeout.trans h.timeout, h'.closed.trans h.closed,
    h'.writable.trans h.writable, h'.nextId.trans h.nextId, h'.pending.trans h.pending,
    h'.answers.trans h.answers, h'.wire.trans h.wire⟩

theorem skipped (h : s.SameBooks t) : s.skipped.SameBooks t.skipped :=
  ⟨h.language, h.timeout, h.closed, h.writable, congrArg (· + 1) h.nextId, h.pending, h.answers,
    h.wire⟩

theorem numbered (h : s.SameBooks t) (method : String) (params : Json) :
    (s.numbered method params).SameBooks (t.numbered method params) := by
  refine ⟨h.language, h.timeout, h.closed, h.writable, congrArg (· + 1) h.nextId, ?_, h.answers, ?_⟩
  · simp [Server.numbered, h.pending, h.nextId]
  · simp [Server.numbered, h.wire, h.nextId]

theorem answer? (h : s.SameBooks t) (id : RequestId) : t.answer? id = s.answer? id :=
  answer?_congr h.answers id

end Server.SameBooks

/-- A notification is not in the books. -/
theorem Server.sameBooks_notify (s : Server) (method : String) (params : Json) :
    s.SameBooks (s.notify method params).2 := by
  rw [notify_snd]
  refine ⟨rfl, rfl, rfl, rfl, rfl, rfl, rfl, ?_⟩
  rw [wireIds_append]
  split <;> simp

/-- What an inquiry does with its answer is not in the books. -/
theorem Stage.sameBooks_settled (s : Server) (q : Inquiry) (a : Answer) :
    s.SameBooks (settled s q a).1 ∧ (settled s q a).2.id? = none := by
  cases q with
  | request m params => exact ⟨.refl s, rfl⟩
  | greet root =>
      cases a with
      | error fault => exact ⟨⟨rfl, rfl, rfl, rfl, rfl, rfl, rfl, rfl⟩, rfl⟩
      | ok result =>
          refine ⟨?_, rfl⟩
          have hstate : s.SameBooks { s with
              capabilities := some (.ofOption (result.get? "capabilities"))
              state := .initialized } := ⟨rfl, rfl, rfl, rfl, rfl, rfl, rfl, rfl⟩
          exact hstate.trans (Server.sameBooks_notify _ _ _)
  | shutdown => exact ⟨s.sameBooks_notify _ _, rfl⟩

/-- What an inquiry prepares is not in the books. -/
theorem Inquiry.sameBooks_prepare (q : Inquiry) (s : Server) : s.SameBooks (q.prepare s).2 := by
  cases q <;> exact ⟨rfl, rfl, rfl, rfl, rfl, rfl, rfl, rfl⟩

namespace Stage

/-- On an open connection a question gets the next number, and its call waits. -/
theorem asked_of_open {s : Server} (hopen : s.closed = false) (hwritable : s.writable = true)
    (now : Nat) (q : Inquiry) :
    asked now s q = ((q.prepare s).2.numbered q.method (q.prepare s).1,
      waiting q s.nextId s.timeout (now + s.timeout)) := by
  have hprepare := q.sameBooks_prepare s
  have hissue := Server.issue_of_open (hprepare.closed.trans hopen)
    (hprepare.writable.trans hwritable) q.method (q.prepare s).1
  rw [asked, hissue, issued, hprepare.nextId]
  exact congrArg (fun limit => (_, waiting q s.nextId limit (now + limit))) hprepare.timeout

theorem asked_of_refused {now : Nat} {s : Server} {q : Inquiry} {fault : Fault}
    (hissue : (q.prepare s).2.issue q.method (q.prepare s).1 =
      (.error fault, (q.prepare s).2.skipped)) :
    asked now s q = settled (q.prepare s).2.skipped q (.error fault) := by
  rw [asked, hissue]
  rfl

/-- Questions get a number on an open connection only. -/
theorem turned_asked (now : Nat) (s : Server) (q : Inquiry) :
    Turned now s (fresh (.ask q)) (asked now s q).1 (asked now s q).2 := by
  have hprepare := q.sameBooks_prepare s
  have hrefused (fault : Fault)
      (hissue : (q.prepare s).2.issue q.method (q.prepare s).1 =
        (.error fault, (q.prepare s).2.skipped)) :
      Turned now s (fresh (.ask q)) (asked now s q).1 (asked now s q).2 := by
    obtain ⟨hsame, hid⟩ := sameBooks_settled (q.prepare s).2.skipped q (.error fault)
    rw [asked_of_refused hissue]
    exact .refused (hprepare.skipped.trans hsame) hid
  cases hclosed : s.closed with
  | true =>
      exact hrefused _ (Server.issue_of_closed (hprepare.closed.trans hclosed) _ _)
  | false =>
      cases hwritable : s.writable with
      | false =>
          exact hrefused _ (Server.issue_of_unwritable (hprepare.closed.trans hclosed)
            (hprepare.writable.trans hwritable) _ _)
      | true =>
          rw [asked_of_open hclosed hwritable]
          exact .asks hclosed hwritable (hprepare.numbered _ _)

/-- Every turn does one of five things. -/
theorem turn_cases {now : Nat} {s s' : Server} {k k' : Stage}
    (hturn : k.turn now s = some (s', k')) : Turned now s k s' k' := by
  cases k with
  | fresh call =>
      cases call with
      | ask q =>
          rw [turn, Option.some.injEq] at hturn
          by_cases hopens : q.opens s
          · rw [if_pos hopens] at hturn
            have hasked := turned_asked now s q
            rwa [hturn] at hasked
          · rw [if_neg hopens] at hturn
            cases hturn
            exact .idles (.refl s) rfl
      | kill =>
          cases hturn
          exact .closes rfl
  | waiting q id limit deadline =>
      rw [turn] at hturn
      split at hturn
      next hready =>
        rw [Option.some.injEq] at hturn
        obtain ⟨hsame, hid⟩ :=
          sameBooks_settled (s.collect id q.method).2 q (s.collect id q.method).1
        rw [hturn] at hsame hid
        exact .collects (by simpa using hready) hsame hid
      · cases hturn
  | leaving =>
      cases hturn
      exact .closes rfl
  | done call reply => cases hturn

end Stage

/-! ## Books in order -/

/-- The books of a connection are in order, when calls wait for the given numbers. -/
structure Server.Books (s : Server) (waited : List RequestId) : Prop where
  unique : waited.Nodup
  known : ∀ id ∈ waited, id < s.nextId
  pending_nodup : s.pending.Nodup
  mem_pending : ∀ id, id ∈ s.pending ↔ id ∈ waited ∧ s.answer? id = none
  answered : ∀ id, s.answer? id ≠ none → id ∈ waited
  closed_empty : s.closed = true → s.pending = []
  increasing : (wireIds s.queued).Pairwise (· < ·)
  wired : ∀ id ∈ wireIds s.queued, id < s.nextId

namespace Server.Books

variable {s t : Server} {waited : List RequestId}

theorem congr (h : s.Books waited) (hsame : s.SameBooks t) : t.Books waited where
  unique := h.unique
  known := by simpa [hsame.nextId] using h.known
  pending_nodup := by simpa [hsame.pending] using h.pending_nodup
  mem_pending := by simpa [hsame.pending, hsame.answer?] using h.mem_pending
  answered := by simpa [hsame.answer?] using h.answered
  closed_empty := by simpa [hsame.closed, hsame.pending] using h.closed_empty
  increasing := by simpa [hsame.wire] using h.increasing
  wired := by simpa [hsame.wire, hsame.nextId] using h.wired

theorem perm {other : List RequestId} (h : s.Books waited) (hperm : waited.Perm other) :
    s.Books other where
  unique := hperm.nodup_iff.mp h.unique
  known id hid := h.known id (hperm.mem_iff.mpr hid)
  pending_nodup := h.pending_nodup
  mem_pending id := by rw [h.mem_pending, hperm.mem_iff]
  answered id hid := hperm.mem_iff.mp (h.answered id hid)
  closed_empty := h.closed_empty
  increasing := h.increasing
  wired := h.wired

theorem skipped (h : s.Books waited) : s.skipped.Books waited where
  unique := h.unique
  known id hid := Nat.lt_succ_of_lt (h.known id hid)
  pending_nodup := h.pending_nodup
  mem_pending := h.mem_pending
  answered := h.answered
  closed_empty := h.closed_empty
  increasing := h.increasing
  wired id hid := Nat.lt_succ_of_lt (h.wired id hid)

theorem nextId_not_mem (h : s.Books waited) : s.nextId ∉ waited :=
  fun hmem => Nat.lt_irrefl _ (h.known _ hmem)

/-- A new question is waited for under a number that nobody has. -/
theorem numbered (h : s.Books waited) (hopen : s.closed = false) (method : String)
    (params : Json) : (s.numbered method params).Books (s.nextId :: waited) where
  unique := List.nodup_cons.mpr ⟨h.nextId_not_mem, h.unique⟩
  known id hid := by
    rcases List.mem_cons.mp hid with rfl | hid
    · exact Nat.lt_succ_self _
    · exact Nat.lt_succ_of_lt (h.known id hid)
  pending_nodup := by
    have hnew : s.nextId ∉ s.pending := fun hmem =>
      h.nextId_not_mem ((h.mem_pending _).mp hmem).1
    rw [Server.numbered, List.nodup_append]
    refine ⟨h.pending_nodup, by simp, ?_⟩
    rintro a ha b hb rfl
    exact hnew (List.mem_singleton.mp hb ▸ ha)
  mem_pending id := by
    have hanswer : (s.numbered method params).answer? id = s.answer? id := rfl
    -- Nobody has waited for the new number, so it has no answer yet.
    have hnew : s.answer? s.nextId = none := by
      cases hsome : s.answer? s.nextId with
      | none => rfl
      | some a => exact absurd (h.answered _ (by simp [hsome])) h.nextId_not_mem
    have hpending : id ∈ (s.numbered method params).pending ↔ id ∈ s.pending ∨ id = s.nextId := by
      simp [Server.numbered]
    rw [hanswer, hpending, h.mem_pending, List.mem_cons]
    constructor
    · rintro (⟨hmem, hnone⟩ | rfl)
      · exact ⟨.inr hmem, hnone⟩
      · exact ⟨.inl rfl, hnew⟩
    · rintro ⟨rfl | hmem, hnone⟩
      · exact .inr rfl
      · exact .inl ⟨hmem, hnone⟩
  answered id hid := List.mem_cons_of_mem _ (h.answered id hid)
  closed_empty hclosed := by
    rw [Server.numbered, hopen] at hclosed
    cases hclosed
  increasing := by
    simp only [Server.numbered, wireIds_append, wireIds_request]
    rw [List.pairwise_append]
    refine ⟨h.increasing, List.pairwise_singleton _ _, fun a ha b hb => ?_⟩
    rw [List.mem_singleton.mp hb]
    exact h.wired a ha
  wired id hid := by
    simp only [Server.numbered, wireIds_append, wireIds_request, List.mem_append,
      List.mem_singleton] at hid
    rcases hid with hid | rfl
    · exact Nat.lt_succ_of_lt (h.wired id hid)
    · exact Nat.lt_succ_self _

/-- A call that collects its answer, or gives it up, is out of the books. -/
theorem collect {id : RequestId} (h : s.Books (id :: waited)) (method : String) :
    (s.collect id method).2.Books waited := by
  have hid : id ∉ waited := (List.nodup_cons.mp h.unique).1
  have hpending : (s.collect id method).2.pending = s.pending.erase id := by
    cases hanswer : s.answer? id with
    | none => rw [collect_of_none hanswer]
    | some a =>
        have hnot : id ∉ s.pending := fun hmem => by
          simpa [hanswer] using ((h.mem_pending id).mp hmem).2
        simp [Server.collect, hanswer, List.erase_of_not_mem hnot]
  refine ⟨(List.nodup_cons.mp h.unique).2, ?_, ?_, ?_, ?_, ?_, ?_, ?_⟩
  · rw [collect_nextId]
    exact fun other hother => h.known other (List.mem_cons_of_mem _ hother)
  · exact hpending ▸ h.pending_nodup.erase id
  · intro other
    rw [hpending, h.pending_nodup.mem_erase_iff, h.mem_pending, answer?_collect, List.mem_cons]
    by_cases heq : other = id
    · simp [heq, hid]
    · simp [heq]
  · intro other hother
    rw [answer?_collect] at hother
    split at hother
    · exact absurd rfl hother
    next hne => exact (List.mem_cons.mp (h.answered other hother)).resolve_left hne
  · intro hclose
    rw [hpending, h.closed_empty (by rwa [collect_closed] at hclose)]
    rfl
  · rw [collect_queued]
    exact h.increasing
  · rw [collect_queued, collect_nextId]
    exact h.wired

/-- An answer that settles a request waits to be collected. -/
theorem settle (h : s.Books waited) {id : RequestId} (hid : id ∈ s.pending) (a : Answer) :
    (s.settle id a).Books waited where
  unique := h.unique
  known := h.known
  pending_nodup := h.pending_nodup.erase id
  mem_pending other := by
    rw [answer?_settle, Server.settle, h.pending_nodup.mem_erase_iff, h.mem_pending]
    by_cases heq : id = other
    · simp [heq]
    · simp [heq, Ne.symm heq]
  answered other hother := by
    rw [answer?_settle] at hother
    by_cases heq : id = other
    · exact heq ▸ ((h.mem_pending id).mp hid).1
    · exact h.answered other (by simpa [heq] using hother)
  closed_empty hclosed := by
    have hpending : s.pending = [] := h.closed_empty hclosed
    simp [Server.settle, hpending]
  increasing := h.increasing
  wired := h.wired

/-- With the end of the connection every request that is waited for has an answer. -/
theorem close (h : s.Books waited) (reason : String) : (s.close reason).Books waited where
  unique := h.unique
  known := h.known
  pending_nodup := List.nodup_nil
  mem_pending id := by
    rw [answer?_close]
    refine ⟨fun hid => absurd hid List.not_mem_nil, fun ⟨hid, hnone⟩ => ?_⟩
    rw [Option.or_eq_none_iff] at hnone
    have hmem : id ∈ s.pending := (h.mem_pending id).mpr ⟨hid, hnone.1⟩
    simp [hmem] at hnone
  answered id hid := by
    rw [answer?_close] at hid
    by_cases hmem : id ∈ s.pending
    · exact ((h.mem_pending id).mp hmem).1
    · exact h.answered id (by simpa [hmem] using hid)
  closed_empty _ := rfl
  increasing := h.increasing
  wired := h.wired

theorem killed (h : s.Books waited) : s.killed.Books waited :=
  (h.close "shut down").congr ⟨rfl, rfl, rfl, rfl, rfl, rfl, rfl, rfl⟩

theorem incident (h : s.Books waited) (i : Incident) : (i.change s).Books waited := by
  cases i with
  | message m =>
      simp only [Incident.change, Server.receive]
      split
      next id result _ =>
        by_cases hid : ∃ n ∈ s.pending, (n : Int) = id
        · obtain ⟨n, hn, rfl⟩ := hid
          rw [respond_of_mem hn]
          exact h.settle hn _
        · rw [respond_of_not_mem fun n hn heq => hid ⟨n, hn, heq⟩]
          exact h
      · refine h.congr ?_
        rw [queue_snd]
        refine ⟨rfl, rfl, rfl, rfl, rfl, rfl, rfl, ?_⟩
        rw [wireIds_append]
        split <;> simp
      · exact h
      · exact h
  | finished => exact (h.close "process exited").congr ⟨rfl, rfl, rfl, rfl, rfl, rfl, rfl, rfl⟩
  | unwritable => exact ⟨h.unique, h.known, h.pending_nodup, h.mem_pending, h.answered,
      h.closed_empty, h.increasing, h.wired⟩

end Server.Books

/-! ## Every run keeps the books in order -/

/-- The numbers that calls wait for. -/
def waited (stages : List Stage) : List RequestId := stages.filterMap Stage.id?

theorem waited_append (first second : List Stage) :
    waited (first ++ second) = waited first ++ waited second := List.filterMap_append

theorem waited_cons (k : Stage) (stages : List Stage) :
    waited (k :: stages) = k.id?.toList ++ waited stages := by
  unfold waited
  cases hid : k.id? <;> simp [hid]

/-- A turn changes what its own call waits for, and nothing else. -/
theorem waited_set {stages : List Stage} {n : Nat} {k : Stage} (hn : stages[n]? = some k) :
    ∃ others, (waited stages).Perm (k.id?.toList ++ others) ∧
      ∀ k', (waited (stages.set n k')).Perm (k'.id?.toList ++ others) := by
  obtain ⟨hlt, hget⟩ := List.getElem?_eq_some_iff.mp hn
  have hset (k' : Stage) : (waited (stages.set n k')).Perm
      (k'.id?.toList ++ waited (stages.take n ++ stages.drop (n + 1))) := by
    rw [List.set_eq_take_append_cons_drop, if_pos hlt, ← waited_cons]
    exact List.perm_middle.filterMap _
  refine ⟨_, ?_, hset⟩
  -- Setting a stage to itself changes nothing, so the others are the same before and after.
  have hself := hset k
  rwa [← hget, List.set_getElem_self, hget] at hself

/-- The books of a connection are in order, and no call waits longer than it may. -/
structure Sound (l : Staged Server Stage) : Prop where
  books : l.state.Books (waited l.stages)
  prompt : ∀ q id limit deadline, .waiting q id limit deadline ∈ l.stages → l.now ≤ deadline

namespace Sound

variable {l : Staged Server Stage}

/-- What a turn does keeps the books in order. -/
theorem turned (h : Sound l) {n : Nat} {k k' : Stage} {s' : Server} (hn : l.stages[n]? = some k)
    (hturned : k.Turned l.now l.state s' k') : s'.Books (waited (l.stages.set n k')) := by
  obtain ⟨others, hbefore, hafter⟩ := waited_set hn
  have hbooks := h.books.perm hbefore
  refine Server.Books.perm ?_ (hafter k').symm
  cases hturned with
  | asks hopen _ hsame => exact (hbooks.numbered hopen _ _).congr hsame
  | refused hsame hid => rw [hid]; exact hbooks.skipped.congr hsame
  | idles hsame hid => rw [hid]; exact hbooks.congr hsame
  | collects _ hsame hid => rw [hid]; exact (hbooks.collect _).congr hsame
  | closes hid => rw [hid] at hbooks; exact hbooks.killed

theorem step (h : Sound l) {move : Move Call Incident} {l' : Staged Server Stage}
    (hstep : staging.Stepped l move l') : Sound l' := by
  cases hstep with
  | idle => exact h
  | start call =>
      have hwaited : waited (l.stages ++ [.fresh call]) = waited l.stages := by
        rw [waited_append]
        exact List.append_nil _
      refine ⟨hwaited ▸ h.books, fun q id limit deadline hmem => ?_⟩
      rcases List.mem_append.mp hmem with hmem | hmem
      · exact h.prompt q id limit deadline hmem
      · cases List.mem_singleton.mp hmem
  | turn hn hturn =>
      have hturned := Stage.turn_cases hturn
      refine ⟨h.turned hn hturned, fun q id limit deadline hmem => ?_⟩
      rcases List.mem_or_eq_of_mem_set hmem with hmem | rfl
      · exact h.prompt q id limit deadline hmem
      · cases hturned with
        | asks _ _ _ => exact Nat.le_add_right _ _
        | refused _ hid => cases hid
        | idles _ hid => cases hid
        | collects _ _ hid => cases hid
  | pass _ hwait => exact ⟨h.books, fun q id limit deadline hmem => hwait _ hmem deadline rfl⟩
  | outside i => exact ⟨h.books.incident i, h.prompt⟩

theorem run (h : Sound l) (moves : List (Move Call Incident)) : Sound (staging.run l moves) :=
  staging.run_invariant (fun _ _ _ hstep h => h.step hstep) h moves

/-- A new connection has empty books. -/
theorem connected (language : String) (command : ServerCommand) (timeout processId : Nat) :
    Sound (stagedConnection language command timeout processId) where
  books := ⟨List.nodup_nil, by simp [waited, stagedConnection], List.nodup_nil,
    fun id => by simp [waited, stagedConnection, Server.connected],
    fun id hid => absurd rfl hid, fun _ => rfl, List.Pairwise.nil,
    fun id hid => absurd hid List.not_mem_nil⟩
  prompt := by simp [stagedConnection]

theorem conversation (language : String) (command : ServerCommand) (timeout processId : Nat)
    (moves : List (Move Call Incident)) :
    Sound (stagedConversation language command timeout processId moves) :=
  (connected language command timeout processId).run moves

end Sound

end EditorHost.Rpc
