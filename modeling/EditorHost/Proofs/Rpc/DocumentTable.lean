import EditorHost.Proofs.Rpc.Returning
import EditorHost.Proofs.Workbench.DocumentCalls

/-!
# The table of documents

What the table of documents becomes is a matter of the calls about documents alone, and of the end
of all servers at once.  Each of them makes one change of the table, in one of its turns
(`ClientCall.once_onDocuments`), and nothing else does (`ClientCall.within_sameDocuments`).  So
however the calls are interrupted, the table comes from applying their changes one after another, in
the order in which those turns are taken: `Enacts` is a run with that order, and `Due.enacts` finds
it for every run.
-/

namespace EditorHost.Rpc

open Client (SameDocuments Touches server)
open EditorHost.DocumentCall (keeps_notify within_notify)
open Interleaving (System Pool Move Task)

/-- What a call makes of the table. -/
def ClientCall.onDocuments : ClientCall → Table Synced → Table Synced
  | didOpen uri language text, documents =>
    match documents.find? uri with
    | some old => documents.insert uri ⟨language, Document.nextVersion old.version, text⟩
    | none => documents.insert uri ⟨language, 1, text⟩
  | didChange uri text, documents =>
    match documents.find? uri with
    | some old => documents.insert uri ⟨old.language, Document.nextVersion old.version, text⟩
    | none => documents
  | didClose uri, documents => documents.erase uri
  | forceShutdown, _ => []
  | _, documents => documents

/-- Whether a call is about the table. -/
def ClientCall.changesDocuments : ClientCall → Bool
  | didOpen _ _ _ | didChange _ _ | didClose _ | forceShutdown => true
  | _ => false

/-- The change of a call is made. -/
def ClientCall.Changes (call : ClientCall) (c c' : Client) : Prop :=
  c'.documents = call.onDocuments c.documents

theorem ClientCall.Changes.before {call : ClientCall} (c₁ c₂ c₃ : Client)
    (h : SameDocuments c₁ c₂) (h' : call.Changes c₂ c₃) : call.Changes c₁ c₃ :=
  Eq.trans h' (congrArg call.onDocuments h)

theorem ClientCall.Changes.behind {call : ClientCall} (c₁ c₂ c₃ : Client) (h : call.Changes c₁ c₂)
    (h' : SameDocuments c₂ c₃) : call.Changes c₁ c₃ :=
  Eq.trans h' h

theorem ClientCall.sorted_onDocuments (call : ClientCall) {documents : Table Synced}
    (h : documents.Sorted) : (call.onDocuments documents).Sorted := by
  cases call with
  | didOpen uri language text =>
      unfold onDocuments
      dsimp only
      split <;> exact h.insert _ _
  | didChange uri text =>
      unfold onDocuments
      dsimp only
      split
      · exact h.insert _ _
      · exact h
  | didClose uri => exact h.erase uri
  | forceShutdown => exact Table.sorted_nil
  | _ => exact h

/-! ## Calls -/

theorem SameDocuments.trans (c₁ c₂ c₃ : Client) (h : SameDocuments c₁ c₂)
    (h' : SameDocuments c₂ c₃) : SameDocuments c₁ c₃ := Eq.trans h' h

section Calls

variable {call : ClientCall}

theorem within_same_focus {α : Type} (flow : Flow Server α) (id : ServerId) :
    (flow.focus (server id)).Within SameDocuments :=
  (Client.within_focus flow (List.mem_singleton_self id)).mono fun _ _ h => h.documents

theorem within_same_connect (language : String) (command : ServerCommand) (line : Nat) :
    (Client.connect language command line).Within SameDocuments := by
  refine World.within_pauseClient.bind fun _ => (Flow.within_sync fun c => ?_).bind fun taken => ?_
  · dsimp only
    split <;> exact .refl c
  · cases taken with
    | none => trivial
    | some id => exact Client.within_greet (fun _ _ _ h => h.documents) id

theorem within_same_didSave (uri : String) : (Client.didSave uri).Within SameDocuments := by
  refine World.within_pauseClient.bind fun _ => (Flow.within_read .refl _).bind fun found => ?_
  cases found with
  | none => trivial
  | some d => exact within_notify _ _ _

theorem within_same_shutdownServer (language : String) :
    (Client.shutdownServer language).Within SameDocuments := by
  refine World.within_pauseClient.bind fun _ => (Flow.within_sync fun c => .refl c).bind
    fun forgotten => ?_
  cases forgotten with
  | none => trivial
  | some id => exact within_same_focus Server.shutdown id

theorem within_same_shutdownAll : Client.shutdownAll.Within SameDocuments := by
  refine World.within_pauseClient.bind fun _ => (Flow.within_sync fun c => .refl c).bind
    fun ids => ?_
  exact .each fun id _ => within_same_focus Server.shutdown id

/-- A call that is not about documents leaves them alone. -/
theorem ClientCall.within_sameDocuments (h : call.changesDocuments = false) :
    call.returning.Within SameDocuments := by
  have hreturn (result : Unit) :
      (Flow.done (Except.ok ()) : Flow Client (Except Fault Unit)).Within SameDocuments := trivial
  cases call with
  | didSave uri => exact (within_same_didSave uri).bind hreturn
  | connect language command line => exact within_same_connect language command line
  | start language => exact World.within_startServer language
  | shutdownServer language => exact (within_same_shutdownServer language).bind hreturn
  | shutdownAll => exact within_same_shutdownAll.bind hreturn
  | _ => cases h

theorem once_changes_didOpen (uri language text : String) :
    (Client.didOpen uri language text).Once SameDocuments
      (ClientCall.didOpen uri language text).Changes := by
  refine Flow.Once.pause_bind (Flow.Once.sync_bind fun c => .inr ⟨?_, ?_⟩)
  · show (c.track uri language text).2.documents = _
    unfold Client.track ClientCall.onDocuments
    cases hfind : c.documents.find? uri <;> simp [hfind]
  · generalize (c.track uri language text).1 = tracked
    obtain ⟨previous, d⟩ := tracked
    cases previous with
    | none => exact within_notify _ _ _
    | some previous =>
        dsimp only
        split
        · exact within_notify _ _ _
        · exact World.within_pauseClient.bind fun _ =>
            (Flow.within_sync (keeps_notify _ _ _)).bind fun _ => within_notify _ _ _

theorem once_changes_didChange (uri text : String) :
    (Client.didChange uri text).Once SameDocuments (ClientCall.didChange uri text).Changes := by
  refine Flow.Once.pause_bind (Flow.Once.sync_bind fun c => .inr ⟨?_, ?_⟩)
  · show (c.retext uri text).2.documents = _
    unfold Client.retext ClientCall.onDocuments
    cases hfind : c.documents.find? uri <;> simp [hfind]
  · cases (c.retext uri text).1 with
    | none => trivial
    | some d => exact within_notify _ _ _

/-- A document that is not there when the call looks is not forgotten later. -/
theorem once_changes_didClose (uri : String) :
    (Client.didClose uri).Once SameDocuments (ClientCall.didClose uri).Changes := by
  refine Flow.Once.pause_bind (Flow.Once.read_bind fun c => ?_)
  cases hfind : c.documents.find? uri with
  | none => exact .inr ⟨(Table.erase_of_find?_none hfind).symm, trivial⟩
  | some d =>
      refine .inl ⟨.refl c, World.within_pauseClient.bind_once fun _ => ?_⟩
      refine (Flow.within_sync (keeps_notify _ _ _)).bind_once fun _ => ?_
      exact World.within_pauseClient.bind_once fun _ => Flow.once_sync fun c => rfl

theorem once_changes_forceShutdown :
    Client.forceShutdown.Once SameDocuments ClientCall.forceShutdown.Changes := by
  refine Flow.Once.pause_bind ?_
  refine (Flow.within_sync fun c => SameDocuments.refl c).bind_once fun ids => ?_
  refine Flow.Within.bind_once (.each fun id _ => within_same_focus Server.kill id) fun _ => ?_
  exact World.within_pauseClient.bind_once fun _ => Flow.once_sync fun c => rfl

/-- A call about documents makes its change once. -/
theorem ClientCall.once_onDocuments (h : call.changesDocuments = true) :
    call.returning.Once SameDocuments call.Changes := by
  have hreturn (result : Unit) :
      (Flow.done (Except.ok ()) : Flow Client (Except Fault Unit)).Within SameDocuments := trivial
  cases call with
  | didOpen uri language text => exact (once_changes_didOpen uri language text).bind hreturn
  | didChange uri text => exact (once_changes_didChange uri text).bind hreturn
  | didClose uri => exact (once_changes_didClose uri).bind hreturn
  | forceShutdown => exact once_changes_forceShutdown.bind hreturn
  | _ => cases h

end Calls

/-! ## Runs -/

/-- A run in which calls make their changes of the table in a given order: each move leaves the
table as it is, or it is the turn of a call that makes its change. -/
inductive Enacts : Pool ClientCall Client (Except Fault Unit) →
    List (Move ClientCall (ServerId × Incident)) → List (Nat × ClientCall) → Prop
  | nil {p} : Enacts p [] []
  | quiet {p move moves order}
      (hsame : (returningCalls.step p move).state.documents = p.state.documents)
      (h : Enacts (returningCalls.step p move) moves order) : Enacts p (move :: moves) order
  | change {p n t moves order} (hn : p.tasks[n]? = some t)
      (hchange : (returningCalls.step p (.turn n)).state.documents =
        t.call.onDocuments p.state.documents)
      (h : Enacts (returningCalls.step p (.turn n)) moves order) :
      Enacts p (.turn n :: moves) ((n, t.call) :: order)

variable {p p' : Pool ClientCall Client (Except Fault Unit)}
  {moves : List (Move ClientCall (ServerId × Incident))} {order : List (Nat × ClientCall)}

/-- The table is what the changes make of it. -/
theorem Enacts.documents (h : Enacts p moves order) :
    (returningCalls.run p moves).state.documents =
      order.foldl (fun documents entry => entry.2.onDocuments documents) p.state.documents := by
  induction h with
  | nil => rfl
  | quiet hsame _ ih => rw [System.run_cons, ih, hsame]
  | change hn hchange _ ih => rw [System.run_cons, ih, hchange, List.foldl_cons]

theorem sorted_foldl_onDocuments (order : List (Nat × ClientCall)) {documents : Table Synced}
    (h : documents.Sorted) :
    (order.foldl (fun documents entry => entry.2.onDocuments documents) documents).Sorted := by
  induction order generalizing documents with
  | nil => exact h
  | cons entry rest ih => exact ih (entry.2.sorted_onDocuments h)

/-- Which changes are still to be made: those of all calls about documents, but for some that have
made theirs. -/
structure Due (made : List Nat) (p : Pool ClientCall Client (Except Fault Unit)) : Prop where
  single : ∀ t ∈ p.tasks, t.rest.Single
  known : ∀ n ∈ made, n < p.tasks.length
  once : ∀ n t, p.tasks[n]? = some t → t.call.changesDocuments = true → n ∉ made →
    t.rest.Once SameDocuments t.call.Changes
  within : ∀ n t, p.tasks[n]? = some t → t.call.changesDocuments = false ∨ n ∈ made →
    t.rest.Within SameDocuments

variable {made : List Nat}

/-- Calls are due as before when one has taken a turn, if that is so of the one. -/
theorem Due.set (h : Due made p) {n : Nat} {t : Task ClientCall Client (Except Fault Unit)}
    (hn : p.tasks[n]? = some t) {made' : List Nat} (hmade : ∀ m, m ≠ n → (m ∈ made' ↔ m ∈ made))
    {c : Client} {rest : Flow Client (Except Fault Unit)} (hsingle : rest.Single)
    (honce : t.call.changesDocuments = true → n ∉ made' →
      rest.Once SameDocuments t.call.Changes)
    (hwithin : t.call.changesDocuments = false ∨ n ∈ made' → rest.Within SameDocuments) :
    Due made' { p with state := c, tasks := p.tasks.set n (.of p.now t.call rest) } := by
  have hlt : n < p.tasks.length := (List.getElem?_eq_some_iff.mp hn).1
  refine ⟨fun t' ht' => ?_, fun m hm => ?_, fun m t' hm hcall hnot => ?_,
    fun m t' hm hover => ?_⟩
  · rcases List.mem_or_eq_of_mem_set ht' with ht' | rfl
    · exact h.single t' ht'
    · exact hsingle
  · rw [List.length_set]
    by_cases heq : m = n
    · exact heq ▸ hlt
    · exact h.known m ((hmade m heq).mp hm)
  · rcases Interleaving.getElem?_set_cases hn hm with ⟨rfl, rfl⟩ | ⟨hne, hold⟩
    · exact honce hcall hnot
    · exact h.once m t' hold hcall fun hin => hnot ((hmade m hne.symm).mpr hin)
  · rcases Interleaving.getElem?_set_cases hn hm with ⟨rfl, rfl⟩ | ⟨hne, hold⟩
    · exact hwithin hover
    · exact h.within m t' hold (hover.imp_right (hmade m hne.symm).mp)

/-- A move makes no change, or it is the turn of a call that makes its change. -/
theorem Due.step (h : Due made p) {move : Move ClientCall (ServerId × Incident)}
    (hmove : returningCalls.Moved p move p') :
    SameDocuments p.state p'.state ∧ Due made p' ∨
      ∃ n t, move = .turn n ∧ p.tasks[n]? = some t ∧ t.call.changesDocuments = true ∧ n ∉ made ∧
        t.call.Changes p.state p'.state ∧ Due (n :: made) p' := by
  cases hmove with
  | idle => exact .inl ⟨.refl _, h⟩
  | start call =>
      refine .inl ⟨.refl _, ?_, fun n hn => ?_, fun n t hn hcall hnot => ?_, fun n t hn hover => ?_⟩
      · exact List.forall_mem_append.mpr ⟨h.single, List.forall_mem_singleton.mpr call.single⟩
      · exact Nat.lt_of_lt_of_le (h.known n hn) (by simp)
      · rcases Interleaving.getElem?_concat_cases hn with hold | ⟨rfl, rfl⟩
        · exact h.once n t hold hcall hnot
        · exact ClientCall.once_onDocuments hcall
      · rcases Interleaving.getElem?_concat_cases hn with hold | ⟨rfl, rfl⟩
        · exact h.within n t hold hover
        · rcases hover with hcall | hin
          · exact ClientCall.within_sameDocuments hcall
          · exact absurd (h.known _ hin) (Nat.lt_irrefl _)
  | @turn n t r hn hstretch =>
      have hsingle := (((h.single t (List.mem_of_getElem? hn)).wake p.state).stretch p.state).2
      rw [hstretch] at hsingle
      by_cases hdue : t.call.changesDocuments = true ∧ n ∉ made
      · obtain ⟨hcall, hnot⟩ := hdue
        have honce := (h.once n t hn hcall hnot).wake p.state
        obtain ⟨hstate, -⟩ := honce.stretch SameDocuments.refl SameDocuments.trans
          ClientCall.Changes.before ClientCall.Changes.behind p.state
        rw [hstretch] at hstate
        rcases hstate with ⟨hsame, hrest⟩ | ⟨hchange, hrest⟩
        · refine .inl ⟨hsame, h.set hn (fun _ _ => Iff.rfl) hsingle (fun _ _ => hrest) ?_⟩
          rintro (hother | hin)
          · rw [hcall] at hother
            cases hother
          · exact absurd hin hnot
        · refine .inr ⟨n, t, rfl, hn, hcall, hnot, hchange, ?_⟩
          refine h.set hn (fun m hm => ?_) hsingle (fun _ hnot' => ?_) fun _ => hrest
          · simp [hm]
          · exact absurd List.mem_cons_self hnot'
      · have hover : t.call.changesDocuments = false ∨ n ∈ made := by
          by_cases hin : n ∈ made
          · exact .inr hin
          · exact .inl (Bool.eq_false_iff.mpr fun hcall => hdue ⟨hcall, hin⟩)
        obtain ⟨hsame, hrest, -⟩ := ((h.within n t hn hover).wake p.state).stretch
          SameDocuments.refl SameDocuments.trans p.state
        rw [hstretch] at hsame hrest
        exact .inl ⟨hsame, h.set hn (fun _ _ => Iff.rfl) hsingle
          (fun hcall hnot => absurd ⟨hcall, hnot⟩ hdue) fun _ => hrest⟩
  | pass time => exact .inl ⟨.refl _, h.single, h.known, h.once, h.within⟩
  | outside event => exact .inl ⟨rfl, h.single, h.known, h.once, h.within⟩

/-- However calls are interrupted, the changes of the table are made in some order: those of calls
about documents only, each at most once, and of those that are over each once. -/
theorem Due.enacts (h : Due made p) (moves : List (Move ClientCall (ServerId × Incident))) :
    ∃ order, Enacts p moves order ∧ (order.map Prod.fst).Nodup ∧
      (∀ entry ∈ order, entry.1 ∉ made ∧ entry.2.changesDocuments = true ∧
        ∃ t, (returningCalls.run p moves).tasks[entry.1]? = some t ∧ t.call = entry.2) ∧
      ∀ n t, (returningCalls.run p moves).tasks[n]? = some t → t.call.changesDocuments = true →
        n ∉ made → t.rest.isDone = true → (n, t.call) ∈ order := by
  induction moves generalizing p made with
  | nil =>
      refine ⟨[], .nil, List.nodup_nil, fun entry hentry => (nomatch hentry),
        fun n t hn hcall hnot hdone => ?_⟩
      obtain ⟨value, hvalue⟩ := Flow.eq_done_of_isDone hdone
      have honce := h.once n t hn hcall hnot
      rw [hvalue] at honce
      exact honce.elim
  | cons move moves ih =>
      have hmove := (returningCalls.step_cases p move).moved h.single
      rcases h.step hmove with ⟨hsame, hdue⟩ | ⟨n, t, rfl, hn, hcall, hnot, hchange, hdue⟩
      · obtain ⟨order, henacts, hnodup, hentries, hover⟩ := ih hdue
        exact ⟨order, .quiet hsame henacts, hnodup, hentries, hover⟩
      · obtain ⟨order, henacts, hnodup, hentries, hover⟩ := ih hdue
        refine ⟨(n, t.call) :: order, .change hn hchange henacts, ?_, ?_, ?_⟩
        · refine List.nodup_cons.mpr ⟨fun hin => ?_, hnodup⟩
          obtain ⟨entry, hentry, heq⟩ := List.mem_map.mp hin
          exact (hentries entry hentry).1 (heq ▸ List.mem_cons_self)
        · refine List.forall_mem_cons.mpr ⟨⟨hnot, hcall, ?_⟩, fun entry hentry => ?_⟩
          · exact System.exists_call hn (.turn n :: moves)
          · obtain ⟨hnew, hkind, htask⟩ := hentries entry hentry
            exact ⟨fun hin => hnew (List.mem_cons_of_mem n hin), hkind, htask⟩
        · intro m t' hm hcall' hnot' hdone
          by_cases heq : m = n
          · obtain ⟨t'', hn', hsame⟩ := System.exists_call (S := returningCalls) hn
              (.turn n :: moves)
            obtain rfl : t'' = t' := Option.some.inj (hn'.symm.trans (heq ▸ hm))
            exact heq ▸ hsame ▸ List.mem_cons_self
          · refine List.mem_cons_of_mem _ (hover m t' hm hcall' (fun hin => ?_) hdone)
            exact hnot' ((List.mem_cons.mp hin).resolve_left heq)

/-- Before anything has been called, nothing is due. -/
theorem due_fresh (c : Client) : Due [] { state := c } := by
  refine ⟨fun t ht => ?_, fun n hn => ?_, fun n t hn => ?_, fun n t hn => ?_⟩
  · cases ht
  · cases hn
  · cases hn
  · cases hn

end EditorHost.Rpc
