import EditorHost.Proofs.Rpc.ClientCalls
import EditorHost.Proofs.Rpc.Notes

/-!
# How a server stands towards the documents

A server in the client's table is of one of two kinds (`Standing`).  One that has not been greeted
yet waits for its answer to the first request, and has been told nothing.  One for which that
request is settled is either not ready, or it knows the documents of its language.

Whatever happens to a server, it stands as before (`Standing.incident`).  A ready one stays in step
with the documents when it is told of a change (`Standing.tell`), and the end of its greeting makes
up for all changes before (`Standing.greeted`).
-/

namespace EditorHost.Rpc

/-! ## What a server knows -/

/-- The documents that a server knows are those of its language. -/
def Mirrors (documents : Table Synced) (language : String) (known : Table Synced) : Prop :=
  ∀ uri, known.find? uri = (documents.find? uri).filter fun d => d.language == language

/-- What a server was told fits together, and it knows the documents of its language unless messages
have not reached its queue. -/
def Informed (documents : Table Synced) (s : Server) : Prop :=
  ∃ k, told s.queued = some k ∧
    (s.writable = true → ∃ known, k = .documents known ∧ Mirrors documents s.language known)

/-- How a server in the table stands. -/
inductive Standing (documents : Table Synced) (s : Server) : Prop
  /-- The first request is not settled, or nobody has looked at its answer. -/
  | waiting (hfirst : s.pending = [1] ∧ s.answers = [] ∨
        s.pending = [] ∧ ∃ answer, s.answers = [(1, answer)])
      (hstate : s.state ≠ .initialized) (htold : told s.queued = some .nothing)
  | settled (hpending : s.pending = []) (hanswers : s.answers = [])
      (hknown : s.state = .initialized → Informed documents s)

variable {documents documents' : Table Synced} {s : Server}

/-! ## What happens to a server -/

theorem Standing.respond (h : Standing documents s) (id : Int)
    (result : Except ResponseError Json) : Standing documents (s.respond id result) := by
  by_cases hmem : ∃ n ∈ s.pending, (n : Int) = id
  · obtain ⟨n, hn, rfl⟩ := hmem
    rw [Server.respond_of_mem hn]
    cases h with
    | waiting hfirst hstate htold =>
        rcases hfirst with ⟨hpending, hanswers⟩ | ⟨hpending, hanswers⟩
        · have hone : n = 1 := by simpa [hpending] using hn
          subst hone
          refine .waiting (.inr ⟨?_, result.mapError Server.refusal, ?_⟩) hstate htold
          · simp [Server.settle, hpending]
          · simp [Server.settle, hanswers]
        · simp [hpending] at hn
    | settled hpending hanswers hknown => simp [hpending] at hn
  · rw [Server.respond_of_not_mem fun n hn heq => hmem ⟨n, hn, heq⟩]
    exact h

/-- A message that says nothing about documents changes nothing. -/
theorem Standing.queue (h : Standing documents s) {message : Json}
    (hsilent : Note.read? message = none) : Standing documents (s.queue message).2 := by
  have htold : told (s.queue message).2.queued = told s.queued := by
    rw [Server.queue_snd]
    cases s.writable with
    | true => exact told_silent hsilent
    | false => simp
  rw [Server.queue_snd] at htold ⊢
  cases h with
  | waiting hfirst hstate hnothing => exact .waiting hfirst hstate (htold.trans hnothing)
  | settled hpending hanswers hknown =>
      refine .settled hpending hanswers fun hstate => ?_
      obtain ⟨k, hk, hall⟩ := hknown hstate
      exact ⟨k, htold.trans hk, hall⟩

theorem Standing.receive (h : Standing documents s) (m : Json) :
    Standing documents (s.receive m).2 := by
  unfold Server.receive
  cases Incoming.classify m with
  | response id result => exact h.respond id result
  | request id method params => exact h.queue (read?_response _ _)
  | notification method params => exact h
  | invalid m => exact h

theorem Standing.close (h : Standing documents s) (reason : String) :
    Standing documents (s.close reason) := by
  cases h with
  | waiting hfirst hstate htold =>
      -- Who waits is answered that the server is gone; an answer from before stays.
      refine .waiting (.inr ⟨rfl, ?_⟩) (by simp [Server.close]) htold
      rcases hfirst with ⟨hpending, hanswers⟩ | ⟨hpending, answer, hanswers⟩
      · exact ⟨.error (s.gone reason), by simp [Server.close, hpending, hanswers]⟩
      · exact ⟨answer, by simp [Server.close, hpending, hanswers]⟩
  | settled hpending hanswers hknown =>
      refine .settled rfl (by simp [Server.close, hpending, hanswers]) fun hstate => ?_
      cases hstate

theorem incident_language (incident : Incident) (s : Server) :
    (incident.change s).language = s.language := by
  cases incident with
  | message m =>
      simp only [Incident.change, Server.receive]
      cases Incoming.classify m with
      | response id result =>
          simp only [Server.respond]
          split <;> rfl
      | request id method params => simp
      | notification method params => rfl
      | invalid m => rfl
  | finished => rfl
  | unwritable => rfl

/-- Whatever happens to a server, it stands as before. -/
theorem Standing.incident (h : Standing documents s) (incident : Incident) :
    Standing documents (incident.change s) := by
  cases incident with
  | message m => exact h.receive m
  | finished =>
      cases h.close "process exited" with
      | waiting hfirst hstate htold => exact .waiting hfirst hstate htold
      | settled hpending hanswers hknown => exact .settled hpending hanswers hknown
  | unwritable =>
      cases h with
      | waiting hfirst hstate htold => exact .waiting hfirst hstate htold
      | settled hpending hanswers hknown =>
          refine .settled hpending hanswers fun hstate => ?_
          obtain ⟨k, hk, -⟩ := hknown hstate
          exact ⟨k, hk, fun hwritable => by cases hwritable⟩

/-- Changes of documents of other languages do not matter. -/
theorem Standing.congr (h : Standing documents s)
    (hsame : ∀ uri, (documents'.find? uri).filter (fun d => d.language == s.language) =
      (documents.find? uri).filter fun d => d.language == s.language) :
    Standing documents' s := by
  cases h with
  | waiting hfirst hstate htold => exact .waiting hfirst hstate htold
  | settled hpending hanswers hknown =>
      refine .settled hpending hanswers fun hstate => ?_
      obtain ⟨k, hk, hall⟩ := hknown hstate
      refine ⟨k, hk, fun hwritable => ?_⟩
      obtain ⟨known, hdocuments, hmirrors⟩ := hall hwritable
      exact ⟨known, hdocuments, fun uri => (hmirrors uri).trans (hsame uri).symm⟩

/-- As long as a server is not ready, the documents do not matter. -/
theorem Standing.of_not_ready (h : Standing documents s) (hstate : s.state ≠ .initialized) :
    Standing documents' s := by
  cases h with
  | waiting hfirst hstate htold => exact .waiting hfirst hstate htold
  | settled hpending hanswers hknown => exact .settled hpending hanswers fun h => absurd h hstate

/-- A ready server that is told of a change of the documents of its language. -/
theorem Standing.tell (h : Standing documents s) (hstate : s.state = .initialized)
    {method : String} {params : Json} {note : Note}
    (hread : Note.read? (notification method params) = some note)
    (hnote : ∀ known, Mirrors documents s.language known → ∃ known',
      (Knowledge.documents known).take note = some (.documents known') ∧
        Mirrors documents' s.language known') :
    Standing documents' (s.notify method params).2 := by
  rw [Server.notify_snd]
  cases h with
  | waiting hfirst hnot htold => exact absurd hstate hnot
  | settled hpending hanswers hknown =>
      refine .settled hpending hanswers fun _ => ?_
      obtain ⟨k, hk, hall⟩ := hknown hstate
      cases hwritable : s.writable with
      | false => exact ⟨k, by simpa using hk, fun hyes => by simp at hyes⟩
      | true =>
          obtain ⟨known, rfl, hmirrors⟩ := hall hwritable
          obtain ⟨known', htake, hmirrors'⟩ := hnote known hmirrors
          exact ⟨.documents known', (told_note hk hread).trans htake, fun _ =>
            ⟨known', rfl, hmirrors'⟩⟩

/-! ## The end of a greeting -/

/-- A server that is told that a document is open. -/
def Server.opening (s : Server) (entry : String × Synced) : Server :=
  (s.notify "textDocument/didOpen" (Client.didOpenParams entry.1 entry.2)).2

/-- The messages that some documents are open. -/
def openings (entries : Table Synced) : List Json :=
  entries.map fun entry =>
    notification "textDocument/didOpen" (Client.didOpenParams entry.1 entry.2)

theorem foldl_opening (entries : Table Synced) (s : Server) :
    entries.foldl Server.opening s =
      { s with queued := s.queued ++ if s.writable then openings entries else [] } := by
  induction entries generalizing s with
  | nil => simp [openings]
  | cons entry rest ih =>
      rw [List.foldl_cons, ih, Server.opening, Server.notify_snd]
      cases s.writable <;> simp [openings]

/-- Documents that are not open at a server can be opened there one after another. -/
theorem told_openings {queued : List Json} {known : Table Synced}
    (h : told queued = some (.documents known)) {entries : Table Synced} (hsorted : entries.Sorted)
    (hnew : ∀ entry ∈ entries, known.find? entry.1 = none) : ∃ known',
      told (queued ++ openings entries) = some (.documents known') ∧
        ∀ uri, known'.find? uri = (entries.find? uri).or (known.find? uri) := by
  induction entries generalizing queued known with
  | nil => exact ⟨known, by simpa [openings] using h, fun uri => by simp⟩
  | cons entry rest ih =>
      obtain ⟨uri, d⟩ := entry
      obtain ⟨hless, hrest⟩ := Table.sorted_cons.mp hsorted
      obtain ⟨hfirst, hnew⟩ := List.forall_mem_cons.mp hnew
      have htold := told_note h (read?_didOpen uri d)
      rw [Knowledge.take, Table.has, hfirst] at htold
      have hother : ∀ entry ∈ rest, (known.insert uri d).find? entry.1 = none := by
        intro entry hentry
        -- The entries are sorted, so none of the rest has the key of the first.
        have hne : entry.1 ≠ uri := fun heq => String.lt_irrefl uri (heq ▸ hless entry hentry)
        rw [Table.find?_insert_of_ne _ _ hne]
        exact hnew entry hentry
      obtain ⟨known', htold', hknown'⟩ := ih htold hrest hother
      refine ⟨known', by simpa [openings] using htold', fun other => ?_⟩
      rw [hknown', Table.find?_insert, Table.find?]
      by_cases heq : other = uri
      · subst heq
        rw [Table.find?_of_lt hless]
        simp
      · rw [if_neg heq, if_neg (Ne.symm heq)]

/-- What the end of a greeting does to the server that is greeted. -/
def Server.greeted (documents : Table Synced) (s : Server) : Server :=
  match s.collect 1 "initialize" with
  | (.ok result, s) =>
    (documents.filter fun entry => entry.2.language == s.language).foldl Server.opening
      (s.welcome result)
  | (.error _, s) => s.failed.killed

/-- A new server that has been asked to start. -/
theorem standing_asked (language : String) (command : ServerCommand) (timeout processId : Nat)
    (params : Json) : Standing documents
      ((Server.connected language command timeout processId).starting.numbered
        "initialize" params) := by
  refine .waiting (.inl ⟨rfl, rfl⟩) (fun h => by cases h) ?_
  exact (told_silent (read?_request _ _ _) : told ([] ++ [_]) = told [])

theorem welcome_language (s : Server) (result : Json) :
    (s.welcome result).language = s.language := by
  rw [Server.welcome, Server.notify_snd]

theorem greeted_language (documents : Table Synced) (s : Server) :
    (s.greeted documents).language = s.language := by
  have hcollect : (s.collect 1 "initialize").2.language = s.language := by
    unfold Server.collect
    split <;> rfl
  unfold Server.greeted
  rcases hanswer : s.collect 1 "initialize" with ⟨_ | result, s'⟩
  · rw [← hcollect, hanswer]
    rfl
  · rw [← hcollect, hanswer]
    dsimp only
    rw [foldl_opening, welcome_language]

theorem greeted_writable (documents : Table Synced) (s : Server) :
    (s.greeted documents).writable = s.writable := by
  have hcollect := s.collect_writable 1 "initialize"
  unfold Server.greeted
  rcases hanswer : s.collect 1 "initialize" with ⟨_ | result, s'⟩
  · rw [← hcollect, hanswer]
    rfl
  · rw [← hcollect, hanswer]
    dsimp only
    rw [foldl_opening, Server.welcome, Server.notify_snd]

theorem standing_killed (hpending : s.pending = []) (hanswers : s.answers = []) :
    Standing documents s.killed := by
  refine .settled rfl ?_ fun hstate => ?_
  · simp [Server.killed, Server.close, hpending, hanswers]
  · cases hstate

/-- With the end of its greeting a server is told of all documents of its language, or is given
up. -/
theorem Standing.greeted (h : Standing documents s) (hsorted : documents.Sorted) :
    Standing documents (s.greeted documents) := by
  unfold Server.greeted
  have hnone (hpending : s.pending = [1] ∨ s.pending = []) (hanswers : s.answers = []) :
      s.collect 1 "initialize" =
        (.error (.timeout "initialize" s.timeout), { s with pending := [] }) := by
    rw [Server.collect_of_none (by simp [Server.answer?, hanswers])]
    rcases hpending with hpending | hpending <;> simp [hpending]
  cases h with
  | waiting hfirst hstate htold =>
      rcases hfirst with ⟨hpending, hanswers⟩ | ⟨hpending, answer, hanswers⟩
      · -- There is no answer, so the wait has run out of time.
        rw [hnone (.inl hpending) hanswers]
        exact standing_killed rfl hanswers
      · have hcollect : s.collect 1 "initialize" = (answer, { s with answers := [] }) := by
          simp [Server.collect, Server.answer?, hanswers]
        rw [hcollect]
        cases answer with
        | error fault => exact standing_killed hpending rfl
        | ok result =>
            dsimp only
            rw [foldl_opening, Server.welcome, Server.notify_snd]
            refine .settled hpending rfl fun _ => ?_
            cases hwritable : s.writable with
            | false => exact ⟨.nothing, by simpa [hwritable] using htold, fun hyes => by
                simp at hyes⟩
            | true =>
                have hgreeted := told_note htold read?_initialized
                obtain ⟨known, htold', hknown⟩ := told_openings hgreeted
                  (hsorted.filter fun entry => entry.2.language == s.language) (by simp)
                refine ⟨.documents known, by simpa [hwritable] using htold', fun _ =>
                  ⟨known, rfl, fun uri => ?_⟩⟩
                rw [hknown, Table.find?_nil, Option.or_none]
                exact hsorted.find?_filter (fun d => d.language == s.language) uri
  | settled hpending hanswers hknown =>
      -- The answer has been looked at before, and whoever looks for it again finds none.
      rw [hnone (.inr hpending) hanswers]
      exact standing_killed rfl hanswers

end EditorHost.Rpc
