import EditorHost.Rpc.Server

/-!
# The table of requests

What the operations of a connection do to its table of requests and to the answers that wait to be
collected.  The equations say for each operation which fields it changes; everything else follows
from them by projection.
-/

namespace EditorHost.Rpc.Server

variable (s : Server)

/-! ## Queueing -/

@[simp] theorem queue_snd (message : Json) :
    (s.queue message).2 =
      { s with queued := s.queued ++ if s.writable then [message] else [] } := by
  unfold queue
  split <;> simp

@[simp] theorem notify_snd (method : String) (params : Json) :
    (s.notify method params).2 =
      { s with queued := s.queued ++ if s.writable then [notification method params] else [] } :=
  s.queue_snd _

/-! ## Putting questions -/

/-- The fault of a request on a connection that has ended. -/
def notRunning : Fault := .process s!"{s.language} language server is not running"

/-- The connection after a request has been refused; its number is not used again. -/
def skipped : Server := { s with nextId := s.nextId + 1 }

/-- The connection after a request has been given the next number. -/
def numbered (method : String) (params : Json) : Server :=
  { s with
    nextId := s.nextId + 1
    queued := s.queued ++ [Rpc.request s.nextId method params]
    pending := s.pending ++ [s.nextId] }

variable {s}

/-- A closed connection takes no request. -/
theorem issue_of_closed (hclosed : s.closed = true) (method : String) (params : Json) :
    s.issue method params = (.error s.notRunning, s.skipped) := by
  simp [issue, hclosed, notRunning, skipped]

/-- An open connection gives a request the next number, and writes it. -/
theorem issue_of_open (hclosed : s.closed = false) (hwritable : s.writable = true)
    (method : String) (params : Json) :
    s.issue method params = (.ok s.nextId, s.numbered method params) := by
  simp [issue, hclosed, queue, hwritable, numbered]

/-- What cannot be written is not asked. -/
theorem issue_of_unwritable (hclosed : s.closed = false) (hwritable : s.writable = false)
    (method : String) (params : Json) :
    s.issue method params = (.error (.process "language server writer closed"), s.skipped) := by
  simp [issue, hclosed, queue, hwritable, skipped]

/-! ## Answers that wait to be collected -/

theorem answer?_of_append {s t : Server} (more : List (RequestId × Answer))
    (h : t.answers = s.answers ++ more) (id : RequestId) :
    t.answer? id = (s.answer? id).or ((more.find? fun entry => entry.1 == id).map Prod.snd) := by
  simp only [answer?, h, List.find?_append, Option.map_or]

theorem answer?_congr {s t : Server} (h : t.answers = s.answers) (id : RequestId) :
    t.answer? id = s.answer? id := by
  simp only [answer?, h]

variable (s)

/-- A settled request has its answer, unless it had one before. -/
theorem answer?_settle (id other : RequestId) (a : Answer) :
    (s.settle id a).answer? other =
      (s.answer? other).or (if id = other then some a else none) := by
  rw [answer?_of_append (s := s) [(id, a)] rfl]
  by_cases h : id = other <;> simp [h]

/-- With the end of the connection every request in the table gets a fault. -/
theorem answer?_close (reason : String) (id : RequestId) :
    (s.close reason).answer? id =
      (s.answer? id).or (if id ∈ s.pending then some (.error (s.gone reason)) else none) := by
  rw [answer?_of_append (s := s) _ rfl]
  congr 1
  rw [List.find?_map, Option.map_map]
  cases hfind : s.pending.find? ((fun entry => entry.1 == id) ∘ fun id =>
      (id, (.error (s.gone reason) : Answer))) with
  | none =>
      have hmem : id ∉ s.pending := fun hmem => by
        simpa using List.find?_eq_none.mp hfind id hmem
      simp [hmem]
  | some found =>
      have heq : found = id := by simpa using List.find?_some hfind
      have hmem : id ∈ s.pending := heq ▸ List.mem_of_find?_eq_some hfind
      simp [hmem]

/-- Collecting an answer takes it away, and no other. -/
theorem answer?_collect (id other : RequestId) (method : String) :
    (s.collect id method).2.answer? other = if other = id then none else s.answer? other := by
  unfold collect
  cases hanswer : s.answer? id with
  | some a =>
      by_cases h : other = id
      · simp [answer?, h]
      · simp only [answer?, List.find?_filter, h, if_false]
        congr 2
        funext entry
        by_cases hentry : entry.1 = other <;> simp [hentry, h]
  | none =>
      by_cases h : other = id
      · rw [if_pos h, h]
        exact hanswer
      · rw [if_neg h]
        rfl

@[simp] theorem collect_closed (id : RequestId) (method : String) :
    (s.collect id method).2.closed = s.closed := by
  unfold collect
  split <;> rfl

@[simp] theorem collect_nextId (id : RequestId) (method : String) :
    (s.collect id method).2.nextId = s.nextId := by
  unfold collect
  split <;> rfl

@[simp] theorem collect_writable (id : RequestId) (method : String) :
    (s.collect id method).2.writable = s.writable := by
  unfold collect
  split <;> rfl

@[simp] theorem collect_queued (id : RequestId) (method : String) :
    (s.collect id method).2.queued = s.queued := by
  unfold collect
  split <;> rfl

variable {s}

theorem collect_of_some {id : RequestId} {a : Answer} (h : s.answer? id = some a)
    (method : String) : (s.collect id method).1 = a := by
  simp [collect, h]

theorem collect_of_none {id : RequestId} (h : s.answer? id = none) (method : String) :
    s.collect id method =
      (.error (.timeout method s.timeout), { s with pending := s.pending.erase id }) := by
  simp [collect, h]

/-! ## Messages of the server -/

/-- An answer with a number that is in the table settles the request. -/
theorem respond_of_mem {id : RequestId} (h : id ∈ s.pending)
    (result : Except ResponseError Json) :
    s.respond id result = s.settle id (result.mapError refusal) := by
  simp [respond, h]

/-- An answer with any other number changes nothing. -/
theorem respond_of_not_mem {id : Int} (h : ∀ n ∈ s.pending, (n : Int) ≠ id)
    (result : Except ResponseError Json) : s.respond id result = s := by
  have hnot : ¬ (0 ≤ id ∧ s.pending.contains id.toNat = true) := by
    rintro ⟨hpos, hmem⟩
    exact h id.toNat (by simpa using hmem) (Int.toNat_of_nonneg hpos)
  rw [respond, if_neg hnot]

/-- The answer that a message is to the request with a number, if it is one. -/
def answerOf? (id : RequestId) (m : Json) : Option Answer :=
  match Incoming.classify m with
  | .response other result => if other = id then some (result.mapError refusal) else none
  | _ => none

variable (s)

/-- Of a message only the answer to a request in the table is kept. -/
theorem answer?_receive (m : Json) (id : RequestId) :
    (s.receive m).2.answer? id =
      (s.answer? id).or (if id ∈ s.pending then answerOf? id m else none) := by
  unfold receive answerOf?
  cases Incoming.classify m with
  | response other result =>
      by_cases hmem : ∃ n ∈ s.pending, (n : Int) = other
      · obtain ⟨n, hn, rfl⟩ := hmem
        simp only [respond_of_mem hn, answer?_settle, Int.ofNat_inj]
        by_cases heq : n = id
        · simp [heq, heq ▸ hn]
        · simp [heq]
      · -- The number is not in the table, so it is not that of a request that is.
        have hnot : id ∈ s.pending → other ≠ id := fun hid heq => hmem ⟨id, hid, heq.symm⟩
        simp only [respond_of_not_mem fun n hn heq => hmem ⟨n, hn, heq⟩]
        by_cases hid : id ∈ s.pending <;> simp [hid, hnot]
  | request other method params => simp [answer?]
  | notification method params => simp
  | invalid other => simp

variable {s} in
/-- The answer to a request in the table settles it. -/
theorem receive_of_answer {id : RequestId} (hid : id ∈ s.pending) {m : Json} {a : Answer}
    (h : answerOf? id m = some a) : (s.receive m).2 = s.settle id a := by
  unfold answerOf? at h
  unfold receive
  cases hm : Incoming.classify m with
  | response other result =>
      rw [hm] at h
      dsimp only at h ⊢
      split at h
      next heq => rw [heq, respond_of_mem hid, Option.some.inj h]
      · cases h
  | _ =>
      rw [hm] at h
      cases h

@[simp] theorem respond_closed (id : Int) (result : Except ResponseError Json) :
    (s.respond id result).closed = s.closed := by
  unfold respond
  split <;> rfl

@[simp] theorem respond_writable (id : Int) (result : Except ResponseError Json) :
    (s.respond id result).writable = s.writable := by
  unfold respond
  split <;> rfl

@[simp] theorem respond_nextId (id : Int) (result : Except ResponseError Json) :
    (s.respond id result).nextId = s.nextId := by
  unfold respond
  split <;> rfl

@[simp] theorem receive_closed (m : Json) : (s.receive m).2.closed = s.closed := by
  unfold receive
  split <;> simp

@[simp] theorem receive_writable (m : Json) : (s.receive m).2.writable = s.writable := by
  unfold receive
  split <;> simp

@[simp] theorem receive_nextId (m : Json) : (s.receive m).2.nextId = s.nextId := by
  unfold receive
  split <;> simp

end EditorHost.Rpc.Server
