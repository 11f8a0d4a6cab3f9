import EditorHost.Flow

/-!
# Interleaved calls

Calls that are under way at the same time take turns.  A turn takes a call from one wait to the
next; between two turns anything may happen: another call goes on, a new one begins, time passes, or
the surroundings change the state.  Which of this happens, and in which order, is a list of moves
about which nothing is assumed, so a statement about all lists of moves is one about every
interleaving.

Time does not pass the end of a wait: a call whose wait has come to its end takes its turn first.

## Contents

* `System` says what can be called and what the surroundings can do; `System.run` plays moves.
* `Staging` describes the calls under way by data instead of flows.  `Staging.run_pool` shows that
  nothing is lost by it, so that invariants can be stated about the data.
-/

namespace EditorHost

namespace Flow

variable {σ α : Type}

/-- A strand as a flow, for whose value nobody asks. -/
def ofStrand [Inhabited α] : Strand σ → Flow σ α
  | .stop => done default
  | .act change next => act change fun s => ofStrand (next s)
  | .await ready limit next => await ready limit fun met => ofStrand (next met)
  | .fork rank child next => fork rank child (ofStrand next)

/-- What a flow comes to in one stretch: the state, what is left of it, and what it started. -/
structure Stretch (σ α : Type) where
  state : σ
  rest : Flow σ α
  started : List (Strand σ) := []

/-- Runs a flow up to its next wait, or to its end. -/
def stretch : Flow σ α → σ → Stretch σ α
  | done value, s => ⟨s, done value, []⟩
  | act change next, s => (next s).stretch (change s)
  | await ready limit next, s => ⟨s, await ready limit next, []⟩
  | fork _ child next, s =>
    let later := next.stretch s
    { later with started := child :: later.started }

/-- What comes behind the wait that a flow begins with, if it begins with one. -/
def wake (s : σ) : Flow σ α → Flow σ α
  | await ready _ next => next (ready s)
  | flow => flow

/-- When the wait ends at the latest that a flow begins with now. -/
def waitEnd (now : Nat) : Flow σ α → Option Nat
  | await _ limit _ => limit.map (now + ·)
  | _ => none

/-- Whether a flow can go on, when its wait may end at a given time. -/
def canGoOn (now : Nat) (s : σ) (deadline : Option Nat) : Flow σ α → Bool
  | done _ => false
  | await ready _ _ => ready s || deadline.any (· ≤ now)
  | _ => true

/-- Whether a flow has come to its end. -/
def isDone : Flow σ α → Bool
  | done _ => true
  | _ => false

theorem eq_done_of_isDone {flow : Flow σ α} (h : flow.isDone = true) :
    ∃ value, flow = done value := by
  cases flow with
  | done value => exact ⟨value, rfl⟩
  | act change next => cases h
  | await ready limit next => cases h
  | fork rank child next => cases h

/-- Whether a flow has come to its end or to a wait, as it has behind every turn. -/
def atRest : Flow σ α → Bool
  | done _ => true
  | await _ _ _ => true
  | _ => false

theorem atRest_stretch (flow : Flow σ α) (s : σ) : (flow.stretch s).rest.atRest = true := by
  induction flow generalizing s with
  | done value => rfl
  | act change next ih => exact ih s (change s)
  | await ready limit next ih => rfl
  | fork rank child next ih => exact ih s

@[simp] theorem stretch_act (change : σ → σ) (next : σ → Flow σ α) (s : σ) :
    (act change next).stretch s = (next s).stretch (change s) := rfl

@[simp] theorem stretch_await (ready : σ → Bool) (limit : Option Nat) (next : Bool → Flow σ α)
    (s : σ) : (await ready limit next).stretch s = ⟨s, await ready limit next, []⟩ := rfl

/-- The flow, not interrupted where it does not have to wait. -/
def eager : Flow σ α → Flow σ α
  | done value => done value
  | act change next => act change fun s => (next s).eager
  | await ready limit next =>
    act id fun s =>
      if ready s then (next true).eager else await ready limit fun met => (next met).eager
  | fork rank child next => fork rank child next.eager

/-! ## Flows on a part of the state -/

section Focus

variable {τ β : Type} (f : Focus σ τ)

theorem focus_bind (flow : Flow τ α) (k : α → Flow τ β) :
    (flow.bind k).focus f = (flow.focus f).bind fun value => (k value).focus f := by
  induction flow with
  | done value => rfl
  | act change next ih => simp only [bind, focus, ih]
  | await ready limit next ih => simp only [bind, focus, ih]
  | fork rank child next ih => simp only [bind, focus, ih]

theorem focus_sync (run : StateM τ α) : (sync run).focus f = sync (f.zoom run) := rfl

end Focus

/-! ## Flows that are not interrupted -/

section Eager

variable {β τ : Type} (s : σ)

@[simp] theorem stretch_eager_done (value : α) :
    (done value : Flow σ α).eager.stretch s = ⟨s, done value, []⟩ := rfl

@[simp] theorem stretch_eager_sync (run : StateM σ α) :
    (sync run).eager.stretch s = ⟨(run s).2, done (run s).1, []⟩ := rfl

@[simp] theorem stretch_eager_pause (k : Unit → Flow σ β) :
    (pause.bind k).eager.stretch s = (k ()).eager.stretch s := rfl

@[simp] theorem stretch_eager_sync_bind (run : StateM σ α) (k : α → Flow σ β) :
    ((sync run).bind k).eager.stretch s = (k (run s).1).eager.stretch (run s).2 := rfl

@[simp] theorem stretch_eager_read_bind (view : σ → α) (k : α → Flow σ β) :
    ((read view).bind k).eager.stretch s = (k (view s)).eager.stretch s := rfl

end Eager

end Flow

namespace Interleaving

/-- A call that is under way. -/
structure Task (ι σ α : Type) where
  call : ι
  /-- When its wait ends at the latest. -/
  deadline : Option Nat
  rest : Flow σ α

/-- The calls under way, the oldest first, and what they work on. -/
structure Pool (ι σ α : Type) where
  now : Nat := 0
  state : σ
  tasks : List (Task ι σ α) := []

/-- What can happen to calls under way. -/
inductive Move (ι ε : Type) where
  /-- A call begins; its first turn is still to come. -/
  | start (call : ι)
  /-- A call goes on, if it can. -/
  | turn (n : Nat)
  /-- It becomes some later time, if no wait ends before. -/
  | pass (time : Nat)
  /-- The surroundings change the state. -/
  | outside (event : ε)

/-- What can be called, and what the surroundings can do. -/
structure System (ι ε σ α : Type) where
  flow : ι → Flow σ α
  outside : ε → σ → σ

variable {ι ε σ α : Type}

/-- A call with what is left of it, from now on. -/
def Task.of (now : Nat) (call : ι) (rest : Flow σ α) : Task ι σ α :=
  ⟨call, rest.waitEnd now, rest⟩

/-- Whether a call can take a turn. -/
def Task.isReady (now : Nat) (s : σ) (t : Task ι σ α) : Bool := t.rest.canGoOn now s t.deadline

/-- Lets a call take a turn, if it can. -/
def Pool.turn [Inhabited α] (p : Pool ι σ α) (n : Nat) : Pool ι σ α :=
  match p.tasks[n]? with
  | none => p
  | some t =>
    if t.isReady p.now p.state then
      let r := (t.rest.wake p.state).stretch p.state
      { p with
        state := r.state
        tasks := p.tasks.set n (.of p.now t.call r.rest) ++
          r.started.map fun child => .of p.now t.call (.ofStrand child) }
    else p

/-- Lets time pass, if no wait ends before. -/
def Pool.pass (p : Pool ι σ α) (time : Nat) : Pool ι σ α :=
  if p.now ≤ time ∧ p.tasks.all fun t => t.deadline.all (time ≤ ·) then { p with now := time }
  else p

namespace System

variable [Inhabited α] (S : System ι ε σ α)

/-- What a move does. -/
def step (p : Pool ι σ α) : Move ι ε → Pool ι σ α
  | .start call => { p with tasks := p.tasks ++ [.of p.now call (S.flow call)] }
  | .turn n => p.turn n
  | .pass time => p.pass time
  | .outside event => { p with state := S.outside event p.state }

/-- Plays moves, one after another. -/
def run (p : Pool ι σ α) (moves : List (Move ι ε)) : Pool ι σ α := moves.foldl S.step p

@[simp] theorem run_nil (p : Pool ι σ α) : S.run p [] = p := rfl

@[simp] theorem run_cons (p : Pool ι σ α) (move : Move ι ε) (moves : List (Move ι ε)) :
    S.run p (move :: moves) = S.run (S.step p move) moves := rfl

@[simp] theorem run_append (p : Pool ι σ α) (first second : List (Move ι ε)) :
    S.run p (first ++ second) = S.run (S.run p first) second := List.foldl_append

variable {S}

section Turn

variable {tasks : List (Task ι σ α)} {now n : Nat} {call : ι} {r : Flow.Stretch σ α}

/-- The call that has taken a turn stands where it stood. -/
theorem turned_self (hlt : n < tasks.length) :
    (tasks.set n (.of now call r.rest) ++ r.started.map fun child =>
      .of now call (.ofStrand child))[n]? = some (.of now call r.rest) := by
  rw [List.getElem?_append_left (by simpa using hlt), List.getElem?_set_self hlt]

/-- Every other call stays as it is when one has taken a turn. -/
theorem turned_of_ne {i : Nat} (hlt : i < tasks.length) (hne : n ≠ i) :
    (tasks.set n (.of now call r.rest) ++ r.started.map fun child =>
      .of now call (.ofStrand child))[i]? = tasks[i]? := by
  rw [List.getElem?_append_left (by simpa using hlt), List.getElem?_set_ne hne]

end Turn

/-- A call that has ended stays as it is. -/
theorem step_over {p : Pool ι σ α} {n : Nat} {t : Task ι σ α} {value : α}
    (hn : p.tasks[n]? = some t) (hrest : t.rest = .done value) (move : Move ι ε) :
    (S.step p move).tasks[n]? = some t := by
  have hlt : n < p.tasks.length := (List.getElem?_eq_some_iff.mp hn).1
  cases move with
  | start call => exact (List.getElem?_append_left hlt).trans hn
  | turn m =>
      simp only [step, Pool.turn]
      split
      · exact hn
      next t' hm =>
        split
        next hready =>
          -- It is another call, because this one has nothing left to do.
          have hne : m ≠ n := by
            rintro rfl
            rw [hn, Option.some.injEq] at hm
            simp [← hm, Task.isReady, hrest, Flow.canGoOn] at hready
          exact (turned_of_ne hlt hne).trans hn
        · exact hn
  | pass time =>
      simp only [step, Pool.pass]
      split <;> exact hn
  | outside event => exact hn

theorem run_over {p : Pool ι σ α} {n : Nat} {t : Task ι σ α} {value : α}
    (hn : p.tasks[n]? = some t) (hrest : t.rest = .done value) (moves : List (Move ι ε)) :
    (S.run p moves).tasks[n]? = some t := by
  induction moves generalizing p with
  | nil => exact hn
  | cons move moves ih => exact ih (step_over hn hrest move)

end System

/-! ## What moves do to a pool -/

namespace System

variable [Inhabited α] (S : System ι ε σ α)

/-- What a move can do to calls under way. -/
inductive Stepped (p : Pool ι σ α) : Move ι ε → Pool ι σ α → Prop
  /-- A call that cannot go on stays where it is, and so does the time that may not pass. -/
  | idle {move} : Stepped p move p
  | start (call : ι) :
      Stepped p (.start call) { p with tasks := p.tasks ++ [.of p.now call (S.flow call)] }
  | turn {n t r} (hn : p.tasks[n]? = some t)
      (hstretch : (t.rest.wake p.state).stretch p.state = r) :
      Stepped p (.turn n) { p with
        state := r.state
        tasks := p.tasks.set n (.of p.now t.call r.rest) ++
          r.started.map fun child => .of p.now t.call (.ofStrand child) }
  | pass (time : Nat) : Stepped p (.pass time) { p with now := time }
  | outside (event : ε) : Stepped p (.outside event) { p with state := S.outside event p.state }

/-- Every move does one of five things. -/
theorem step_cases (p : Pool ι σ α) (move : Move ι ε) : S.Stepped p move (S.step p move) := by
  cases move with
  | start call => exact .start call
  | turn n =>
      simp only [step, Pool.turn]
      split
      · exact .idle
      next t hn =>
        split
        · exact .turn hn rfl
        · exact .idle
  | pass time =>
      simp only [step, Pool.pass]
      split
      · exact .pass time
      · exact .idle
  | outside event => exact .outside event

variable {S}

/-- Every move of a run is of a kind that may depend on where the run has come to. -/
def Along (S : System ι ε σ α) (P : Pool ι σ α → Move ι ε → Prop) :
    Pool ι σ α → List (Move ι ε) → Prop
  | _, [] => True
  | p, move :: moves => P p move ∧ Along S P (S.step p move) moves

theorem along_of_forall {P : Move ι ε → Prop} {moves : List (Move ι ε)}
    (h : ∀ move ∈ moves, P move) (p : Pool ι σ α) : S.Along (fun _ => P) p moves := by
  induction moves generalizing p with
  | nil => trivial
  | cons move moves ih =>
      obtain ⟨hmove, hmoves⟩ := List.forall_mem_cons.mp h
      exact ⟨hmove, ih hmoves _⟩

theorem along_append {P : Pool ι σ α → Move ι ε → Prop} {p : Pool ι σ α}
    {first second : List (Move ι ε)} :
    S.Along P p (first ++ second) ↔ S.Along P p first ∧ S.Along P (S.run p first) second := by
  induction first generalizing p with
  | nil => exact (iff_of_eq (true_and _)).symm
  | cons move moves ih => exact (and_congr_right fun _ => ih).trans and_assoc.symm

/-- What is so of all moves may be made use of. -/
theorem Along.mono_of_mem {P Q : Pool ι σ α → Move ι ε → Prop} {p : Pool ι σ α}
    {moves : List (Move ι ε)} (h : ∀ p, ∀ move ∈ moves, P p move → Q p move)
    (hmoves : S.Along P p moves) : S.Along Q p moves := by
  induction moves generalizing p with
  | nil => trivial
  | cons move moves ih =>
      have hrest := fun p move hmem => h p move (List.mem_cons_of_mem _ hmem)
      exact ⟨h p move List.mem_cons_self hmoves.1, ih hrest hmoves.2⟩

theorem Along.mono {P Q : Pool ι σ α → Move ι ε → Prop} (h : ∀ p move, P p move → Q p move)
    {p : Pool ι σ α} {moves : List (Move ι ε)} (hmoves : S.Along P p moves) :
    S.Along Q p moves :=
  hmoves.mono_of_mem fun p move _ => h p move

/-- What is kept by every move of a kind holds after a run in which all moves are of that kind. -/
theorem run_invariant_along {I : Pool ι σ α → Prop} {P : Pool ι σ α → Move ι ε → Prop}
    (hstep : ∀ p move p', P p move → S.step p move = p' → S.Stepped p move p' → I p → I p')
    {p : Pool ι σ α} (h : I p) {moves : List (Move ι ε)} (hmoves : S.Along P p moves) :
    I (S.run p moves) := by
  induction moves generalizing p with
  | nil => exact h
  | cons move moves ih =>
      obtain ⟨hmove, hmoves⟩ := hmoves
      exact ih (hstep p move _ hmove rfl (S.step_cases p move) h) hmoves

/-- What is kept by every move of a kind holds after any moves of that kind. -/
theorem run_invariant {I : Pool ι σ α → Prop} {P : Move ι ε → Prop}
    (hstep : ∀ p move p', P move → S.Stepped p move p' → I p → I p') {p : Pool ι σ α} (h : I p)
    {moves : List (Move ι ε)} (hmoves : ∀ move ∈ moves, P move) : I (S.run p moves) :=
  run_invariant_along (fun p move p' hmove _ hstepped => hstep p move p' hmove hstepped) h
    (along_of_forall hmoves p)

end System

/-! ## Calls as data -/

/-- Behind a turn of one call, every other one is where it was. -/
theorem getElem?_set_cases {κ : Type} {stages : List κ} {n i : Nat} {k k' k'' : κ}
    (hn : stages[n]? = some k) (hi : (stages.set n k')[i]? = some k'') :
    i = n ∧ k'' = k' ∨ n ≠ i ∧ stages[i]? = some k'' := by
  by_cases heq : n = i
  · subst heq
    rw [List.getElem?_set_self (List.getElem?_eq_some_iff.mp hn).1] at hi
    exact .inl ⟨rfl, (Option.some.inj hi).symm⟩
  · rw [List.getElem?_set_ne heq] at hi
    exact .inr ⟨heq, hi⟩

/-- When a call begins, every other one is where it was. -/
theorem getElem?_concat_cases {κ : Type} {stages : List κ} {i : Nat} {k k' : κ}
    (hi : (stages ++ [k'])[i]? = some k) :
    stages[i]? = some k ∨ i = stages.length ∧ k = k' := by
  rcases Nat.lt_trichotomy i stages.length with hlt | rfl | hgt
  · exact .inl (List.getElem?_append_left hlt ▸ hi)
  · rw [List.getElem?_concat_length] at hi
    exact .inr ⟨rfl, (Option.some.inj hi).symm⟩
  · have hbound := (List.getElem?_eq_some_iff.mp hi).1
    rw [List.length_append, List.length_singleton] at hbound
    omega

/-- Calls under way, each given by the stage it has come to. -/
structure Staged (σ κ : Type) where
  now : Nat := 0
  state : σ
  stages : List κ := []

/-- A description of all calls of a system by stages. -/
structure Staging (S : System ι ε σ α) (κ : Type) where
  /-- The call that a stage describes. -/
  task : κ → Task ι σ α
  /-- The stage of a call that has just begun. -/
  first : Nat → ι → κ
  /-- What a turn does, if the call can take one. -/
  turn : Nat → σ → κ → Option (σ × κ)
  task_first : ∀ now call, task (first now call) = .of now call (S.flow call)
  isReady_task : ∀ now s k, (task k).isReady now s = (turn now s k).isSome
  stretch_task : ∀ now s k s' k', turn now s k = some (s', k') →
    ((task k).rest.wake s).stretch s = ⟨s', (task k').rest, []⟩ ∧
      task k' = .of now (task k).call (task k').rest

namespace Staging

variable {S : System ι ε σ α} {κ : Type} (V : Staging S κ)

/-- The calls that stages describe. -/
def pool (l : Staged σ κ) : Pool ι σ α := ⟨l.now, l.state, l.stages.map V.task⟩

@[simp] theorem tasks_pool (l : Staged σ κ) (n : Nat) :
    (V.pool l).tasks[n]? = (l.stages[n]?).map V.task := by
  simp [pool]

/-- Lets a call take a turn, if it can. -/
def takeTurn (l : Staged σ κ) (n : Nat) : Staged σ κ :=
  match l.stages[n]? with
  | none => l
  | some k =>
    match V.turn l.now l.state k with
    | none => l
    | some (s, k') => { l with state := s, stages := l.stages.set n k' }

theorem takeTurn_of_some {l : Staged σ κ} {n : Nat} {k k' : κ} {s' : σ}
    (hn : l.stages[n]? = some k) (hturn : V.turn l.now l.state k = some (s', k')) :
    V.takeTurn l n = { l with state := s', stages := l.stages.set n k' } := by
  simp [takeTurn, hn, hturn]

theorem takeTurn_of_none {l : Staged σ κ} {n : Nat} {k : κ} (hn : l.stages[n]? = some k)
    (hturn : V.turn l.now l.state k = none) : V.takeTurn l n = l := by
  simp [takeTurn, hn, hturn]

/-- Lets time pass, if no wait ends before. -/
def pass (l : Staged σ κ) (time : Nat) : Staged σ κ :=
  if l.now ≤ time ∧ l.stages.all fun k => (V.task k).deadline.all (time ≤ ·) then
    { l with now := time }
  else l

/-- What a move does. -/
def step (l : Staged σ κ) : Move ι ε → Staged σ κ
  | .start call => { l with stages := l.stages ++ [V.first l.now call] }
  | .turn n => V.takeTurn l n
  | .pass time => V.pass l time
  | .outside event => { l with state := S.outside event l.state }

/-- Plays moves, one after another. -/
def run (l : Staged σ κ) (moves : List (Move ι ε)) : Staged σ κ := moves.foldl V.step l

@[simp] theorem run_nil (l : Staged σ κ) : V.run l [] = l := rfl

@[simp] theorem run_cons (l : Staged σ κ) (move : Move ι ε) (moves : List (Move ι ε)) :
    V.run l (move :: moves) = V.run (V.step l move) moves := rfl

@[simp] theorem run_append (l : Staged σ κ) (first second : List (Move ι ε)) :
    V.run l (first ++ second) = V.run (V.run l first) second := List.foldl_append

/-- What a move can do. -/
inductive Stepped (l : Staged σ κ) : Move ι ε → Staged σ κ → Prop
  /-- A call that cannot go on stays where it is, and so does the time that may not pass. -/
  | idle {move} : Stepped l move l
  | start (call : ι) : Stepped l (.start call) { l with stages := l.stages ++ [V.first l.now call] }
  | turn {n k s' k'} (hn : l.stages[n]? = some k) (hturn : V.turn l.now l.state k = some (s', k')) :
      Stepped l (.turn n) { l with state := s', stages := l.stages.set n k' }
  | pass {time} (hnow : l.now ≤ time)
      (hwait : ∀ k ∈ l.stages, ∀ deadline, (V.task k).deadline = some deadline → time ≤ deadline) :
      Stepped l (.pass time) { l with now := time }
  | outside (event : ε) : Stepped l (.outside event) { l with state := S.outside event l.state }

/-- Every move does one of five things. -/
theorem step_cases (l : Staged σ κ) (move : Move ι ε) : V.Stepped l move (V.step l move) := by
  cases move with
  | start call => exact .start call
  | turn n =>
      simp only [step, takeTurn]
      split
      · exact .idle
      next k hn =>
        split
        · exact .idle
        next s' k' hturn => exact .turn hn hturn
  | pass time =>
      simp only [step, pass]
      split
      next hpass =>
        refine .pass hpass.1 fun k hk deadline hdeadline => ?_
        simpa [hdeadline] using List.all_eq_true.mp hpass.2 k hk
      · exact .idle
  | outside event => exact .outside event

variable [Inhabited α]

theorem turn_pool (l : Staged σ κ) (n : Nat) : (V.pool l).turn n = V.pool (V.takeTurn l n) := by
  unfold Pool.turn takeTurn
  cases hstage : l.stages[n]? with
  | none => simp [hstage]
  | some k =>
      have htask : (V.pool l).tasks[n]? = some (V.task k) := by simp [hstage]
      have hready : (V.task k).isReady (V.pool l).now (V.pool l).state =
          (V.turn l.now l.state k).isSome := V.isReady_task l.now l.state k
      simp only [htask, hready]
      cases hturn : V.turn l.now l.state k with
      | none => rfl
      | some result =>
          obtain ⟨s', k'⟩ := result
          obtain ⟨hstretch, hof⟩ := V.stretch_task l.now l.state k s' k' hturn
          simp only [pool] at hstretch ⊢
          simp [hstretch, ← hof, List.map_set]

omit [Inhabited α] in
theorem pass_pool (l : Staged σ κ) (time : Nat) :
    (V.pool l).pass time = V.pool (V.pass l time) := by
  unfold Pool.pass pass
  simp only [pool, List.all_map, Function.comp_def]
  split <;> rfl

/-- A move does the same to stages as to the calls that they describe. -/
theorem step_pool (l : Staged σ κ) (move : Move ι ε) :
    S.step (V.pool l) move = V.pool (V.step l move) := by
  cases move with
  | start call => simp [System.step, step, pool, V.task_first]
  | turn n => exact V.turn_pool l n
  | pass time => exact V.pass_pool l time
  | outside event => rfl

/-- Playing moves does the same to stages as to the calls that they describe. -/
theorem run_pool (l : Staged σ κ) (moves : List (Move ι ε)) :
    S.run (V.pool l) moves = V.pool (V.run l moves) := by
  induction moves generalizing l with
  | nil => rfl
  | cons move moves ih => rw [System.run_cons, run_cons, V.step_pool, ih]

omit [Inhabited α] in
/-- What every move preserves holds after all moves. -/
theorem run_invariant {I : Staged σ κ → Prop}
    (hstep : ∀ l move l', V.Stepped l move l' → I l → I l') {l : Staged σ κ} (h : I l)
    (moves : List (Move ι ε)) : I (V.run l moves) := by
  induction moves generalizing l with
  | nil => exact h
  | cons move moves ih => exact ih (hstep l move _ (V.step_cases l move) h)

end Staging

end Interleaving

end EditorHost
