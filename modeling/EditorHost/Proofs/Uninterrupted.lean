import EditorHost.Proofs.Interleaving

/-!
# Calls that are not interrupted

A call that stops only where it has to wait (`Flow.eager`) does in one turn what the plain call does
in several turns that follow each other at once.  So whatever eager calls come to, the plain ones
can come to as well (`System.run_hastened`): no run of eager calls is one that the program does not
have.  Nothing is said of the other runs of the plain calls, in which something comes between.
-/

namespace EditorHost

open Interleaving (Move Pool System Task)

variable {ι ε σ α : Type}

namespace Flow

/-- What a flow comes to by turns that follow each other at once. -/
inductive Turns : Flow σ α → σ → Stretch σ α → Prop
  | last (flow : Flow σ α) (s : σ) : Turns flow s (flow.stretch s)
  | more (flow : Flow σ α) {s : σ} {ready limit next} {r : Stretch σ α}
      (hrest : (flow.stretch s).rest = await ready limit next)
      (hready : ready (flow.stretch s).state = true)
      (h : Turns (next true) (flow.stretch s).state r) :
      Turns flow s { r with started := (flow.stretch s).started ++ r.started }

/-- The first flow is what the second one becomes when it is not interrupted. -/
inductive Hastens : Flow σ α → Flow σ α → Prop
  | same (flow : Flow σ α) : Hastens flow flow
  | eager {flow : Flow σ α} (h : ∀ now, flow.waitEnd now = none) : Hastens flow.eager flow
  | waiting (ready : σ → Bool) (limit : Option Nat) (next : Bool → Flow σ α) :
      Hastens (await ready limit fun met => (next met).eager) (await ready limit next)

theorem stretch_eager_of_met {ready : σ → Bool} {s : σ} (h : ready s = true)
    {limit : Option Nat} {next : Bool → Flow σ α} :
    (await ready limit next).eager.stretch s = (next true).eager.stretch s := by
  simp [eager, h]

theorem stretch_eager_of_unmet {ready : σ → Bool} {s : σ} (h : ready s = false)
    {limit : Option Nat} {next : Bool → Flow σ α} :
    (await ready limit next).eager.stretch s =
      ⟨s, await ready limit fun met => (next met).eager, []⟩ := by
  simp [eager, h]

/-- An eager flow takes its first stretch as the flow does. -/
theorem stretch_eager (flow : Flow σ α) (s : σ) :
    let r := flow.stretch s
    let later := r.rest.eager.stretch r.state
    flow.eager.stretch s = { later with started := r.started ++ later.started } := by
  induction flow generalizing s with
  | done value => rfl
  | act change next ih => exact ih s (change s)
  | await ready limit next ih => rfl
  | fork rank child next ih => simp only [eager, stretch, ih s, List.cons_append]

theorem waitEnd_eager (flow : Flow σ α) (now : Nat) : flow.eager.waitEnd now = none := by
  cases flow <;> rfl

theorem Hastens.waitEnd {hasty flow : Flow σ α} (h : Hastens hasty flow) (now : Nat) :
    hasty.waitEnd now = flow.waitEnd now := by
  cases h with
  | same => rfl
  | eager hnone => rw [waitEnd_eager, hnone]
  | waiting ready limit next => rfl

@[simp] theorem wake_eager (s : σ) (flow : Flow σ α) : flow.eager.wake s = flow.eager := by
  cases flow <;> rfl

theorem Turns.act {change : σ → σ} {next : σ → Flow σ α} {s : σ} {r : Stretch σ α}
    (h : Turns (next s) (change s) r) : Turns (.act change next) s r := by
  cases h with
  | last => exact .last (.act change next) s
  | more _ hrest hready h => exact .more (.act change next) hrest hready h

theorem Turns.fork {rank : Rank} {child : Strand σ} {next : Flow σ α} {s : σ} {r : Stretch σ α}
    (h : Turns next s r) :
    Turns (.fork rank child next) s { r with started := child :: r.started } := by
  cases h with
  | last => exact .last (.fork rank child next) s
  | more _ hrest hready h => exact .more (.fork rank child next) hrest hready h

/-- A stretch of an eager flow is what the flow comes to by turns that follow each other. -/
theorem turns_eager (flow : Flow σ α) (s : σ) :
    ∃ rest, Turns flow s { flow.eager.stretch s with rest } ∧
      Hastens (flow.eager.stretch s).rest rest := by
  induction flow generalizing s with
  | done value => exact ⟨done value, .last (done value) s, .same _⟩
  | act change next ih =>
      obtain ⟨rest, hturns, hrest⟩ := ih s (change s)
      exact ⟨rest, hturns.act, hrest⟩
  | await ready limit next ih =>
      cases hready : ready s with
      | true =>
          obtain ⟨rest, hturns, hrest⟩ := ih true s
          rw [stretch_eager_of_met hready]
          exact ⟨rest, .more (await ready limit next) rfl hready hturns, hrest⟩
      | false =>
          rw [stretch_eager_of_unmet hready]
          exact ⟨_, .last (await ready limit next) s, .waiting ready limit next⟩
  | fork rank child next ih =>
      obtain ⟨rest, hturns, hrest⟩ := ih s
      exact ⟨rest, hturns.fork, hrest⟩

/-- A turn of a hastened flow is turns of the other one that follow each other, or it only finds out
that it has to wait, as the other one does already. -/
theorem Hastens.turn {hasty flow : Flow σ α} (h : Hastens hasty flow) {now : Nat} {s : σ}
    {deadline : Option Nat} (hready : hasty.canGoOn now s deadline = true) :
    (flow.canGoOn now s deadline = true ∧
      ∃ rest, Turns (flow.wake s) s { (hasty.wake s).stretch s with rest } ∧
        Hastens ((hasty.wake s).stretch s).rest rest) ∨
    ((∀ now, flow.waitEnd now = none) ∧
      ∃ rest, (hasty.wake s).stretch s = ⟨s, rest, []⟩ ∧ Hastens rest flow) := by
  cases h with
  | same => exact .inl ⟨hready, _, .last (hasty.wake s) s, .same _⟩
  | eager hnone =>
      cases flow with
      | done value => cases hready
      | act change next => exact .inl ⟨rfl, turns_eager (.act change next) s⟩
      | fork rank child next => exact .inl ⟨rfl, turns_eager (.fork rank child next) s⟩
      | await ready limit next =>
          rw [wake_eager]
          cases hmet : ready s with
          | true =>
              have hwake : (await ready limit next).wake s = next true := congrArg next hmet
              rw [stretch_eager_of_met hmet, hwake]
              exact .inl ⟨by simp [canGoOn, hmet], turns_eager (next true) s⟩
          | false =>
              exact .inr ⟨hnone, _, stretch_eager_of_unmet hmet, .waiting ready limit next⟩
  | waiting ready limit next => exact .inl ⟨hready, turns_eager (next (ready s)) s⟩

end Flow

namespace Interleaving

open Flow (Stretch Turns)

/-- The first call is the second one, hastened. -/
structure Task.Hastens (t t' : Task ι σ α) : Prop where
  call : t.call = t'.call
  deadline : t.deadline = t'.deadline
  since : ∃ now, t'.deadline = t'.rest.waitEnd now
  rest : t.rest.Hastens t'.rest

theorem Task.hastens_of (now : Nat) (call : ι) {hasty flow : Flow σ α} (h : hasty.Hastens flow) :
    (Task.of now call hasty).Hastens (.of now call flow) :=
  ⟨rfl, h.waitEnd now, ⟨now, rfl⟩, h⟩

/-- The calls of the first pool are those of the second one, hastened. -/
structure Pool.Hastens (hasty p : Pool ι σ α) : Prop where
  now : hasty.now = p.now
  state : hasty.state = p.state
  length : hasty.tasks.length = p.tasks.length
  tasks : ∀ (n : Nat) (t t' : Task ι σ α), hasty.tasks[n]? = some t → p.tasks[n]? = some t' →
    t.Hastens t'

/-- Calls under way after one of them has gone on for some turns. -/
def Pool.goneOn [Inhabited α] (p : Pool ι σ α) (n : Nat) (call : ι) (r : Stretch σ α) :
    Pool ι σ α :=
  { p with
    state := r.state
    tasks := p.tasks.set n (.of p.now call r.rest) ++
      r.started.map fun child => .of p.now call (.ofStrand child) }

namespace Pool

variable {hasty p : Pool ι σ α}

theorem Hastens.idle (s : σ) : ({ state := s } : Pool ι σ α).Hastens { state := s } :=
  ⟨rfl, rfl, rfl, fun n t t' ht => by simp at ht⟩

theorem Hastens.exists_task (h : hasty.Hastens p) {n : Nat} {t : Task ι σ α}
    (hn : hasty.tasks[n]? = some t) : ∃ t', p.tasks[n]? = some t' ∧ t.Hastens t' := by
  have hlt : n < p.tasks.length := h.length ▸ (List.getElem?_eq_some_iff.mp hn).1
  exact ⟨_, List.getElem?_eq_getElem hlt, h.tasks n _ _ hn (List.getElem?_eq_getElem hlt)⟩

theorem Hastens.deadlines (h : hasty.Hastens p) :
    hasty.tasks.map Task.deadline = p.tasks.map Task.deadline := by
  refine List.ext_getElem (by simp [h.length]) fun n hn hn' => ?_
  simp only [List.length_map] at hn hn'
  simpa using (h.tasks n _ _ (List.getElem?_eq_getElem hn) (List.getElem?_eq_getElem hn')).deadline

/-- Calls that begin in both pools. -/
theorem Hastens.append (h : hasty.Hastens p) {more more' : List (Task ι σ α)}
    (hlength : more.length = more'.length)
    (hmore : ∀ (n : Nat) (t t' : Task ι σ α), more[n]? = some t → more'[n]? = some t' →
      t.Hastens t') :
    Hastens { hasty with tasks := hasty.tasks ++ more } { p with tasks := p.tasks ++ more' } := by
  refine ⟨h.now, h.state, by simp [h.length, hlength], fun n t t' ht ht' => ?_⟩
  rw [List.getElem?_append] at ht ht'
  rw [h.length] at ht
  split at ht
  next hlt =>
    rw [if_pos hlt] at ht'
    exact h.tasks n t t' ht ht'
  next hlt =>
    rw [if_neg hlt] at ht'
    exact hmore _ t t' ht ht'

theorem Hastens.set (h : hasty.Hastens p) (n : Nat) {t t' : Task ι σ α} (ht : t.Hastens t') :
    Hastens { hasty with tasks := hasty.tasks.set n t } { p with tasks := p.tasks.set n t' } := by
  refine ⟨h.now, h.state, by simp [h.length], fun m u u' hu hu' => ?_⟩
  rw [List.getElem?_set] at hu hu'
  split at hu
  next heq =>
    rw [if_pos heq] at hu'
    rw [h.length] at hu
    split at hu
    next hlt =>
      rw [if_pos hlt] at hu'
      cases hu
      cases hu'
      exact ht
    · cases hu
  next hne =>
    rw [if_neg hne] at hu'
    exact h.tasks m u u' hu hu'

theorem Hastens.goneOn [Inhabited α] (h : hasty.Hastens p) (n : Nat) (call : ι) (s : σ)
    (started : List (Strand σ)) {rest rest' : Flow σ α} (hrest : rest.Hastens rest') :
    (hasty.goneOn n call ⟨s, rest, started⟩).Hastens (p.goneOn n call ⟨s, rest', started⟩) := by
  let children := started.map fun child => Task.of p.now call (.ofStrand child : Flow σ α)
  have hchildren : ∀ (m : Nat) (t t' : Task ι σ α), children[m]? = some t →
      children[m]? = some t' → t.Hastens t' := by
    intro m t t' ht ht'
    rw [ht, Option.some.injEq] at ht'
    obtain ⟨child, -, rfl⟩ := List.mem_map.mp (List.mem_of_getElem? ht)
    exact ht' ▸ Task.hastens_of p.now call (.same _)
  have hboth := (h.set n (Task.hastens_of p.now call hrest)).append rfl hchildren
  exact ⟨h.now, rfl, by simpa [Pool.goneOn, h.now] using hboth.length,
    by simpa [Pool.goneOn, h.now] using hboth.tasks⟩

end Pool

namespace System

variable [Inhabited α] {S hasty : System ι ε σ α} {p p' : Pool ι σ α}

theorem turn_of_ready {n : Nat} {t : Task ι σ α} (hn : p.tasks[n]? = some t)
    (hready : t.isReady p.now p.state = true) :
    p.turn n = p.goneOn n t.call ((t.rest.wake p.state).stretch p.state) := by
  simp only [Pool.turn, hn, hready, if_true]
  rfl

/-- A call takes the turns that its flow takes. -/
theorem exists_turns {n : Nat} {t : Task ι σ α} {r : Stretch σ α} (hn : p.tasks[n]? = some t)
    (hready : t.isReady p.now p.state = true) (h : Turns (t.rest.wake p.state) p.state r) :
    ∃ moves : List (Move ι ε), S.run p moves = p.goneOn n t.call r := by
  generalize hflow : t.rest.wake p.state = flow at h
  generalize hstate : p.state = s at h
  induction h generalizing p t with
  | last flow s =>
      refine ⟨[.turn n], ?_⟩
      subst hstate hflow
      exact turn_of_ready hn hready
  | @more flow s ready limit next r hrest hmet h ih =>
      -- No time has passed behind the first turn, and the call can go on at once.
      subst hstate hflow
      have hlt : n < p.tasks.length := (List.getElem?_eq_some_iff.mp hn).1
      have hturn := turn_of_ready hn hready
      have hwake : (Flow.await ready limit next).wake (p.turn n).state = next true := by
        rw [hturn]
        exact congrArg next hmet
      have htask : (p.turn n).tasks[n]? =
          some (.of p.now t.call (.await ready limit next)) := by
        rw [hturn, Pool.goneOn, turned_self hlt, hrest]
      obtain ⟨moves, hmoves⟩ := ih htask
        (by rw [hturn]; simp [Task.isReady, Task.of, Flow.canGoOn, Pool.goneOn, hmet])
        hwake (by rw [hturn]; rfl)
      refine ⟨.turn n :: moves, ?_⟩
      rw [run_cons]
      refine hmoves.trans ?_
      rw [hturn]
      simp [Pool.goneOn, Task.of, hlt]

/-- What a turn of a hastened call does, moves of the other calls do. -/
theorem turn_hastened (h : p'.Hastens p) (n : Nat) :
    ∃ moves : List (Move ι ε), (p'.turn n).Hastens (S.run p moves) := by
  cases hn : p'.tasks[n]? with
  | none => exact ⟨[], by simpa [Pool.turn, hn] using h⟩
  | some t =>
      cases hready : t.isReady p'.now p'.state with
      | false => exact ⟨[], by simpa [Pool.turn, hn, hready] using h⟩
      | true =>
          obtain ⟨t', hn', ht⟩ := h.exists_task hn
          rw [turn_of_ready hn hready]
          rw [Task.isReady, h.now, h.state, ht.deadline] at hready
          rw [h.state, ht.call]
          rcases ht.rest.turn hready with ⟨hready, rest, hturns, hrest⟩ | ⟨hnone, rest, hr, hrest⟩
          · obtain ⟨moves, hmoves⟩ := exists_turns hn' hready hturns
            refine ⟨moves, ?_⟩
            rw [hmoves]
            exact h.goneOn n t'.call _ _ hrest
          · -- The other call waits already, and its wait has no end that could have been moved.
            obtain ⟨since, hsince⟩ := ht.since
            have hdeadline : rest.waitEnd p'.now = t'.deadline := by
              rw [hrest.waitEnd, hnone, hsince, hnone]
            have htask : (Task.of p'.now t'.call rest).Hastens t' :=
              ⟨rfl, hdeadline, ht.since, hrest⟩
            have hself : p.tasks.set n t' = p.tasks := by
              obtain ⟨hlt, rfl⟩ := List.getElem?_eq_some_iff.mp hn'
              exact List.set_getElem_self hlt
            have hset := h.set n htask
            rw [hself] at hset
            refine ⟨[], ?_⟩
            rw [hr, Pool.goneOn, ← h.state, List.map_nil, List.append_nil]
            exact hset

/-- What a move does to hastened calls, moves do to the others. -/
theorem step_hastened (hflow : ∀ call, (hasty.flow call).Hastens (S.flow call))
    (houtside : hasty.outside = S.outside) (h : p'.Hastens p) (move : Move ι ε) :
    ∃ moves : List (Move ι ε), (hasty.step p' move).Hastens (S.run p moves) := by
  cases move with
  | start call =>
      have hbegun : (Task.of p'.now call (hasty.flow call)).Hastens
          (.of p.now call (S.flow call)) := by
        rw [h.now]
        exact Task.hastens_of p.now call (hflow call)
      refine ⟨[.start call], h.append rfl fun n t t' ht ht' => ?_⟩
      rw [List.mem_singleton.mp (List.mem_of_getElem? ht),
        List.mem_singleton.mp (List.mem_of_getElem? ht')]
      exact hbegun
  | turn n => exact turn_hastened h n
  | pass time =>
      refine ⟨[.pass time], ?_⟩
      have hall : p'.tasks.all (fun t => t.deadline.all (time ≤ ·)) =
          p.tasks.all fun t => t.deadline.all (time ≤ ·) := by
        have hmap := congrArg (List.all · fun deadline => deadline.all (time ≤ ·)) h.deadlines
        simpa [List.all_map, Function.comp_def] using hmap
      simp only [run_cons, run_nil, step, Pool.pass, h.now, hall]
      split
      · exact ⟨rfl, h.state, h.length, h.tasks⟩
      · exact h
  | outside event =>
      refine ⟨[.outside event], ?_⟩
      simp only [run_cons, run_nil, step, h.state, houtside]
      exact ⟨h.now, rfl, h.length, h.tasks⟩

/-- Whatever hastened calls come to, the others can come to. -/
theorem run_hastened (hflow : ∀ call, (hasty.flow call).Hastens (S.flow call))
    (houtside : hasty.outside = S.outside) (h : p'.Hastens p) (moves : List (Move ι ε)) :
    ∃ moves' : List (Move ι ε), (hasty.run p' moves).Hastens (S.run p moves') := by
  induction moves generalizing p p' with
  | nil => exact ⟨[], h⟩
  | cons move moves ih =>
      obtain ⟨before, hbefore⟩ := step_hastened hflow houtside h move
      obtain ⟨behind, hbehind⟩ := ih hbefore
      exact ⟨before ++ behind, by rw [run_append]; exact hbehind⟩

end System

end Interleaving

end EditorHost
