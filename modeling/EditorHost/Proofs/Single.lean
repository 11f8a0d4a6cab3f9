import EditorHost.Proofs.Guarantee

/-!
# Calls that start nothing on the side

A flow that starts nothing on the side (`Flow.Single`) stays one call, and so the calls under way
are those that were begun, in that order.  `System.Moved` is what a move does to such calls.
-/

namespace EditorHost

open Interleaving (System Pool Move Task)

namespace Flow

variable {σ τ α β : Type}

/-- The value that a flow has ended with. -/
def result? : Flow σ α → Option α
  | done value => some value
  | _ => none

theorem eq_done_of_result? {flow : Flow σ α} {value : α} (h : flow.result? = some value) :
    flow = done value := by
  cases flow with
  | done v => exact congrArg done (Option.some.inj h)
  | act change next => cases h
  | await ready limit next => cases h
  | fork rank child next => cases h

/-- A flow that starts nothing on the side. -/
def Single : Flow σ α → Prop
  | done _ => True
  | act _ next => ∀ s, (next s).Single
  | await _ _ next => ∀ met, (next met).Single
  | fork _ _ _ => False

theorem Single.bind {flow : Flow σ α} {k : α → Flow σ β} (hflow : flow.Single)
    (hk : ∀ value, (k value).Single) : (flow.bind k).Single := by
  induction flow with
  | done value => exact hk value
  | act change next ih => exact fun s => ih s (hflow s)
  | await ready limit next ih => exact fun met => ih met (hflow met)
  | fork rank child next ih => cases hflow

theorem single_pause : (pause : Flow σ Unit).Single := fun _ => trivial

theorem single_sync (run : StateM σ α) : (sync run).Single := fun _ => trivial

theorem single_read (view : σ → α) : (read view).Single := fun _ => trivial

theorem Single.each {items : List α} {body : α → Flow σ Unit} (h : ∀ item, (body item).Single) :
    (Flow.each items body).Single := by
  induction items with
  | nil => trivial
  | cons item items ih => exact (h item).bind fun _ => ih

theorem Single.focus {flow : Flow τ α} (h : flow.Single) (f : Focus σ τ) :
    (flow.focus f).Single := by
  induction flow with
  | done value => trivial
  | act change next ih => exact fun s => ih (f.get s) (h (f.get s))
  | await ready limit next ih => exact fun met => ih met (h met)
  | fork rank child next ih => cases h

theorem Single.wake {flow : Flow σ α} (h : flow.Single) (s : σ) : (flow.wake s).Single := by
  cases flow with
  | done value => exact h
  | act change next => exact h
  | await ready limit next => exact h (ready s)
  | fork rank child next => cases h

theorem Single.stretch {flow : Flow σ α} (h : flow.Single) (s : σ) :
    (flow.stretch s).started = [] ∧ (flow.stretch s).rest.Single := by
  induction flow generalizing s with
  | done value => exact ⟨rfl, trivial⟩
  | act change next ih => exact ih s (h s) (change s)
  | await ready limit next ih => exact ⟨rfl, h⟩
  | fork rank child next ih => cases h

end Flow

/-! ## Runs -/

/-- The pool behind a turn of a call that starts nothing on the side. -/
def Interleaving.Pool.turned {ι σ α : Type} (p : Pool ι σ α) (n : Nat) (t : Task ι σ α) :
    Pool ι σ α :=
  let r := (t.rest.wake p.state).stretch p.state
  { p with state := r.state, tasks := p.tasks.set n (.of p.now t.call r.rest) }

namespace Interleaving.System

variable {ι ε σ α : Type} [Inhabited α] (S : System ι ε σ α)

/-- What a move can do to calls that start nothing on the side. -/
inductive Moved (p : Pool ι σ α) : Move ι ε → Pool ι σ α → Prop
  | idle {move} : Moved p move p
  | start (call : ι) :
      Moved p (.start call) { p with tasks := p.tasks ++ [.of p.now call (S.flow call)] }
  | turn {n t r} (hn : p.tasks[n]? = some t)
      (hstretch : (t.rest.wake p.state).stretch p.state = r) :
      Moved p (.turn n) { p with
        state := r.state, tasks := p.tasks.set n (.of p.now t.call r.rest) }
  | pass (time : Nat) : Moved p (.pass time) { p with now := time }
  | outside (event : ε) : Moved p (.outside event) { p with state := S.outside event p.state }

variable {S} {p : Pool ι σ α}

theorem Stepped.moved (h : ∀ t ∈ p.tasks, t.rest.Single) {move : Move ι ε} {p' : Pool ι σ α}
    (hstep : S.Stepped p move p') : S.Moved p move p' := by
  cases hstep with
  | idle => exact .idle
  | start call => exact .start call
  | @turn n t r hn hstretch =>
      have hsingle := (h t (List.mem_of_getElem? hn)).wake p.state
      have hstarted : r.started = [] := hstretch ▸ (hsingle.stretch p.state).1
      rw [hstarted, List.map_nil, List.append_nil]
      exact .turn hn hstretch
  | pass time => exact .pass time
  | outside event => exact .outside event

omit [Inhabited α] in
theorem single_moved (hflow : ∀ call, (S.flow call).Single) (h : ∀ t ∈ p.tasks, t.rest.Single)
    {move : Move ι ε} {p' : Pool ι σ α} (hmove : S.Moved p move p') :
    ∀ t ∈ p'.tasks, t.rest.Single := by
  cases hmove with
  | idle => exact h
  | start call =>
      exact List.forall_mem_append.mpr ⟨h, List.forall_mem_singleton.mpr (hflow call)⟩
  | @turn n t r hn hstretch =>
      intro t' ht'
      rcases List.mem_or_eq_of_mem_set ht' with ht' | rfl
      · exact h t' ht'
      · have hsingle := (h t (List.mem_of_getElem? hn)).wake p.state
        exact hstretch ▸ (hsingle.stretch p.state).2
  | pass time => exact h
  | outside event => exact h

theorem single_run (hflow : ∀ call, (S.flow call).Single) (h : ∀ t ∈ p.tasks, t.rest.Single)
    (moves : List (Move ι ε)) : ∀ t ∈ (S.run p moves).tasks, t.rest.Single := by
  induction moves generalizing p with
  | nil => exact h
  | cons move moves ih => exact ih (single_moved hflow h ((S.step_cases p move).moved h))

/-- A call under way is the same call later on. -/
theorem exists_call {n : Nat} {t : Task ι σ α} (hn : p.tasks[n]? = some t)
    (moves : List (Move ι ε)) : ∃ t', (S.run p moves).tasks[n]? = some t' ∧ t'.call = t.call := by
  induction moves generalizing p t with
  | nil => exact ⟨t, hn, rfl⟩
  | cons move moves ih =>
      have hlt : n < p.tasks.length := (List.getElem?_eq_some_iff.mp hn).1
      have hstep := S.step_cases p move
      suffices hnext : ∃ t', (S.step p move).tasks[n]? = some t' ∧ t'.call = t.call by
        obtain ⟨t', hn', hsame⟩ := hnext
        obtain ⟨t'', hn'', hsame'⟩ := ih hn'
        exact ⟨t'', hn'', hsame'.trans hsame⟩
      generalize S.step p move = p' at hstep
      cases hstep with
      | idle => exact ⟨t, hn, rfl⟩
      | start call => exact ⟨t, (List.getElem?_append_left hlt).trans hn, rfl⟩
      | @turn m t₁ r hm hstretch =>
          by_cases heq : m = n
          · subst heq
            obtain rfl : t₁ = t := Option.some.inj (hm.symm.trans hn)
            exact ⟨_, turned_self hlt, rfl⟩
          · exact ⟨t, (turned_of_ne hlt heq).trans hn, rfl⟩
      | pass time => exact ⟨t, hn, rfl⟩
      | outside event => exact ⟨t, hn, rfl⟩

/-- A call stays as it is during the moves of others. -/
theorem step_of_ne {move : Move ι ε} {n : Nat} {t : Task ι σ α} (hn : p.tasks[n]? = some t)
    (hmove : move ≠ .turn n) : (S.step p move).tasks[n]? = some t := by
  have hlt : n < p.tasks.length := (List.getElem?_eq_some_iff.mp hn).1
  have hstep := S.step_cases p move
  generalize S.step p move = p' at hstep
  cases hstep with
  | idle => exact hn
  | start call => exact (List.getElem?_append_left hlt).trans hn
  | turn hm hstretch => exact (turned_of_ne hlt fun heq => hmove (heq ▸ rfl)).trans hn
  | pass time => exact hn
  | outside event => exact hn

theorem run_of_ne {n : Nat} {t : Task ι σ α} (hn : p.tasks[n]? = some t) {moves : List (Move ι ε)}
    (hmoves : .turn n ∉ moves) : (S.run p moves).tasks[n]? = some t := by
  induction moves generalizing p with
  | nil => exact hn
  | cons move moves ih =>
      obtain ⟨hmove, hmoves⟩ := List.ne_and_not_mem_of_not_mem_cons hmoves
      exact ih (step_of_ne hn hmove.symm) hmoves

/-- A turn of a call that can take one. -/
theorem step_turn {n : Nat} {t : Task ι σ α} (hn : p.tasks[n]? = some t) (hsingle : t.rest.Single)
    (hready : t.isReady p.now p.state = true) : S.step p (.turn n) = p.turned n t := by
  have hstarted := ((hsingle.wake p.state).stretch p.state).1
  simp only [step, Pool.turn, hn, hready, if_true, hstarted, List.map_nil, List.append_nil,
    Pool.turned]

/-- A call that can always go on stays as it is up to its next turn, and takes it. -/
theorem exists_turn {n : Nat} {t : Task ι σ α} (hn : p.tasks[n]? = some t) (hsingle : t.rest.Single)
    (hready : ∀ now s, t.isReady now s = true) (moves : List (Move ι ε)) :
    (S.run p moves).tasks[n]? = some t ∨ ∃ first rest, moves = first ++ .turn n :: rest ∧
      .turn n ∉ first ∧ (S.run p first).tasks[n]? = some t ∧
        S.step (S.run p first) (.turn n) = (S.run p first).turned n t := by
  by_cases hmem : .turn n ∈ moves
  · obtain ⟨first, rest, rfl, hfirst⟩ := List.eq_append_cons_of_mem hmem
    have hsame := run_of_ne (S := S) hn hfirst
    exact .inr ⟨first, rest, rfl, hfirst, hsame, step_turn hsame hsingle (hready _ _)⟩
  · exact .inl (run_of_ne hn hmem)

end Interleaving.System

end EditorHost
