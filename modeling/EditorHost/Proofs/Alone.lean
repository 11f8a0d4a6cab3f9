import EditorHost.Proofs.Guarantee
import EditorHost.Proofs.Uninterrupted

/-!
# A call with nothing else running

While no other call runs, what a call comes to is a function of the state in which it begins: it
goes on as soon as it can, a wait with a limit that is not met runs out, and a wait without a limit
that is not met never ends.

`System.alone_of_run` says that this is what the turns of the call come to, whatever other calls
stand by without taking one.

## Contents

* `Flow.alone` is the value of a flow and the state behind it.
* Laws of `Flow.alone` for the ways to put flows together.
* `Flow.Within.alone`: what every change of a flow guarantees holds of the whole call.
-/

namespace EditorHost

variable {σ α β ι ε : Type}

namespace Flow

/-- What a flow comes to when nothing else runs; `none` when it waits for what never happens.  Work
that it starts on the side does not begin meanwhile. -/
def alone : Flow σ α → σ → Option (α × σ)
  | done value, s => some (value, s)
  | act change next, s => (next s).alone (change s)
  | await ready limit next, s =>
    if ready s then (next true).alone s
    else if limit.isSome then (next false).alone s
    else none
  | fork _ _ next, s => next.alone s

/-! ## Parts of flows -/

@[simp] theorem alone_done (value : α) (s : σ) : (done value).alone s = some (value, s) := rfl

@[simp] theorem alone_sync (run : StateM σ α) (s : σ) : (sync run).alone s = some (run s) := rfl

@[simp] theorem alone_read (view : σ → α) (s : σ) : (read view).alone s = some (view s, s) := rfl

@[simp] theorem alone_pause (s : σ) : (pause : Flow σ Unit).alone s = some ((), s) := rfl

theorem alone_untilReady (ready : σ → Bool) (s : σ) :
    (untilReady ready).alone s = if ready s then some ((), s) else none := by
  simp [untilReady, alone]

theorem alone_bind (flow : Flow σ α) (k : α → Flow σ β) (s : σ) :
    (flow.bind k).alone s = (flow.alone s).bind fun r => (k r.1).alone r.2 := by
  induction flow generalizing s with
  | done value => rfl
  | act change next ih => exact ih s (change s)
  | await ready limit next ih =>
      simp only [bind, alone, ih]
      split
      · rfl
      · split <;> rfl
  | fork rank child next ih => exact ih s

@[simp] theorem alone_sync_bind (run : StateM σ α) (k : α → Flow σ β) (s : σ) :
    ((sync run).bind k).alone s = (k (run s).1).alone (run s).2 := rfl

@[simp] theorem alone_read_bind (view : σ → α) (k : α → Flow σ β) (s : σ) :
    ((read view).bind k).alone s = (k (view s)).alone s := rfl

@[simp] theorem alone_pause_bind (k : Unit → Flow σ β) (s : σ) :
    (pause.bind k).alone s = (k ()).alone s := rfl

/-- A call that comes to its end comes through each of its parts. -/
theorem alone_bind_eq_some {flow : Flow σ α} {k : α → Flow σ β} {s u : σ} {value : β}
    (h : (flow.bind k).alone s = some (value, u)) :
    ∃ first t, flow.alone s = some (first, t) ∧ (k first).alone t = some (value, u) := by
  rw [alone_bind] at h
  obtain ⟨⟨first, t⟩, hflow, hk⟩ := Option.bind_eq_some_iff.mp h
  exact ⟨first, t, hflow, hk⟩

/-- A call that waits for the state goes on when the state is ready, and only then. -/
theorem alone_untilReady_eq_some {ready : σ → Bool} {s t : σ} {u : Unit}
    (h : (untilReady ready).alone s = some (u, t)) : ready s = true ∧ t = s := by
  rw [alone_untilReady] at h
  split at h
  next hready => exact ⟨hready, ((Prod.mk.inj (Option.some.inj h)).2).symm⟩
  · cases h

/-! ## What a call guarantees -/

/-- What every change of a flow is, the whole call is. -/
theorem Within.alone {R : σ → σ → Prop} (hrefl : ∀ s, R s s)
    (htrans : ∀ s t u, R s t → R t u → R s u) {flow : Flow σ α} (h : flow.Within R) {s t : σ}
    {value : α} (hend : flow.alone s = some (value, t)) : R s t := by
  induction flow generalizing s with
  | done last =>
      obtain ⟨-, rfl⟩ := Prod.mk.inj (Option.some.inj hend)
      exact hrefl s
  | act change next ih => exact htrans _ _ _ (h s).1 (ih s (h s).2 hend)
  | await ready limit next ih =>
      simp only [Flow.alone] at hend
      split at hend
      · exact ih true (h true) hend
      · split at hend
        · exact ih false (h false) hend
        · cases hend
  | fork rank child next ih => exact ih h.2 hend

/-! ## Turns -/

/-- What is left of a flow after a stretch comes to what the flow comes to. -/
theorem alone_stretch (flow : Flow σ α) (s : σ) :
    (flow.stretch s).rest.alone (flow.stretch s).state = flow.alone s := by
  induction flow generalizing s with
  | done value => rfl
  | act change next ih => exact ih s (change s)
  | await ready limit next ih => rfl
  | fork rank child next ih => exact ih s

/-- Nor does it matter that the wait before a turn is over. -/
theorem alone_wake {flow : Flow σ α} {s : σ} {since now : Nat}
    (h : flow.canGoOn now s (flow.waitEnd since) = true) :
    (flow.wake s).alone s = flow.alone s := by
  cases flow with
  | done value => rfl
  | act change next => rfl
  | fork rank child next => rfl
  | await ready limit next =>
      cases hready : ready s with
      | true => simp [wake, alone, hready]
      | false =>
          have hlimit : limit.isSome := by
            cases limit with
            | none => simp [canGoOn, waitEnd, hready] at h
            | some limit => rfl
          simp [wake, alone, hready, hlimit]

end Flow

namespace Interleaving.System

variable [Inhabited α] {S : System ι ε σ α}

/-- A move with which nothing happens but that a call goes on or time passes. -/
def OnlyOf (n : Nat) : Move ι ε → Prop
  | .turn m => m = n
  | .pass _ => True
  | .start _ => False
  | .outside _ => False

/-- What a call comes to does not change while only it goes on. -/
theorem alone_step {p : Pool ι σ α} {n since : Nat} {call : ι} {rest : Flow σ α}
    (hn : p.tasks[n]? = some (.of since call rest)) {move : Move ι ε} (hmove : OnlyOf n move) :
    ∃ since' rest', (S.step p move).tasks[n]? = some (.of since' call rest') ∧
      rest'.alone (S.step p move).state = rest.alone p.state := by
  cases move with
  | start _ => cases hmove
  | outside _ => cases hmove
  | pass time =>
      refine ⟨since, rest, ?_, ?_⟩ <;> simp only [step, Pool.pass] <;> split <;>
        first | exact hn | rfl
  | turn m =>
      obtain rfl : m = n := hmove
      have hlt : m < p.tasks.length := (List.getElem?_eq_some_iff.mp hn).1
      cases hready : (Task.of since call rest).isReady p.now p.state with
      | false =>
          have hidle : S.step p (.turn m) = p := by simp [step, Pool.turn, hn, hready]
          exact ⟨since, rest, by rw [hidle]; exact hn, by rw [hidle]⟩
      | true =>
          have hturn : S.step p (.turn m) =
              p.goneOn m call ((rest.wake p.state).stretch p.state) := turn_of_ready hn hready
          rw [hturn]
          exact ⟨p.now, _, turned_self hlt,
            (Flow.alone_stretch _ _).trans (Flow.alone_wake hready)⟩

/-- A call that has come to its end while nothing else went on has come to what it comes to
alone. -/
theorem alone_of_run {p : Pool ι σ α} {n since : Nat} {call : ι} {flow : Flow σ α}
    (hn : p.tasks[n]? = some (.of since call flow)) {moves : List (Move ι ε)}
    (hmoves : ∀ move ∈ moves, OnlyOf n move) {t : Task ι σ α} {value : α}
    (ht : (S.run p moves).tasks[n]? = some t) (hend : t.rest = .done value) :
    flow.alone p.state = some (value, (S.run p moves).state) := by
  induction moves generalizing p since flow with
  | nil =>
      rw [run_nil, hn, Option.some.injEq] at ht
      subst ht
      rw [show flow = .done value from hend]
      rfl
  | cons move moves ih =>
      obtain ⟨hmove, hmoves⟩ := List.forall_mem_cons.mp hmoves
      obtain ⟨since', rest', hn', halone⟩ := alone_step hn hmove
      rw [← halone]
      exact ih hn' hmoves ht

end Interleaving.System

end EditorHost
