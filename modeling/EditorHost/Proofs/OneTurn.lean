import EditorHost.Proofs.Alone
import EditorHost.Schedule

/-!
# Work that is done in one turn

A flow that starts nothing on the side, and whose waits have no limits, goes on until it has to
wait for something that is not so.  If it comes to its end when nothing else runs, it therefore does
so in its first turn, and what a schedule makes of the state is what the flow makes of it alone
(`Schedule.runFlow_of_alone`).
-/

namespace EditorHost

variable {σ α β : Type}

namespace Flow

/-- Nothing is started on the side, and no wait has a limit. -/
def Unbranched : Flow σ α → Prop
  | done _ => True
  | act _ next => ∀ s, (next s).Unbranched
  | await _ limit next => limit = none ∧ ∀ met, (next met).Unbranched
  | fork .. => False

/-! ## Parts of flows -/

theorem Unbranched.bind {flow : Flow σ α} {k : α → Flow σ β} (hflow : flow.Unbranched)
    (hk : ∀ value, (k value).Unbranched) : (flow.bind k).Unbranched := by
  induction flow with
  | done value => exact hk value
  | act change next ih => exact fun s => ih s (hflow s)
  | await ready limit next ih => exact ⟨hflow.1, fun met => ih met (hflow.2 met)⟩
  | fork rank child next ih => exact hflow.elim

theorem unbranched_sync (run : StateM σ α) : (sync run).Unbranched := fun _ => trivial

theorem unbranched_read (view : σ → α) : (read view).Unbranched := fun _ => trivial

theorem unbranched_pause : (pause : Flow σ Unit).Unbranched := ⟨rfl, fun _ => trivial⟩

theorem unbranched_untilReady (ready : σ → Bool) : (untilReady ready).Unbranched :=
  ⟨rfl, fun _ => trivial⟩

theorem unbranched_mapEach {items : List α} {body : α → Flow σ β}
    (hbody : ∀ item, (body item).Unbranched) : (mapEach items body).Unbranched := by
  induction items with
  | nil => trivial
  | cons item rest ih => exact (hbody item).bind fun _ => ih.bind fun _ => trivial

end Flow

namespace Schedule

/-- A strand that begins with such a flow gets past it. -/
theorem advance_thenStrand {flow : Flow σ α} (h : flow.Unbranched) {s t : σ} {value : α}
    (hend : flow.alone s = some (value, t)) (k : α → Strand σ)
    (started : List (Rank × Strand σ)) :
    advance started (flow.thenStrand k) s = advance started (k value) t := by
  induction flow generalizing s with
  | done last =>
      obtain ⟨rfl, rfl⟩ := Prod.mk.inj (Option.some.inj hend)
      rfl
  | act change next ih => exact ih s (h s) hend
  | await ready limit next ih =>
      obtain ⟨rfl, hnext⟩ := h
      simp only [Flow.alone, Option.isSome_none, Bool.false_eq_true, if_false] at hend
      split at hend
      next hready =>
        rw [Flow.thenStrand, advance, if_pos hready]
        exact ih true (hnext true) hend
      · cases hend
  | fork rank child next ih => exact h.elim

/-- A main strand that can go on and then does not wait is through after its turn. -/
theorem run_main {strand : Strand σ} {s t : σ} {fuel now : Nat}
    (hready : isReady now s ⟨.main, none, strand⟩ = true)
    (hthrough : advance [] (wake s strand) s = ⟨t, .stop, []⟩) :
    run (fuel + 1) now [⟨.main, none, strand⟩] s = t := by
  have hturn : turn? now s [⟨.main, none, strand⟩] = some ([], ⟨.main, none, strand⟩, []) := by
    simp [turn?, pick, isDue, hready]
  rw [run, hturn]
  simp only [hthrough]

/-- What a schedule makes of the state is what the flow makes of it alone. -/
theorem runFlow_of_alone {flow : Flow σ α} (h : flow.Unbranched) {s t : σ} {value : α}
    (hend : flow.alone s = some (value, t)) : runFlow flow s = t := by
  have hthrough : advance [] flow.strand s = ⟨t, .stop, []⟩ :=
    advance_thenStrand h hend (fun _ => .stop) []
  have hturns : maxTurns = 999999999 + 1 := rfl
  rw [runFlow, hturns]
  cases flow with
  | done last =>
      obtain ⟨-, rfl⟩ := Prod.mk.inj (Option.some.inj hend)
      rfl
  | act change next => exact run_main rfl hthrough
  | await ready limit next =>
      obtain ⟨rfl, -⟩ := h
      -- The first wait is over, since it would not end otherwise.
      have hready : ready s = true := by
        cases hnot : ready s with
        | true => rfl
        | false => simp [Flow.alone, hnot] at hend
      refine run_main (by simp [isReady, hready]) ?_
      rw [← hthrough, Flow.strand, Flow.thenStrand, advance, if_pos hready, wake, hready]
  | fork rank child next => exact h.elim

end Schedule

end EditorHost
