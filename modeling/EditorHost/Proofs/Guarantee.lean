import EditorHost.Proofs.Interleaving

/-!
# What a flow guarantees

Calls that are under way at the same time see each other through the state only.  What one of them
may rely on is what the others guarantee: that every change that they make, whenever they make it
and whatever the state is then, is of a certain kind.  `Flow.Within` says so of a flow, and it holds
of a flow that is put together of parts of which it holds.

## Contents

* `Keeps` is the guarantee of a computation in one stretch.
* `Flow.Within`, closed under the ways to put flows together.
* `Flow.Within.stretch` is what one turn comes to, and `System.within_run` what a whole run does.
-/

namespace EditorHost

variable {σ τ α β : Type}

/-! ## Computations in one stretch -/

/-- What a computation makes of a state is related to the state before. -/
def Keeps (R : σ → σ → Prop) (run : StateM σ α) : Prop := ∀ s, R s (run s).2

section Keeps

variable {R : σ → σ → Prop}

theorem Keeps.pure (hrefl : ∀ s, R s s) (value : α) :
    Keeps R (Pure.pure value : StateM σ α) := hrefl

theorem Keeps.bind (htrans : ∀ s t u, R s t → R t u → R s u) {run : StateM σ α}
    {k : α → StateM σ β} (hrun : Keeps R run) (hk : ∀ value, Keeps R (k value)) :
    Keeps R (run >>= k) :=
  fun s => htrans s _ _ (hrun s) (hk (run s).1 (run s).2)

/-- What a computation begins with is not undone by what keeps it. -/
theorem Keeps.behind {E : σ → σ → Prop} (hbehind : ∀ s t u, E s t → R t u → E s u)
    {run : StateM σ α} {k : α → StateM σ β} {s : σ} (hrun : E s (run s).2)
    (hk : ∀ value, Keeps R (k value)) : E s ((run >>= k) s).2 :=
  hbehind s _ _ hrun (hk (run s).1 (run s).2)

/-- A loop keeps what one round of it keeps. -/
theorem Keeps.loop (hrefl : ∀ s, R s s) (htrans : ∀ s t u, R s t → R t u → R s u)
    (items : List α) {body : α → StateM σ β} (h : ∀ item, Keeps R (body item)) :
    Keeps R (forIn items PUnit.unit fun item _ => do
      let _ ← body item
      return ForInStep.yield PUnit.unit) := by
  induction items with
  | nil => exact .pure hrefl _
  | cons item items ih =>
      rw [List.forIn_cons]
      exact .bind htrans (.bind htrans (h item) fun _ => .pure hrefl _) fun next => by
        cases next with
        | done _ => exact .pure hrefl _
        | yield _ => exact ih

end Keeps

/-! ## Flows -/

/-- Every change that a strand makes relates the state before it to the state behind it. -/
def Strand.Within (R : σ → σ → Prop) : Strand σ → Prop
  | .stop => True
  | .act change next => ∀ s, R s (change s) ∧ (next s).Within R
  | .await _ _ next => ∀ met, (next met).Within R
  | .fork _ child next => child.Within R ∧ next.Within R

namespace Flow

/-- Every change that a flow makes, and every one that it starts, relates the state before it to the
state behind it. -/
def Within (R : σ → σ → Prop) : Flow σ α → Prop
  | done _ => True
  | act change next => ∀ s, R s (change s) ∧ (next s).Within R
  | await _ _ next => ∀ met, (next met).Within R
  | fork _ child next => child.Within R ∧ next.Within R

variable {R : σ → σ → Prop}

/-! ## Flows put together -/

theorem Within.bind {flow : Flow σ α} {k : α → Flow σ β} (hflow : flow.Within R)
    (hk : ∀ value, (k value).Within R) : (flow.bind k).Within R := by
  induction flow with
  | done value => exact hk value
  | act change next ih => exact fun s => ⟨(hflow s).1, ih s (hflow s).2⟩
  | await ready limit next ih => exact fun met => ih met (hflow met)
  | fork rank child next ih => exact ⟨hflow.1, ih hflow.2⟩

theorem within_mono_strand {R' : σ → σ → Prop} (h : ∀ s s', R s s' → R' s s') {strand : Strand σ}
    (hstrand : strand.Within R) : strand.Within R' := by
  induction strand with
  | stop => trivial
  | act change next ih => exact fun s => ⟨h _ _ (hstrand s).1, ih s (hstrand s).2⟩
  | await ready limit next ih => exact fun met => ih met (hstrand met)
  | fork rank child next ihchild ihnext => exact ⟨ihchild hstrand.1, ihnext hstrand.2⟩

theorem Within.mono {R' : σ → σ → Prop} {flow : Flow σ α} (hflow : flow.Within R)
    (h : ∀ s s', R s s' → R' s s') : flow.Within R' := by
  induction flow with
  | done value => trivial
  | act change next ih => exact fun s => ⟨h _ _ (hflow s).1, ih s (hflow s).2⟩
  | await ready limit next ih => exact fun met => ih met (hflow met)
  | fork rank child next ih => exact ⟨within_mono_strand h hflow.1, ih hflow.2⟩

theorem within_sync {run : StateM σ α} (h : Keeps R run) : (sync run).Within R :=
  fun s => ⟨h s, trivial⟩

theorem within_read (hrefl : ∀ s, R s s) (view : σ → α) : (read view).Within R :=
  fun s => ⟨hrefl s, trivial⟩

theorem Within.each {items : List α} {body : α → Flow σ Unit}
    (h : ∀ item ∈ items, (body item).Within R) : (Flow.each items body).Within R := by
  induction items with
  | nil => trivial
  | cons item items ih =>
      obtain ⟨hitem, hitems⟩ := List.forall_mem_cons.mp h
      exact hitem.bind fun _ => ih hitems

theorem Within.start {child : Flow σ α} (h : child.Within R) (rank : Rank) :
    (start rank child).Within R := by
  refine ⟨?_, trivial⟩
  rw [strand]
  induction child with
  | done value => trivial
  | act change next ih => exact fun s => ⟨(h s).1, ih s (h s).2⟩
  | await ready limit next ih => exact fun met => ih met (h met)
  | fork rank child next ih => exact ⟨h.1, ih h.2⟩

/-- What a strand does to a part of the state is seen from the whole. -/
theorem within_focus_strand {f : Focus σ τ} {Q : τ → τ → Prop}
    (h : ∀ s part, Q (f.get s) part → R s (f.set part s)) {strand : Strand τ}
    (hstrand : strand.Within Q) : (strand.focus f).Within R := by
  induction strand with
  | stop => trivial
  | act change next ih => exact fun s => ⟨h _ _ (hstrand _).1, ih _ (hstrand _).2⟩
  | await ready limit next ih => exact fun met => ih met (hstrand met)
  | fork rank child next ihchild ihnext => exact ⟨ihchild hstrand.1, ihnext hstrand.2⟩

theorem Within.focus {f : Focus σ τ} {Q : τ → τ → Prop}
    (h : ∀ s part, Q (f.get s) part → R s (f.set part s)) {flow : Flow τ α}
    (hflow : flow.Within Q) : (flow.focus f).Within R := by
  induction flow with
  | done value => trivial
  | act change next ih => exact fun s => ⟨h _ _ (hflow _).1, ih _ (hflow _).2⟩
  | await ready limit next ih => exact fun met => ih met (hflow met)
  | fork rank child next ih => exact ⟨within_focus_strand h hflow.1, ih hflow.2⟩

/-- A flow guarantees nothing of a kind that allows everything. -/
theorem within_true (flow : Flow σ α) : flow.Within fun _ _ => True := by
  have hstrand (strand : Strand σ) : strand.Within fun _ _ => True := by
    induction strand with
    | stop => trivial
    | act change next ih => exact fun s => ⟨trivial, ih s⟩
    | await ready limit next ih => exact ih
    | fork rank child next ihchild ihnext => exact ⟨ihchild, ihnext⟩
  induction flow with
  | done value => trivial
  | act change next ih => exact fun s => ⟨trivial, ih s⟩
  | await ready limit next ih => exact ih
  | fork rank child next ih => exact ⟨hstrand child, ih⟩

theorem Within.ofStrand [Inhabited α] {strand : Strand σ} (h : strand.Within R) :
    (Flow.ofStrand strand : Flow σ α).Within R := by
  induction strand with
  | stop => trivial
  | act change next ih => exact fun s => ⟨(h s).1, ih s (h s).2⟩
  | await ready limit next ih => exact fun met => ih met (h met)
  | fork rank child next ihchild ihnext => exact ⟨h.1, ihnext h.2⟩

/-! ## Turns -/

theorem Within.wake {flow : Flow σ α} (h : flow.Within R) (s : σ) : (flow.wake s).Within R := by
  cases flow with
  | done value => exact h
  | act change next => exact h
  | await ready limit next => exact h (ready s)
  | fork rank child next => exact h

/-- What a flow does in one stretch, and what is left of it. -/
theorem Within.stretch (hrefl : ∀ s, R s s) (htrans : ∀ s t u, R s t → R t u → R s u)
    {flow : Flow σ α} (h : flow.Within R) (s : σ) :
    R s (flow.stretch s).state ∧ (flow.stretch s).rest.Within R ∧
      ∀ child ∈ (flow.stretch s).started, child.Within R := by
  induction flow generalizing s with
  | done value => exact ⟨hrefl s, trivial, fun child hchild => by cases hchild⟩
  | act change next ih =>
      obtain ⟨hchange, hnext⟩ := h s
      obtain ⟨hstate, hrest⟩ := ih s hnext (change s)
      exact ⟨htrans _ _ _ hchange hstate, hrest⟩
  | await ready limit next ih => exact ⟨hrefl s, h, fun child hchild => by cases hchild⟩
  | fork rank child next ih =>
      obtain ⟨hstate, hrest, hstarted⟩ := ih h.2 s
      exact ⟨hstate, hrest, List.forall_mem_cons.mpr ⟨h.1, hstarted⟩⟩

end Flow

/-! ## Runs -/

namespace Interleaving.System

variable {ι ε : Type} [Inhabited α] {S : System ι ε σ α} {R : σ → σ → Prop}

section Turn

variable {tasks : List (Task ι σ α)} {now n : Nat} {call : ι} {r : Flow.Stretch σ α}

/-- What is left of calls is of a kind after a turn if that is so of what the turn leaves, of what
it starts, and of all other calls. -/
theorem within_turned (IsFine : Nat → Prop)
    (hothers : ∀ i t, i ≠ n → IsFine i → tasks[i]? = some t → t.rest.Within R)
    (hrest : IsFine n → r.rest.Within R) (hstarted : ∀ child ∈ r.started, child.Within R) {i : Nat}
    {t : Task ι σ α} (hi : IsFine i) (h : (tasks.set n (.of now call r.rest) ++
      r.started.map fun child => .of now call (.ofStrand child))[i]? = some t) :
    t.rest.Within R := by
  rw [List.getElem?_append] at h
  split at h
  · by_cases hin : i = n
    · subst hin
      obtain ⟨hlt, rfl⟩ := List.getElem?_eq_some_iff.mp h
      rw [List.getElem_set_self hlt]
      exact hrest hi
    · rw [List.getElem?_set_ne (Ne.symm hin)] at h
      exact hothers i t hin hi h
  · obtain ⟨child, hchild, rfl⟩ := List.mem_map.mp (List.mem_of_getElem? h)
    exact .ofStrand (hstarted child hchild)

end Turn

section Kinds

variable (hrefl : ∀ s, R s s) (htrans : ∀ s t u, R s t → R t u → R s u)

include hrefl htrans

/-- Where all flows are of a kind, so is what one move does, and what is left of the flows. -/
theorem within_step {p p' : Pool ι σ α} {move : Move ι ε} (hstep : S.Stepped p move p')
    (hstart : ∀ call, move = .start call → (S.flow call).Within R)
    (houtside : ∀ event, move = .outside event → ∀ s, R s (S.outside event s))
    (h : ∀ t ∈ p.tasks, t.rest.Within R) :
    R p.state p'.state ∧ ∀ t ∈ p'.tasks, t.rest.Within R := by
  cases hstep with
  | idle => exact ⟨hrefl _, h⟩
  | start call =>
      exact ⟨hrefl _, List.forall_mem_append.mpr
        ⟨h, List.forall_mem_singleton.mpr (hstart call rfl)⟩⟩
  | @turn n t r hn hstretch =>
      have hwake := (h t (List.mem_of_getElem? hn)).wake p.state
      obtain ⟨hstate, hrest, hstarted⟩ := hwake.stretch hrefl htrans p.state
      rw [hstretch] at hstate hrest hstarted
      refine ⟨hstate, fun t' ht' => ?_⟩
      obtain ⟨i, hi⟩ := List.mem_iff_getElem?.mp ht'
      exact within_turned (fun _ => True)
        (fun i t' _ _ ht' => h t' (List.mem_of_getElem? ht')) (fun _ => hrest) hstarted trivial hi
  | pass time => exact ⟨hrefl _, h⟩
  | outside event => exact ⟨houtside event rfl _, h⟩

/-- Where all flows are of a kind, so is what a run does. -/
theorem within_run {p : Pool ι σ α} {moves : List (Move ι ε)}
    (hstart : ∀ call, .start call ∈ moves → (S.flow call).Within R)
    (houtside : ∀ event, .outside event ∈ moves → ∀ s, R s (S.outside event s))
    (h : ∀ t ∈ p.tasks, t.rest.Within R) :
    R p.state (S.run p moves).state ∧ ∀ t ∈ (S.run p moves).tasks, t.rest.Within R := by
  induction moves generalizing p with
  | nil => exact ⟨hrefl _, h⟩
  | cons move moves ih =>
      obtain ⟨hstate, htasks⟩ := within_step hrefl htrans (S.step_cases p move)
        (fun call heq => hstart call (heq ▸ List.mem_cons_self))
        (fun event heq => houtside event (heq ▸ List.mem_cons_self)) h
      obtain ⟨hstate', htasks'⟩ := ih (fun call hcall => hstart call (List.mem_cons_of_mem _ hcall))
        (fun event hevent => houtside event (List.mem_cons_of_mem _ hevent)) htasks
      exact ⟨htrans _ _ _ hstate hstate', htasks'⟩

end Kinds

end Interleaving.System

end EditorHost
