import EditorHost.Proofs.Guarantee

/-!
# What a flow is for

A flow whose purpose is one change of a kind of its own takes effect with that change: before and
behind it there is nothing that others could tell from the flow not being there (`Flow.Once`).
Another flow is bound to be seen at a certain point before it ends, as long as it finds the state as
it expects it (`Flow.BringsAbout`).  When all calls are over, what they are for has come about.

## Contents

* `Flow.Once` and `Flow.BringsAbout`, each closed under the ways to put flows together, with what
  one turn comes to.
* `System.once_of_start`: the change of a call is made between its beginning and the end of all.
* `System.bringsAbout_step` says what a move makes of a call that is bound to bring something about.
-/

namespace EditorHost

variable {σ τ α β : Type}

namespace Flow

variable {R : σ → σ → Prop}

/-! ## One change of another kind -/

/-- Among the changes that a flow makes there is exactly one of a kind `E`; all others, and all that
it starts makes, are of a kind `R`. -/
def Once (R E : σ → σ → Prop) : Flow σ α → Prop
  | done _ => False
  | act change next => ∀ s,
      (R s (change s) ∧ (next s).Once R E) ∨ (E s (change s) ∧ (next s).Within R)
  | await _ _ next => ∀ met, (next met).Once R E
  | fork _ child next => child.Within R ∧ next.Once R E

variable {E : σ → σ → Prop}

theorem Once.bind {flow : Flow σ α} {k : α → Flow σ β} (hflow : flow.Once R E)
    (hk : ∀ value, (k value).Within R) : (flow.bind k).Once R E := by
  induction flow with
  | done value => cases hflow
  | act change next ih =>
      exact fun s => (hflow s).imp (fun h => ⟨h.1, ih s h.2⟩) fun h => ⟨h.1, h.2.bind hk⟩
  | await ready limit next ih => exact fun met => ih met (hflow met)
  | fork rank child next ih => exact ⟨hflow.1, ih hflow.2⟩

theorem Within.bind_once {flow : Flow σ α} {k : α → Flow σ β} (hflow : flow.Within R)
    (hk : ∀ value, (k value).Once R E) : (flow.bind k).Once R E := by
  induction flow with
  | done value => exact hk value
  | act change next ih => exact fun s => .inl ⟨(hflow s).1, ih s (hflow s).2⟩
  | await ready limit next ih => exact fun met => ih met (hflow met)
  | fork rank child next ih => exact ⟨hflow.1, ih hflow.2⟩

theorem once_sync {run : StateM σ α} (h : Keeps E run) : (sync run).Once R E :=
  fun s => .inr ⟨h s, trivial⟩

theorem Once.pause_bind {k : Unit → Flow σ β} (h : (k ()).Once R E) : (pause.bind k).Once R E :=
  fun _ => h

/-- A flow that begins with a computation makes its one change there or later. -/
theorem Once.sync_bind {run : StateM σ α} {k : α → Flow σ β}
    (h : ∀ s, (R s (run s).2 ∧ (k (run s).1).Once R E) ∨
      (E s (run s).2 ∧ (k (run s).1).Within R)) : ((sync run).bind k).Once R E := h

/-- What a flow does behind a look at the state may depend on what is seen. -/
theorem Once.read_bind {view : σ → α} {k : α → Flow σ β}
    (h : ∀ s, (R s s ∧ (k (view s)).Once R E) ∨ (E s s ∧ (k (view s)).Within R)) :
    ((read view).bind k).Once R E := h

theorem Once.focus {f : Focus σ τ} {Q F : τ → τ → Prop}
    (hR : ∀ s part, Q (f.get s) part → R s (f.set part s))
    (hE : ∀ s part, F (f.get s) part → E s (f.set part s))
    {flow : Flow τ α} (hflow : flow.Once Q F) : (flow.focus f).Once R E := by
  induction flow with
  | done value => cases hflow
  | act change next ih =>
      exact fun s => (hflow (f.get s)).imp (fun h => ⟨hR _ _ h.1, ih _ h.2⟩)
        fun h => ⟨hE _ _ h.1, h.2.focus hR⟩
  | await ready limit next ih => exact fun met => ih met (hflow met)
  | fork rank child next ih => exact ⟨within_focus_strand hR hflow.1, ih hflow.2⟩

theorem Once.wake {flow : Flow σ α} (h : flow.Once R E) (s : σ) : (flow.wake s).Once R E := by
  cases flow with
  | done value => exact h
  | act change next => exact h
  | await ready limit next => exact h (ready s)
  | fork rank child next => exact h

/-- In one stretch a flow either has not made its one change yet, or it has and nothing of that kind
is left. -/
theorem Once.stretch (hrefl : ∀ s, R s s) (htrans : ∀ s t u, R s t → R t u → R s u)
    (hbefore : ∀ s t u, R s t → E t u → E s u) (hbehind : ∀ s t u, E s t → R t u → E s u)
    {flow : Flow σ α} (h : flow.Once R E) (s : σ) :
    ((R s (flow.stretch s).state ∧ (flow.stretch s).rest.Once R E) ∨
      (E s (flow.stretch s).state ∧ (flow.stretch s).rest.Within R)) ∧
    ∀ child ∈ (flow.stretch s).started, child.Within R := by
  induction flow generalizing s with
  | done value => cases h
  | act change next ih =>
      rcases h s with ⟨hchange, hnext⟩ | ⟨hchange, hnext⟩
      · obtain ⟨hstate, hstarted⟩ := ih s hnext (change s)
        exact ⟨hstate.imp (.imp_left (htrans _ _ _ hchange)) (.imp_left (hbefore _ _ _ hchange)),
          hstarted⟩
      · -- The one change is made here, and all that follows is of the other kind.
        obtain ⟨hstate, hrest, hstarted⟩ := hnext.stretch hrefl htrans (change s)
        exact ⟨.inr ⟨hbehind _ _ _ hchange hstate, hrest⟩, hstarted⟩
  | await ready limit next ih => exact ⟨.inl ⟨hrefl s, h⟩, fun child hchild => by cases hchild⟩
  | fork rank child next ih =>
      obtain ⟨hstate, hstarted⟩ := ih h.2 s
      exact ⟨hstate, List.forall_mem_cons.mpr ⟨h.1, hstarted⟩⟩

/-- A flow whose one change is of the kind of all others as well guarantees that kind. -/
theorem Once.within {flow : Flow σ α} (h : flow.Once R E) (hkind : ∀ s t, E s t → R s t) :
    flow.Within R := by
  induction flow with
  | done value => trivial
  | act change next ih =>
      intro s
      rcases h s with ⟨hchange, hnext⟩ | ⟨hchange, hnext⟩
      · exact ⟨hchange, ih s hnext⟩
      · exact ⟨hkind _ _ hchange, hnext⟩
  | await ready limit next ih => exact fun met => ih met (h met)
  | fork rank child next ih => exact ⟨h.1, ih h.2⟩

/-- A flow that has its one change still to make guarantees less than one that has not, where the
change can be told from all others. -/
theorem Once.not_within {flow : Flow σ α} (h : flow.Once R E) {s : σ} (hs : ∀ t, E s t → ¬R s t) :
    ¬flow.Within R := by
  intro hwithin
  induction flow with
  | done value => exact h
  | act change next ih =>
      rcases h s with ⟨hchange, hnext⟩ | ⟨hchange, hnext⟩
      · exact ih s hnext (hwithin s).2
      · exact hs _ hchange (hwithin s).1
  | await ready limit next ih => exact ih true (h true) (hwithin true)
  | fork rank child next ih => exact ih h.2 hwithin.2

/-! ## Something to be brought about -/

/-- Whether a flow begins with a wait. -/
def waits : Flow σ α → Bool
  | await _ _ _ => true
  | _ => false

/-- As long as `I` holds whenever the flow goes on, it does not end before it has come to a wait
with `J`. -/
def BringsAbout (I J : σ → Prop) : Flow σ α → Prop
  | done _ => False
  | act change next => ∀ s, I s →
    (I (change s) ∧ (next s).BringsAbout I J) ∨ (J (change s) ∧ (next s).waits = true)
  | await _ _ next => ∀ met, (next met).BringsAbout I J
  | fork _ _ next => next.BringsAbout I J

theorem waits_bind {flow : Flow σ α} (h : flow.waits = true) (k : α → Flow σ β) :
    (flow.bind k).waits = true := by
  cases flow with
  | await ready limit next => rfl
  | done value => cases h
  | act change next => cases h
  | fork rank child next => cases h

theorem state_stretch_of_waits {flow : Flow σ α} (h : flow.waits = true) (s : σ) :
    (flow.stretch s).state = s := by
  cases flow with
  | await ready limit next => rfl
  | done value => cases h
  | act change next => cases h
  | fork rank child next => cases h

variable {I J : σ → Prop}

theorem BringsAbout.bind {flow : Flow σ α} (h : flow.BringsAbout I J) (k : α → Flow σ β) :
    (flow.bind k).BringsAbout I J := by
  induction flow with
  | done value => cases h
  | act change next ih =>
      exact fun s hI => (h s hI).imp (.imp_right (ih s)) (.imp_right fun hwaits =>
        waits_bind hwaits k)
  | await ready limit next ih => exact fun met => ih met (h met)
  | fork rank child next ih => exact ih h

theorem Within.bind_bringsAbout (hI : ∀ s s', R s s' → I s → I s') {flow : Flow σ α}
    {k : α → Flow σ β} (hflow : flow.Within R) (hk : ∀ value, (k value).BringsAbout I J) :
    (flow.bind k).BringsAbout I J := by
  induction flow with
  | done value => exact hk value
  | act change next ih =>
      exact fun s hs => .inl ⟨hI s _ (hflow s).1 hs, ih s (hflow s).2⟩
  | await ready limit next ih => exact fun met => ih met (hflow met)
  | fork rank child next ih => exact ih hflow.2

theorem BringsAbout.pause_bind {k : Unit → Flow σ β} (h : (k ()).BringsAbout I J) :
    (pause.bind k).BringsAbout I J :=
  fun _ => h

theorem BringsAbout.read_bind {view : σ → α} {k : α → Flow σ β}
    (h : ∀ s, I s → (k (view s)).BringsAbout I J) : ((read view).bind k).BringsAbout I J :=
  fun s hI => .inl ⟨hI, h s hI⟩

theorem BringsAbout.sync_bind {run : StateM σ α} {k : α → Flow σ β}
    (h : ∀ s, I s → (I (run s).2 ∧ (k (run s).1).BringsAbout I J) ∨
      (J (run s).2 ∧ (k (run s).1).waits = true)) : ((sync run).bind k).BringsAbout I J := h

/-- One round of a loop brings it about, and the others keep what is counted on. -/
theorem BringsAbout.each (hI : ∀ s s', R s s' → I s → I s') {items : List α}
    {body : α → Flow σ Unit} {item : α} (hitem : item ∈ items)
    (hbody : (body item).BringsAbout I J) (hothers : ∀ other, other ≠ item →
      (body other).Within R) : (Flow.each items body).BringsAbout I J := by
  induction items with
  | nil => cases hitem
  | cons first items ih =>
      by_cases hfirst : first = item
      · subst hfirst
        exact hbody.bind _
      · have hrest : item ∈ items :=
          (List.mem_cons.mp hitem).resolve_left fun heq => hfirst heq.symm
        exact (hothers first hfirst).bind_bringsAbout hI fun _ => ih hrest

theorem BringsAbout.wake {flow : Flow σ α} (h : flow.BringsAbout I J) (s : σ) :
    (flow.wake s).BringsAbout I J := by
  cases flow with
  | done value => exact h
  | act change next => exact h
  | await ready limit next => exact h (ready s)
  | fork rank child next => exact h

theorem BringsAbout.stretch {flow : Flow σ α} (h : flow.BringsAbout I J) {s : σ} (hI : I s) :
    (flow.stretch s).rest.BringsAbout I J ∨ J (flow.stretch s).state := by
  induction flow generalizing s with
  | done value => cases h
  | act change next ih =>
      rcases h s hI with ⟨hI', hnext⟩ | ⟨hJ, hwaits⟩
      · exact ih s hnext hI'
      · exact .inr ((state_stretch_of_waits hwaits (change s)).symm ▸ hJ)
  | await ready limit next ih => exact .inl h
  | fork rank child next ih => exact ih h hI

end Flow

/-! ## Runs -/

namespace Interleaving.System

variable {ι ε : Type} [Inhabited α] {S : System ι ε σ α} {R E : σ → σ → Prop}

section Kinds

variable (hrefl : ∀ s, R s s) (htrans : ∀ s t u, R s t → R t u → R s u)
  (hbefore : ∀ s t u, R s t → E t u → E s u) (hbehind : ∀ s t u, E s t → R t u → E s u)

include hrefl htrans hbefore hbehind

/-- One call has one change of another kind to make.  A move does not make it, or it does and all
that is left is of the first kind. -/
theorem once_step {p p' : Pool ι σ α} {move : Move ι ε} (hstep : S.Stepped p move p')
    (hstart : ∀ call, move = .start call → (S.flow call).Within R)
    (houtside : ∀ event, move = .outside event → ∀ s, R s (S.outside event s))
    {n : Nat} {t : Task ι σ α} (hn : p.tasks[n]? = some t) (hone : t.rest.Once R E)
    (hothers : ∀ m t', m ≠ n → p.tasks[m]? = some t' → t'.rest.Within R) :
    (R p.state p'.state ∧ (∃ t', p'.tasks[n]? = some t' ∧ t'.rest.Once R E) ∧
        ∀ m t', m ≠ n → p'.tasks[m]? = some t' → t'.rest.Within R) ∨
      (E p.state p'.state ∧ ∀ t' ∈ p'.tasks, t'.rest.Within R) := by
  have hlt : n < p.tasks.length := (List.getElem?_eq_some_iff.mp hn).1
  cases hstep with
  | idle => exact .inl ⟨hrefl _, ⟨t, hn, hone⟩, hothers⟩
  | start call =>
      refine .inl ⟨hrefl _, ⟨t, (List.getElem?_append_left hlt).trans hn, hone⟩, ?_⟩
      intro m t' hm ht'
      rw [List.getElem?_append] at ht'
      split at ht'
      · exact hothers m t' hm ht'
      · rw [List.mem_singleton.mp (List.mem_of_getElem? ht')]
        exact hstart call rfl
  | @turn m t₁ r hm hstretch =>
      by_cases hmn : m = n
      · subst hmn
        obtain rfl : t₁ = t := Option.some.inj (hm.symm.trans hn)
        obtain ⟨hstate, hstarted⟩ :=
          (hone.wake p.state).stretch hrefl htrans hbefore hbehind p.state
        rw [hstretch] at hstate hstarted
        rcases hstate with ⟨hstate, hrest⟩ | ⟨hstate, hrest⟩
        · exact .inl ⟨hstate, ⟨_, turned_self hlt, hrest⟩, fun i t' hi ht' =>
            within_turned (· ≠ m) (fun i t' hi _ => hothers i t' hi) (absurd rfl) hstarted hi ht'⟩
        · refine .inr ⟨hstate, fun t' ht' => ?_⟩
          obtain ⟨i, hi⟩ := List.mem_iff_getElem?.mp ht'
          exact within_turned (fun _ => True) (fun i t' hi _ => hothers i t' hi) (fun _ => hrest)
            hstarted trivial hi
      · have hwake := (hothers m t₁ hmn hm).wake p.state
        obtain ⟨hstate, hrest, hstarted⟩ := hwake.stretch hrefl htrans p.state
        rw [hstretch] at hstate hrest hstarted
        exact .inl ⟨hstate, ⟨t, (turned_of_ne hlt hmn).trans hn, hone⟩, fun i t' hi ht' =>
          within_turned (· ≠ n) (fun i t' _ hi => hothers i t' hi) (fun _ => hrest) hstarted hi ht'⟩
  | pass time => exact .inl ⟨hrefl _, ⟨t, hn, hone⟩, hothers⟩
  | outside event => exact .inl ⟨houtside event rfl _, ⟨t, hn, hone⟩, hothers⟩

/-- When all is over, the one change has been made. -/
theorem once_run {p : Pool ι σ α} {moves : List (Move ι ε)}
    (hstart : ∀ call, .start call ∈ moves → (S.flow call).Within R)
    (houtside : ∀ event, .outside event ∈ moves → ∀ s, R s (S.outside event s))
    {n : Nat} {t : Task ι σ α} (hn : p.tasks[n]? = some t) (hone : t.rest.Once R E)
    (hothers : ∀ m t', m ≠ n → p.tasks[m]? = some t' → t'.rest.Within R)
    (hover : ∀ t' ∈ (S.run p moves).tasks, t'.rest.isDone = true) :
    E p.state (S.run p moves).state := by
  induction moves generalizing p t with
  | nil =>
      obtain ⟨value, hdone⟩ := Flow.eq_done_of_isDone (hover t (List.mem_of_getElem? hn))
      rw [hdone] at hone
      cases hone
  | cons move moves ih =>
      have hstart' (call : ι) (hcall : .start call ∈ moves) : (S.flow call).Within R :=
        hstart call (List.mem_cons_of_mem _ hcall)
      have houtside' (event : ε) (hevent : .outside event ∈ moves) (s : σ) :
          R s (S.outside event s) :=
        houtside event (List.mem_cons_of_mem _ hevent) s
      rcases once_step hrefl htrans hbefore hbehind (S.step_cases p move)
        (fun call heq => hstart call (heq ▸ List.mem_cons_self))
        (fun event heq => houtside event (heq ▸ List.mem_cons_self)) hn hone hothers with
        ⟨hstate, ⟨t', hn', hone'⟩, hothers'⟩ | ⟨hstate, hall⟩
      · exact hbefore _ _ _ hstate (ih hstart' houtside' hn' hone' hothers' hover)
      · exact hbehind _ _ _ hstate (within_run hrefl htrans hstart' houtside' hall).1

/-- When all is over, a call that began somewhere in a run has made its one change. -/
theorem once_of_start {s : σ} {earlier later : List (Move ι ε)} {call : ι}
    (hcall : (S.flow call).Once R E)
    (hstart : ∀ other, .start other ∈ earlier ++ later → (S.flow other).Within R)
    (houtside : ∀ event, .outside event ∈ earlier ++ later → ∀ s, R s (S.outside event s))
    (hover : ∀ t ∈ (S.run { state := s } (earlier ++ .start call :: later)).tasks,
      t.rest.isDone = true) :
    E (S.run { state := s } earlier).state
      (S.run { state := s } (earlier ++ .start call :: later)).state := by
  obtain ⟨-, htasks⟩ := within_run (S := S) (p := { state := s }) hrefl htrans
    (fun other h => hstart other (List.mem_append_left _ h))
    (fun event h => houtside event (List.mem_append_left _ h)) fun _ ht => nomatch ht
  rw [run_append, run_cons] at hover ⊢
  refine once_run (p := S.step (S.run { state := s } earlier) (.start call)) hrefl htrans hbefore
    hbehind (fun other h => hstart other (List.mem_append_right _ h))
    (fun event h => houtside event (List.mem_append_right _ h))
    List.getElem?_concat_length hcall (fun m t hm ht => ?_) hover
  have hlt : m < (S.run { state := s } earlier).tasks.length := by
    have hlength := (List.getElem?_eq_some_iff.mp ht).1
    simp only [step, List.length_append, List.length_singleton] at hlength
    omega
  exact htasks t (List.mem_of_getElem? ((List.getElem?_append_left hlt).symm.trans ht))

end Kinds

/-- What a call is bound to bring about is seen behind a move, or still to come. -/
theorem bringsAbout_step {I J : σ → Prop} {p p' : Pool ι σ α} {move : Move ι ε}
    (hstep : S.Stepped p move p') (hI : I p.state) {n : Nat} {t : Task ι σ α}
    (hn : p.tasks[n]? = some t) (h : t.rest.BringsAbout I J) :
    J p'.state ∨ ∃ t', p'.tasks[n]? = some t' ∧ t'.rest.BringsAbout I J := by
  have hlt : n < p.tasks.length := (List.getElem?_eq_some_iff.mp hn).1
  cases hstep with
  | idle => exact .inr ⟨t, hn, h⟩
  | start call => exact .inr ⟨t, (List.getElem?_append_left hlt).trans hn, h⟩
  | @turn m t₁ r hm hstretch =>
      by_cases hmn : m = n
      · subst hmn
        obtain rfl : t₁ = t := Option.some.inj (hm.symm.trans hn)
        have hgone := (h.wake p.state).stretch hI
        rw [hstretch] at hgone
        exact hgone.symm.imp_right fun hrest => ⟨_, turned_self hlt, hrest⟩
      · exact .inr ⟨t, (turned_of_ne hlt hmn).trans hn, h⟩
  | pass time => exact .inr ⟨t, hn, h⟩
  | outside event => exact .inr ⟨t, hn, h⟩

end Interleaving.System

end EditorHost
