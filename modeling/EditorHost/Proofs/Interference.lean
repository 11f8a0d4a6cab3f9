import EditorHost.Proofs.Guarantee

/-!
# What a flow comes to when others come between

A flow gives way to others during its waits only.  What they do then is not known, but for a
relation between the state that the flow left and the one that it finds again.  `Flow.Reaches` says
what the flow may come to under every such interference; it settles on a value if that is the only
one that it can end with.

## Contents

* `Flow.Reaches`, and `Flow.Reaches.wake` and `Flow.Reaches.stretch` for a turn.
* `Flow.Settles` says what becomes of a flow, whatever others do, and what it guarantees to them.
* `Flow.Prompt` says that its waits come to an end.
* `Flow.reaches_bind` for a flow in front of another, and `Flow.Ends` with the laws of its parts.
* Flows put together of others, as they take their turns.
-/

namespace EditorHost

variable {σ α β γ : Type}

namespace Flow

/-- What a flow that begins in a state comes to, and in which state, where others change the state
during its waits, in a way that it relies on. -/
inductive Reaches (rely : σ → σ → Prop) (flow : Flow σ α) (s : σ) : Flow σ α → σ → Prop
  | here : Reaches rely flow s flow s
  | act {change next t} (h : Reaches rely flow s (.act change next) t) :
      Reaches rely flow s (next t) (change t)
  | await {ready limit next t u} (h : Reaches rely flow s (.await ready limit next) t)
      (hrely : rely t u) (hready : limit = none → ready u = true) :
      Reaches rely flow s (next (ready u)) u
  | fork {rank child next t} (h : Reaches rely flow s (.fork rank child next) t) :
      Reaches rely flow s next t

/-- Whatever others do that it relies on, the flow can end with one value only; it makes changes of
one kind, and what it starts on the side makes changes of another kind. -/
structure Settles (rely guar side : σ → σ → Prop) (value : α) (flow : Flow σ α) (s : σ) :
    Prop where
  act : ∀ {change next t}, Reaches rely flow s (.act change next) t → guar t (change t)
  fork : ∀ {rank child next t}, Reaches rely flow s (.fork rank child next) t → child.Within side
  done : ∀ {v t}, Reaches rely flow s (.done v) t → v = value

/-- Whatever others do that it relies on, the flow does not have to wait where no time is set. -/
def Prompt (rely : σ → σ → Prop) (flow : Flow σ α) (s : σ) : Prop :=
  ∀ ready next t u, Reaches rely flow s (.await ready none next) t → rely t u → ready u = true

section Turn

variable {rely guar side : σ → σ → Prop} {value : α} {flow m : Flow σ α} {s t u : σ}

/-- A flow that can go on behind a wait. -/
theorem Reaches.wake {ready : σ → Bool} {limit : Option Nat} {next : Bool → Flow σ α}
    (h : Reaches rely flow s (.await ready limit next) t) (hrely : rely t u) {now since : Nat}
    (hready : (Flow.await ready limit next).canGoOn now u
      ((Flow.await ready limit next).waitEnd since) = true) :
    Reaches rely flow s ((Flow.await ready limit next).wake u) u := by
  refine h.await hrely fun hnone => ?_
  simpa [canGoOn, waitEnd, hnone] using hready

theorem Reaches.stretch (h : Reaches rely flow s m t) :
    Reaches rely flow s (m.stretch t).rest (m.stretch t).state := by
  induction m generalizing t with
  | done value => exact h
  | act change next ih => exact ih t h.act
  | await ready limit next ih => exact h
  | fork rank child next ih => exact ih h.fork

/-- What a settled flow does in one stretch. -/
theorem Settles.stretch (hsettles : flow.Settles rely guar side value s) (hrefl : ∀ s, guar s s)
    (htrans : ∀ s t u, guar s t → guar t u → guar s u) (h : Reaches rely flow s m t) :
    guar t (m.stretch t).state ∧ ∀ child ∈ (m.stretch t).started, child.Within side := by
  induction m generalizing t with
  | done value => exact ⟨hrefl t, fun child hchild => nomatch hchild⟩
  | act change next ih =>
      obtain ⟨hstate, hstarted⟩ := ih t h.act
      exact ⟨htrans _ _ _ (hsettles.act h) hstate, hstarted⟩
  | await ready limit next ih => exact ⟨hrefl t, fun child hchild => nomatch hchild⟩
  | fork rank child next ih =>
      obtain ⟨hstate, hstarted⟩ := ih h.fork
      exact ⟨hstate, List.forall_mem_cons.mpr ⟨hsettles.fork h, hstarted⟩⟩

end Turn

/-! ## Flows by their parts -/

section Parts

variable {rely guar side : σ → σ → Prop} {value v : α} {m : Flow σ α} {s t : σ}
  {change : σ → σ} {first : σ → Flow σ α} {ready : σ → Bool} {limit : Option Nat}
  {next : Bool → Flow σ α}

theorem reaches_done (h : Reaches rely (.done v) s m t) : m = .done v := by
  induction h with
  | here => rfl
  | act h ih => cases ih
  | await h hrely hready ih => cases ih
  | fork h ih => cases ih

theorem reaches_act (h : Reaches rely (.act change first) s m t) :
    m = .act change first ∧ t = s ∨ Reaches rely (first s) (change s) m t := by
  induction h with
  | here => exact .inl ⟨rfl, rfl⟩
  | act h ih =>
      rcases ih with ⟨heq, rfl⟩ | ih
      · cases heq
        exact .inr .here
      · exact .inr ih.act
  | await h hrely hready ih =>
      rcases ih with ⟨heq, -⟩ | ih
      · cases heq
      · exact .inr (ih.await hrely hready)
  | fork h ih =>
      rcases ih with ⟨heq, -⟩ | ih
      · cases heq
      · exact .inr ih.fork

theorem reaches_await (h : Reaches rely (.await ready limit next) s m t) :
    m = .await ready limit next ∧ t = s ∨
      ∃ u, rely s u ∧ Reaches rely (next (ready u)) u m t := by
  induction h with
  | here => exact .inl ⟨rfl, rfl⟩
  | act h ih =>
      rcases ih with ⟨heq, -⟩ | ⟨u, hrely, ih⟩
      · cases heq
      · exact .inr ⟨u, hrely, ih.act⟩
  | @await _ _ _ _ v h hrely hready ih =>
      rcases ih with ⟨heq, rfl⟩ | ⟨u, hrely', ih⟩
      · cases heq
        exact .inr ⟨v, hrely, .here⟩
      · exact .inr ⟨u, hrely', ih.await hrely hready⟩
  | fork h ih =>
      rcases ih with ⟨heq, -⟩ | ⟨u, hrely, ih⟩
      · cases heq
      · exact .inr ⟨u, hrely, ih.fork⟩

theorem settles_done (value : α) (s : σ) : (done value).Settles rely guar side value s where
  act h := nomatch reaches_done h
  fork h := nomatch reaches_done h
  done h := by
    cases reaches_done h
    rfl

theorem Settles.ofAct (hguar : guar s (change s))
    (h : (first s).Settles rely guar side value (change s)) :
    (Flow.act change first).Settles rely guar side value s where
  act hreaches := by
    rcases reaches_act hreaches with ⟨heq, rfl⟩ | hreaches
    · cases heq
      exact hguar
    · exact h.act hreaches
  fork hreaches := by
    rcases reaches_act hreaches with ⟨heq, -⟩ | hreaches
    · cases heq
    · exact h.fork hreaches
  done hreaches := by
    rcases reaches_act hreaches with ⟨heq, -⟩ | hreaches
    · cases heq
    · exact h.done hreaches

theorem Settles.ofAwait
    (h : ∀ u, rely s u → (next (ready u)).Settles rely guar side value u) :
    (Flow.await ready limit next).Settles rely guar side value s where
  act hreaches := by
    rcases reaches_await hreaches with ⟨heq, -⟩ | ⟨u, hrely, hreaches⟩
    · cases heq
    · exact (h u hrely).act hreaches
  fork hreaches := by
    rcases reaches_await hreaches with ⟨heq, -⟩ | ⟨u, hrely, hreaches⟩
    · cases heq
    · exact (h u hrely).fork hreaches
  done hreaches := by
    rcases reaches_await hreaches with ⟨heq, -⟩ | ⟨u, hrely, hreaches⟩
    · cases heq
    · exact (h u hrely).done hreaches

theorem prompt_done (value : α) (s : σ) : (done value).Prompt rely s :=
  fun _ _ _ _ h _ => nomatch reaches_done h

theorem Prompt.ofAct (h : (first s).Prompt rely (change s)) :
    (Flow.act change first).Prompt rely s := by
  intro ready next t u hreaches
  rcases reaches_act hreaches with ⟨heq, -⟩ | hreaches
  · cases heq
  · exact h _ _ _ _ hreaches

theorem Prompt.ofAwait (hready : limit = none → ∀ u, rely s u → ready u = true)
    (h : ∀ u, rely s u → (next (ready u)).Prompt rely u) :
    (Flow.await ready limit next).Prompt rely s := by
  intro ready' next' t u hreaches hrely
  rcases reaches_await hreaches with ⟨heq, rfl⟩ | ⟨v, hrely', hreaches⟩
  · cases heq
    exact hready rfl u hrely
  · exact h v hrely' _ _ _ _ hreaches hrely

end Parts

/-! ## Flows in front of others -/

section Front

variable {rely : σ → σ → Prop} {flow : Flow σ α} {k : α → Flow σ β} {rest : Flow σ β} {s u : σ}

/-- What a flow with another one behind it comes to: the first one is under way, or it has ended
and the second one is. -/
theorem reaches_bind (h : Reaches rely (flow.bind k) s rest u) :
    (∃ m, Reaches rely flow s m u ∧ rest = m.bind k) ∨
      ∃ value t, Reaches rely flow s (.done value) t ∧ Reaches rely (k value) t rest u := by
  induction h with
  | here => exact .inl ⟨flow, .here, rfl⟩
  | act h ih =>
      rcases ih with ⟨m, hm, heq⟩ | ⟨value, t, hdone, hk⟩
      · cases m with
        | act change next =>
            cases heq
            exact .inl ⟨_, hm.act, rfl⟩
        | done value =>
            have hk : k value = _ := heq.symm
            exact .inr ⟨value, _, hm, by rw [hk]; exact Reaches.here.act⟩
        | await ready limit next => cases heq
        | fork rank child next => cases heq
      · exact .inr ⟨value, t, hdone, hk.act⟩
  | await h hrely hready ih =>
      rcases ih with ⟨m, hm, heq⟩ | ⟨value, t, hdone, hk⟩
      · cases m with
        | await ready limit next =>
            cases heq
            exact .inl ⟨_, hm.await hrely hready, rfl⟩
        | done value =>
            have hk : k value = _ := heq.symm
            exact .inr ⟨value, _, hm, by rw [hk]; exact Reaches.here.await hrely hready⟩
        | act change next => cases heq
        | fork rank child next => cases heq
      · exact .inr ⟨value, t, hdone, hk.await hrely hready⟩
  | fork h ih =>
      rcases ih with ⟨m, hm, heq⟩ | ⟨value, t, hdone, hk⟩
      · cases m with
        | fork rank child next =>
            cases heq
            exact .inl ⟨_, hm.fork, rfl⟩
        | done value =>
            have hk : k value = _ := heq.symm
            exact .inr ⟨value, _, hm, by rw [hk]; exact Reaches.here.fork⟩
        | act change next => cases heq
        | await ready limit next => cases heq
      · exact .inr ⟨value, t, hdone, hk.fork⟩

theorem Reaches.trans {m n : Flow σ α} {t u : σ} (h : Reaches rely flow s m t)
    (h' : Reaches rely m t n u) : Reaches rely flow s n u := by
  induction h' with
  | here => exact h
  | act _ ih => exact ih.act
  | await _ hrely hready ih => exact ih.await hrely hready
  | fork _ ih => exact ih.fork

/-- A flow that is under way is under way with another one behind it. -/
theorem Reaches.before {m : Flow σ α} {t : σ} (h : Reaches rely flow s m t) (k : α → Flow σ β) :
    Reaches rely (flow.bind k) s (m.bind k) t := by
  induction h with
  | here => exact .here
  | act _ ih => exact ih.act
  | await _ hrely hready ih => exact ih.await hrely hready
  | fork _ ih => exact ih.fork

/-- What a flow makes of a state is of the kind that all its changes are of, if what others do
is. -/
theorem Within.reaches {R : σ → σ → Prop} (hrefl : ∀ s, R s s)
    (htrans : ∀ s t u, R s t → R t u → R s u) (hrely : ∀ s t, rely s t → R s t)
    (hflow : flow.Within R) {m : Flow σ α} {t : σ} (h : Reaches rely flow s m t) :
    R s t ∧ m.Within R := by
  induction h with
  | here => exact ⟨hrefl s, hflow⟩
  | act _ ih => exact ⟨htrans _ _ _ ih.1 (ih.2 _).1, (ih.2 _).2⟩
  | await _ hothers _ ih => exact ⟨htrans _ _ _ ih.1 (hrely _ _ hothers), ih.2 _⟩
  | fork _ ih => exact ⟨ih.1, ih.2.2⟩

end Front

/-! ## Ends of flows -/

/-- With what value a flow ends that begins in a state, and in which state. -/
def Ends (rely : σ → σ → Prop) (flow : Flow σ α) (s : σ) (value : α) (t : σ) : Prop :=
  Reaches rely flow s (.done value) t

section Ends

variable {rely : σ → σ → Prop} {s t : σ}

@[simp] theorem ends_done {value v : α} :
    (done v).Ends rely s value t ↔ value = v ∧ t = s := by
  constructor
  · rw [Ends]
    intro h
    generalize hm : (done value : Flow σ α) = m at h
    induction h with
    | here => exact ⟨done.inj hm, rfl⟩
    | act h => cases reaches_done h
    | await h => cases reaches_done h
    | fork h => cases reaches_done h
  · rintro ⟨rfl, rfl⟩
    exact .here

theorem ends_bind {flow : Flow σ α} {k : α → Flow σ β} {value : β} :
    (flow.bind k).Ends rely s value t ↔
      ∃ first u, flow.Ends rely s first u ∧ (k first).Ends rely u value t := by
  constructor
  · intro h
    rcases reaches_bind h with ⟨m, hm, heq⟩ | hrest
    · cases m with
      | done first =>
          have hk : k first = done value := heq.symm
          exact ⟨first, t, hm, by rw [hk]; exact Reaches.here⟩
      | act change next => cases heq
      | await ready limit next => cases heq
      | fork rank child next => cases heq
    · exact hrest
  · rintro ⟨first, u, hflow, hk⟩
    exact (Reaches.before hflow k).trans hk

/-- Others do not come between a computation and what follows it. -/
@[simp] theorem ends_sync_bind (run : StateM σ α) {k : α → Flow σ β} {value : β} :
    ((sync run).bind k).Ends rely s value t ↔ (k (run s).1).Ends rely (run s).2 value t := by
  constructor
  · intro h
    rcases reaches_act h with ⟨heq, -⟩ | h
    · cases heq
    · exact h
  · exact fun h => Reaches.here.act.trans h

@[simp] theorem ends_read_bind (view : σ → α) {k : α → Flow σ β} {value : β} :
    ((read view).bind k).Ends rely s value t ↔ (k (view s)).Ends rely s value t :=
  ends_sync_bind fun s => (view s, s)

end Ends

/-! ## Values that are passed on -/

section Value

variable {rely guar side : σ → σ → Prop} {value : α} {flow : Flow σ α} {rest : Flow σ β} {s t : σ}

/-- A flow whose value is passed on comes to what it comes to itself. -/
theorem reaches_bind_done {f : α → β} (h : Reaches rely (flow.bind fun v => .done (f v)) s rest t) :
    ∃ m, Reaches rely flow s m t ∧ rest = m.bind fun v => .done (f v) := by
  rcases reaches_bind h with hm | ⟨v, u, hdone, hrest⟩
  · exact hm
  · obtain rfl := reaches_done hrest
    obtain ⟨-, rfl⟩ := ends_done.mp hrest
    exact ⟨.done v, hdone, rfl⟩

theorem Settles.bind_done (h : flow.Settles rely guar side value s) (f : α → β) :
    (flow.bind fun v => .done (f v)).Settles rely guar side (f value) s where
  act hreaches := by
    obtain ⟨m, hm, heq⟩ := reaches_bind_done hreaches
    cases m <;> cases heq
    exact h.act hm
  fork hreaches := by
    obtain ⟨m, hm, heq⟩ := reaches_bind_done hreaches
    cases m <;> cases heq
    exact h.fork hm
  done hreaches := by
    obtain ⟨m, hm, heq⟩ := reaches_bind_done hreaches
    cases m <;> cases heq
    exact congrArg f (h.done hm)

theorem Prompt.bind_done (h : flow.Prompt rely s) (f : α → β) :
    (flow.bind fun v => .done (f v)).Prompt rely s := by
  intro ready next t u hreaches hrely
  obtain ⟨m, hm, heq⟩ := reaches_bind_done hreaches
  cases m <;> cases heq
  exact h _ _ _ _ hm hrely

end Value

/-! ## Stretches of flows that are put together -/

section Together

variable (s : σ)

@[simp] theorem stretch_sync_bind (run : StateM σ α) (k : α → Flow σ β) :
    ((sync run).bind k).stretch s = (k (run s).1).stretch (run s).2 := rfl

@[simp] theorem stretch_read_bind (view : σ → α) (k : α → Flow σ β) :
    ((read view).bind k).stretch s = (k (view s)).stretch s := rfl

@[simp] theorem wake_pause_bind (k : Unit → Flow σ β) : (pause.bind k).wake s = k () := rfl

@[simp] theorem wake_untilReady_bind (ready : σ → Bool) (k : Unit → Flow σ β) :
    ((untilReady ready).bind k).wake s = k () := rfl

/-- A flow takes its first stretch in front of another one as it does alone. -/
theorem stretch_bind (flow : Flow σ α) (k : α → Flow σ β) :
    let r := flow.stretch s
    let later := (r.rest.bind k).stretch r.state
    (flow.bind k).stretch s = { later with started := r.started ++ later.started } := by
  induction flow generalizing s with
  | done value => rfl
  | act change next ih => exact ih s (change s)
  | await ready limit next ih => rfl
  | fork rank child next ih => simp only [bind, stretch, ih, List.cons_append]

/-- A flow in front of one that begins with a wait. -/
theorem stretch_bind_of_waiting {k : α → Flow σ β}
    (hk : ∀ v, ∃ ready limit next, k v = .await ready limit next) (flow : Flow σ α) :
    (flow.bind k).stretch s =
      ⟨(flow.stretch s).state, (flow.stretch s).rest.bind k, (flow.stretch s).started⟩ := by
  induction flow generalizing s with
  | done v =>
      obtain ⟨ready, limit, next, heq⟩ := hk v
      simp only [bind, heq]
      exact congrArg (Stretch.mk s · []) heq.symm
  | act change next ih => exact ih s (change s)
  | await ready limit next ih => rfl
  | fork rank child next ih => simp only [bind, stretch, ih]

/-- Flows that are started one after another are started in one stretch. -/
theorem stretch_each_start (items : List α) (rank : Rank) (child : α → Flow σ β)
    (k : Unit → Flow σ γ) : ((each items fun item => start rank (child item)).bind k).stretch s =
      { (k ()).stretch s with
        started := (items.map fun item => (child item).strand) ++ ((k ()).stretch s).started } := by
  induction items with
  | nil => rfl
  | cons item items ih =>
      have hcons : ((each (item :: items) fun item => start rank (child item)).bind k).stretch s =
          (Flow.fork rank (child item).strand
            ((each items fun item => start rank (child item)).bind k)).stretch s := rfl
      rw [hcons, stretch, ih]
      rfl

/-- A flow that has been started, as a call under way. -/
theorem ofStrand_strand [Inhabited β] (flow : Flow σ α) :
    (Flow.ofStrand flow.strand : Flow σ β) = flow.bind fun _ => .done default := by
  rw [strand]
  induction flow with
  | done v => rfl
  | act change next ih => simp only [thenStrand, ofStrand, bind, ih]
  | await ready limit next ih => simp only [thenStrand, ofStrand, bind, ih]
  | fork rank child next ih => simp only [thenStrand, ofStrand, bind, ih]

end Together

end Flow

end EditorHost
