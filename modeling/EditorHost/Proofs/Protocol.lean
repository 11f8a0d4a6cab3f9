import EditorHost.Proofs.Guarantee
import EditorHost.Proofs.Uninterrupted

/-!
# Calls that go by rules

What a call guarantees the others often depends on how far it has come: who has waited for its turn
may do what nobody else may.  A protocol gives every call a place.  It says what a call at a place
can rely on, what it may do there, and to which place it comes by that.  What holds of a state and
of the places of all calls under way, whenever one of them goes by the rules, then holds along every
run of calls that go by the rules.

## Contents

* `Protocol`, and `Flow.Follows` for a flow that goes by its rules from a place on, with one lemma
  for each way to put flows together.
* `Protocol.Goes` is what a call that follows the rules does in one stretch
  (`Flow.Follows.stretch`).
* `Protocol.Governs` says that all calls under way go by the rules; every move keeps it
  (`Governs.step`), and so every run does (`Governs.run`).
-/

namespace EditorHost

open Interleaving (Move Pool System Task)

variable {ι ε σ κ α β : Type}

/-- Rules for calls that are under way at the same time. -/
structure Protocol (ι σ κ : Type) where
  /-- What a call at a place can rely on. -/
  Knows : ι → κ → σ → Prop
  /-- What a call at a place may make of a state, and the place to which it comes by that. -/
  May : ι → κ → σ → κ → σ → Prop
  /-- The place to which a call may come when a wait of it ends. -/
  Wakes : ι → κ → σ → κ → Prop
  first : ι → κ
  /-- Where work begins that a call starts on the side. -/
  home : κ
  /-- Where a call may end. -/
  IsOut : κ → Prop

variable (P : Protocol ι σ κ) (c : ι)

/-- From a place and a state on, a strand goes by the rules. -/
def Strand.Follows : Strand σ → κ → σ → Prop
  | .stop, k, _ => P.IsOut k
  | .act change next, k, s => ∃ k', P.May c k s k' (change s) ∧ (next s).Follows k' (change s)
  | .await ready limit next, k, _ => ∀ s, P.Knows c k s → (limit = none → ready s = true) →
    ∃ k', P.Wakes c k s k' ∧ (next (ready s)).Follows k' s
  | .fork _ child next, k, s =>
    (∀ s, P.Knows c P.home s → child.Follows P.home s) ∧ next.Follows k s

/-- From a place and a state on, a flow goes by the rules, and when it ends its value and its place
are as they should be. -/
def Flow.Follows (Ends : α → κ → Prop) : Flow σ α → κ → σ → Prop
  | .done value, k, _ => Ends value k
  | .act change next, k, s => ∃ k', P.May c k s k' (change s) ∧ (next s).Follows Ends k' (change s)
  | .await ready limit next, k, _ => ∀ s, P.Knows c k s → (limit = none → ready s = true) →
    ∃ k', P.Wakes c k s k' ∧ (next (ready s)).Follows Ends k' s
  | .fork _ child next, k, s =>
    (∀ s, P.Knows c P.home s → child.Follows P c P.home s) ∧ next.Follows Ends k s

/-- Changes of a kind, and waits, are allowed at places of a kind, and lead to such places. -/
structure Protocol.Allows (P : Protocol ι σ κ) (c : ι) (IsFine : κ → Prop) (R : σ → σ → Prop) :
    Prop where
  may : ∀ k s s', IsFine k → R s s' → ∃ k', IsFine k' ∧ P.May c k s k' s'
  wakes : ∀ k s, IsFine k → P.Knows c k s → ∃ k', IsFine k' ∧ P.Wakes c k s k'

/-- Every change that a flow makes is of one kind, and every one that is made by what it starts is
of another kind. -/
def Flow.WithinApart (R R' : σ → σ → Prop) : Flow σ α → Prop
  | done _ => True
  | act change next => ∀ s, R s (change s) ∧ (next s).WithinApart R R'
  | await _ _ next => ∀ met, (next met).WithinApart R R'
  | fork _ child next => child.Within R' ∧ next.WithinApart R R'

theorem Flow.Within.apart {R : σ → σ → Prop} {flow : Flow σ α} (h : flow.Within R) :
    flow.WithinApart R R := by
  induction flow with
  | done value => trivial
  | act change next ih => exact fun s => ⟨(h s).1, ih s (h s).2⟩
  | await ready limit next ih => exact fun met => ih met (h met)
  | fork rank child next ih => exact ⟨h.1, ih h.2⟩

theorem Flow.WithinApart.mono {R R' Q Q' : σ → σ → Prop} {flow : Flow σ α}
    (h : flow.WithinApart R R') (hmain : ∀ s s', R s s' → Q s s')
    (haside : ∀ s s', R' s s' → Q' s s') : flow.WithinApart Q Q' := by
  induction flow with
  | done value => trivial
  | act change next ih => exact fun s => ⟨hmain _ _ (h s).1, ih s (h s).2⟩
  | await ready limit next ih => exact fun met => ih met (h met)
  | fork rank child next ih => exact ⟨within_mono_strand haside h.1, ih h.2⟩

theorem Flow.WithinApart.within {R : σ → σ → Prop} {flow : Flow σ α}
    (h : flow.WithinApart R R) : flow.Within R := by
  induction flow with
  | done value => trivial
  | act change next ih => exact fun s => ⟨(h s).1, ih s (h s).2⟩
  | await ready limit next ih => exact fun met => ih met (h met)
  | fork rank child next ih => exact ⟨h.1, ih h.2⟩

namespace Flow

variable {P c} {Ends : α → κ → Prop} {k k' : κ} {s : σ}

/-! ## Flows put together -/

theorem Follows.bind {flow : Flow σ α} {next : α → Flow σ β} {Ends' : β → κ → Prop}
    (h : flow.Follows P c Ends k s)
    (hnext : ∀ value k s, Ends value k → (next value).Follows P c Ends' k s) :
    (flow.bind next).Follows P c Ends' k s := by
  induction flow generalizing k s with
  | done value => exact hnext value k s h
  | act change rest ih =>
      obtain ⟨k', hmay, hrest⟩ := h
      exact ⟨k', hmay, ih s hrest⟩
  | await ready limit rest ih =>
      intro s' hknows hready
      obtain ⟨k', hwakes, hrest⟩ := h s' hknows hready
      exact ⟨k', hwakes, ih (ready s') hrest⟩
  | fork rank child rest ih => exact ⟨h.1, ih h.2⟩

theorem Follows.mono {flow : Flow σ α} {Ends' : α → κ → Prop} (h : flow.Follows P c Ends k s)
    (hends : ∀ value k, Ends value k → Ends' value k) : flow.Follows P c Ends' k s := by
  have hbind : (flow.bind done).Follows P c Ends' k s :=
    h.bind fun value k _ hvalue => hends value k hvalue
  rwa [bind_done] at hbind

theorem follows_pause {next : Unit → Flow σ α} (h : ∀ s, P.Knows c k s →
    ∃ k', P.Wakes c k s k' ∧ (next ()).Follows P c Ends k' s) :
    (pause.bind next).Follows P c Ends k s :=
  fun s hknows _ => h s hknows

theorem follows_untilReady {ready : σ → Bool} {next : Unit → Flow σ α}
    (h : ∀ s, P.Knows c k s → ready s = true →
      ∃ k', P.Wakes c k s k' ∧ (next ()).Follows P c Ends k' s) :
    ((untilReady ready).bind next).Follows P c Ends k s :=
  fun s hknows hready => h s hknows (hready rfl)

theorem follows_sync {run : StateM σ β} {next : β → Flow σ α}
    (hmay : P.May c k s k' (run s).2) (h : (next (run s).1).Follows P c Ends k' (run s).2) :
    ((sync run).bind next).Follows P c Ends k s :=
  ⟨k', hmay, h⟩

theorem follows_read {view : σ → β} {next : β → Flow σ α} (hmay : P.May c k s k' s)
    (h : (next (view s)).Follows P c Ends k' s) : ((read view).bind next).Follows P c Ends k s :=
  ⟨k', hmay, h⟩

theorem Follows.strand {flow : Flow σ α} (h : flow.Follows P c (fun _ k => P.IsOut k) k s) :
    flow.strand.Follows P c k s := by
  rw [Flow.strand]
  induction flow generalizing k s with
  | done value => exact h
  | act change next ih =>
      obtain ⟨k', hmay, hnext⟩ := h
      exact ⟨k', hmay, ih s hnext⟩
  | await ready limit next ih =>
      intro s' hknows hready
      obtain ⟨k', hwakes, hnext⟩ := h s' hknows hready
      exact ⟨k', hwakes, ih (ready s') hnext⟩
  | fork rank child next ih => exact ⟨h.1, ih h.2⟩

/-- A loop each of whose rounds leads from a place of a kind to one of that kind. -/
theorem follows_each {items : List β} {body : β → Flow σ Unit} {IsFine : κ → Prop}
    (h : ∀ item k s, IsFine k → (body item).Follows P c (fun _ k => IsFine k) k s)
    (hk : IsFine k) : (Flow.each items body).Follows P c (fun _ k => IsFine k) k s := by
  induction items generalizing k s with
  | nil => exact hk
  | cons item items ih => exact (h item k s hk).bind fun _ k s hk => ih hk

theorem Follows.ofStrand [Inhabited α] {strand : Strand σ} (h : strand.Follows P c k s) :
    (Flow.ofStrand strand : Flow σ α).Follows P c (fun _ k => P.IsOut k) k s := by
  induction strand generalizing k s with
  | stop => exact h
  | act change next ih =>
      obtain ⟨k', hmay, hnext⟩ := h
      exact ⟨k', hmay, ih s hnext⟩
  | await ready limit next ih =>
      intro s' hknows hready
      obtain ⟨k', hwakes, hnext⟩ := h s' hknows hready
      exact ⟨k', hwakes, ih (ready s') hnext⟩
  | fork rank child next _ ih => exact ⟨h.1, ih h.2⟩

/-! ## Flows that stay where they are -/

theorem within_follows_strand {R : σ → σ → Prop} {strand : Strand σ} (h : strand.Within R)
    (hhome : P.Allows c (· = P.home) R) (hout : P.IsOut P.home) :
    strand.Follows P c P.home s := by
  induction strand generalizing s with
  | stop => exact hout
  | act change next ih =>
      obtain ⟨k', rfl, hmay⟩ := hhome.may P.home s _ rfl (h s).1
      exact ⟨P.home, hmay, ih s (h s).2⟩
  | await ready limit next ih =>
      intro s' hknows _
      obtain ⟨k', rfl, hwakes⟩ := hhome.wakes P.home s' rfl hknows
      exact ⟨P.home, hwakes, ih (ready s') (h (ready s'))⟩
  | fork rank child next ihchild ihnext => exact ⟨fun s' _ => ihchild h.1, ihnext h.2⟩

/-- A flow all of whose changes are of a kind stays where changes of that kind are allowed. -/
theorem WithinApart.follows {R R' : σ → σ → Prop} {IsFine : κ → Prop} {flow : Flow σ α}
    (h : flow.WithinApart R R') (hfine : P.Allows c IsFine R)
    (hhome : P.Allows c (· = P.home) R') (hout : P.IsOut P.home) (hk : IsFine k) :
    flow.Follows P c (fun _ k' => IsFine k') k s := by
  induction flow generalizing k s with
  | done value => exact hk
  | act change next ih =>
      obtain ⟨k', hk', hmay⟩ := hfine.may k s _ hk (h s).1
      exact ⟨k', hmay, ih s (h s).2 hk'⟩
  | await ready limit next ih =>
      intro s' hknows _
      obtain ⟨k', hk', hwakes⟩ := hfine.wakes k s' hk hknows
      exact ⟨k', hwakes, ih (ready s') (h (ready s')) hk'⟩
  | fork rank child next ih => exact ⟨fun s' _ => within_follows_strand h.1 hhome hout, ih h.2 hk⟩

theorem Within.follows {R : σ → σ → Prop} {IsFine : κ → Prop} {flow : Flow σ α}
    (h : flow.Within R) (hfine : P.Allows c IsFine R) (hhome : P.Allows c (· = P.home) R)
    (hout : P.IsOut P.home) (hk : IsFine k) : flow.Follows P c (fun _ k' => IsFine k') k s :=
  h.apart.follows hfine hhome hout hk

end Flow

/-! ## Turns -/

namespace Protocol

variable {P c}

/-- What a call that goes by the rules does, and where it comes to, as long as it does not wait. -/
inductive Goes (P : Protocol ι σ κ) (c : ι) : κ → σ → κ → σ → Prop
  | rest (k : κ) (s : σ) : Goes P c k s k s
  | on {k k₁ k' : κ} {s s₁ s' : σ} (hmay : P.May c k s k₁ s₁) (h : Goes P c k₁ s₁ k' s') :
      Goes P c k s k' s'

end Protocol

namespace Flow

variable {P c} {k : κ} {s : σ}

/-- A flow that waits or is over goes by the rules whatever the state is. -/
theorem Follows.of_atRest {flow : Flow σ α} (hrest : flow.atRest = true)
    (h : flow.Follows P c (fun _ k => P.IsOut k) k s) (s' : σ) :
    flow.Follows P c (fun _ k => P.IsOut k) k s' := by
  cases flow with
  | done value => exact h
  | await ready limit next => exact h
  | act change next => cases hrest
  | fork rank child next => cases hrest

theorem Follows.stretch {Ends : α → κ → Prop} {flow : Flow σ α}
    (h : flow.Follows P c Ends k s) : ∃ k', P.Goes c k s k' (flow.stretch s).state ∧
      (flow.stretch s).rest.Follows P c Ends k' (flow.stretch s).state ∧
      ∀ child ∈ (flow.stretch s).started, ∀ s, P.Knows c P.home s →
        child.Follows P c P.home s := by
  induction flow generalizing k s with
  | done value => exact ⟨k, .rest k s, h, fun child hchild => by cases hchild⟩
  | act change next ih =>
      obtain ⟨k₁, hmay, hnext⟩ := h
      obtain ⟨k', hgoes, hrest, hstarted⟩ := ih s hnext
      exact ⟨k', .on hmay hgoes, hrest, hstarted⟩
  | await ready limit next ih => exact ⟨k, .rest k s, h, fun child hchild => by cases hchild⟩
  | fork rank child next ih =>
      obtain ⟨k', hgoes, hrest, hstarted⟩ := ih h.2
      exact ⟨k', hgoes, hrest, List.forall_mem_cons.mpr ⟨h.1, hstarted⟩⟩

end Flow

namespace Protocol

/-! ## All calls under way -/

variable {P} {Sound : σ → List (ι × κ) → Prop} {l : List (ι × κ)} {c : ι} {k k' : κ} {s s' : σ}

/-- What holds of a state and of all calls under way, each with its place, holds still after a call
has gone by the rules.  Some rules count on a state as it is expected to be between turns. -/
structure Keeps (P : Protocol ι σ κ) (Expected : σ → Prop) (Sound : σ → List (ι × κ) → Prop) :
    Prop where
  knows : ∀ {s l c k}, Sound s l → (c, k) ∈ l → P.Knows c k s
  may : ∀ {s s' l n c k k'}, Sound s l → l[n]? = some (c, k) → P.May c k s k' s' →
    Sound s' (l.set n (c, k'))
  wakes : ∀ {s l n c k k'}, Sound s l → Expected s → l[n]? = some (c, k) → P.Wakes c k s k' →
    Sound s (l.set n (c, k'))
  start : ∀ {s l c k}, Sound s l → k = P.first c ∨ k = P.home → Sound s (l ++ [(c, k)])

theorem Keeps.goes {Expected : σ → Prop} (hP : P.Keeps Expected Sound) (h : Sound s l) {n : Nat}
    (hn : l[n]? = some (c, k)) (hgoes : P.Goes c k s k' s') : Sound s' (l.set n (c, k')) := by
  induction hgoes generalizing l with
  | rest k s =>
      obtain ⟨hlt, hentry⟩ := List.getElem?_eq_some_iff.mp hn
      rw [← hentry, List.set_getElem_self hlt]
      exact h
  | @on k k₁ k' s s₁ s' hmay hgoes ih =>
      have hlt : n < l.length := (List.getElem?_eq_some_iff.mp hn).1
      have hnext := ih (hP.may h hn hmay) (List.getElem?_set_self hlt)
      rwa [List.set_set] at hnext

theorem Keeps.starts {Expected : σ → Prop} (hP : P.Keeps Expected Sound) (h : Sound s l)
    (calls : List ι) : Sound s (l ++ calls.map fun c => (c, P.home)) := by
  induction calls generalizing l with
  | nil => simpa using h
  | cons c calls ih =>
      have hone := ih (hP.start h (.inr rfl) : Sound s (l ++ [(c, P.home)]))
      rwa [List.append_assoc] at hone

/-- Calls under way, each at a place from which it goes by the rules. -/
structure Governs (P : Protocol ι σ κ) (Sound : σ → List (ι × κ) → Prop) (p : Pool ι σ α)
    (entries : List (Task ι σ α × κ)) : Prop where
  tasks : p.tasks = entries.map Prod.fst
  timely : ∀ e ∈ entries, ∃ since, e.1.deadline = e.1.rest.waitEnd since
  follows : ∀ e ∈ entries, ∀ s, P.Knows e.1.call e.2 s →
    e.1.rest.Follows P e.1.call (fun _ k => P.IsOut k) e.2 s
  sound : Sound p.state (entries.map fun e => (e.1.call, e.2))

variable {S : System ι ε σ α} {p : Pool ι σ α} {entries : List (Task ι σ α × κ)}

theorem governs_nil (h : Sound s []) : P.Governs Sound ({ state := s } : Pool ι σ α) [] :=
  ⟨rfl, fun _ he => (nomatch he), fun _ he => (nomatch he), h⟩

theorem Governs.start {Expected : σ → Prop} (hP : P.Keeps Expected Sound)
    (h : P.Governs Sound p entries) {flow : Flow σ α} (hflow : ∀ s, P.Knows c (P.first c) s →
      flow.Follows P c (fun _ k => P.IsOut k) (P.first c) s) :
    P.Governs Sound { p with tasks := p.tasks ++ [.of p.now c flow] }
      (entries ++ [(.of p.now c flow, P.first c)]) := by
  refine ⟨by simp [h.tasks], ?_, ?_, ?_⟩
  · refine List.forall_mem_append.mpr ⟨h.timely, List.forall_mem_singleton.mpr ⟨p.now, rfl⟩⟩
  · exact List.forall_mem_append.mpr ⟨h.follows, List.forall_mem_singleton.mpr hflow⟩
  · simpa [Task.of] using hP.start h.sound (.inl rfl)

theorem Governs.outside (h : P.Governs Sound p entries)
    (hs : ∀ l, Sound p.state l → Sound s l) : P.Governs Sound { p with state := s } entries :=
  ⟨h.tasks, h.timely, h.follows, hs _ h.sound⟩

theorem Governs.pass (h : P.Governs Sound p entries) (time : Nat) :
    P.Governs Sound { p with now := time } entries :=
  ⟨h.tasks, h.timely, h.follows, h.sound⟩

/-- A call that can take a turn may leave its place when its wait ends. -/
theorem Governs.wake (h : P.Governs Sound p entries) {t : Task ι σ α} (ht : (t, k) ∈ entries)
    (hknows : P.Knows t.call k p.state) (hready : t.isReady p.now p.state = true) :
    ∃ k₁, (k₁ = k ∨ P.Wakes t.call k p.state k₁) ∧
      (t.rest.wake p.state).Follows P t.call (fun _ k => P.IsOut k) k₁ p.state := by
  have hfollows := h.follows _ ht p.state hknows
  obtain ⟨since, hdeadline⟩ := h.timely _ ht
  obtain ⟨call, deadline, rest⟩ := t
  cases rest with
  | done value => exact ⟨k, .inl rfl, hfollows⟩
  | act change next => exact ⟨k, .inl rfl, hfollows⟩
  | fork rank child next => exact ⟨k, .inl rfl, hfollows⟩
  | await ready limit next =>
      -- A wait without a limit ends only when the state is ready.
      have hmet : limit = none → ready p.state = true := by
        rintro rfl
        obtain rfl : deadline = none := hdeadline
        simpa [Task.isReady, Flow.canGoOn] using hready
      obtain ⟨k₁, hwakes, hnext⟩ := hfollows p.state hknows hmet
      exact ⟨k₁, .inr hwakes, hnext⟩

section Turn

theorem turn_of_not_ready [Inhabited α] {n : Nat}
    (h : ¬∃ t, p.tasks[n]? = some t ∧ t.isReady p.now p.state = true) : p.turn n = p := by
  simp only [Pool.turn]
  split
  · rfl
  next t hn =>
    split
    next hready => exact absurd ⟨t, hn, hready⟩ h
    · rfl

variable [Inhabited α] {Expected : σ → Prop} {n : Nat} {t : Task ι σ α}

/-- The calls under way after one of them has taken a turn, each with its place. -/
def afterTurn (P : Protocol ι σ κ) (p : Pool ι σ α) (entries : List (Task ι σ α × κ)) (n : Nat)
    (t : Task ι σ α) (k : κ) : List (Task ι σ α × κ) :=
  let r := (t.rest.wake p.state).stretch p.state
  entries.set n (.of p.now t.call r.rest, k) ++
    r.started.map fun child => (.of p.now t.call (.ofStrand child), P.home)

theorem places_afterTurn (P : Protocol ι σ κ) (p : Pool ι σ α)
    (entries : List (Task ι σ α × κ)) (n : Nat) (t : Task ι σ α) (k : κ) : ∃ calls : List ι,
    ((P.afterTurn p entries n t k).map fun e => (e.1.call, e.2)) =
      (entries.map fun e => (e.1.call, e.2)).set n (t.call, k) ++
        calls.map fun c => (c, P.home) := by
  refine ⟨((t.rest.wake p.state).stretch p.state).started.map fun _ => t.call, ?_⟩
  simp only [afterTurn, List.map_append, List.map_set, List.map_map, Function.comp_def, Task.of]

/-- What the turn of a call comes to: its wait ends, and then it goes by the rules. -/
theorem Governs.turn (hP : P.Keeps Expected Sound) (h : P.Governs Sound p entries)
    (hexpected : Expected p.state) (hn : p.tasks[n]? = some t)
    (hready : t.isReady p.now p.state = true) : ∃ k k₁ k',
      entries[n]? = some (t, k) ∧ (k₁ = k ∨ P.Wakes t.call k p.state k₁) ∧
      P.Goes t.call k₁ p.state k' (p.turn n).state ∧
      P.Governs Sound (p.turn n) (P.afterTurn p entries n t k') := by
  rw [h.tasks, List.getElem?_map, Option.map_eq_some_iff] at hn
  obtain ⟨⟨t', k⟩, hn, rfl⟩ := hn
  have hmem : (t', k) ∈ entries := List.mem_of_getElem? hn
  have hplace : (entries.map fun e => (e.1.call, e.2))[n]? = some (t'.call, k) := by simp [hn]
  have hknows := hP.knows h.sound (List.mem_of_getElem? hplace)
  obtain ⟨k₁, hwakes, hfollows⟩ := h.wake hmem hknows hready
  obtain ⟨k', hgoes, hrest, hstarted⟩ := hfollows.stretch
  have hlt : n < entries.length := (List.getElem?_eq_some_iff.mp hn).1
  have hturn : p.turn n = p.goneOn n t'.call ((t'.rest.wake p.state).stretch p.state) :=
    System.turn_of_ready (by simp [h.tasks, hn]) hready
  rw [hturn]
  refine ⟨k, k₁, k', hn, hwakes, hgoes, ?_, ?_, ?_, ?_⟩
  · simp [Pool.goneOn, afterTurn, h.tasks, List.map_set]
  · refine List.forall_mem_append.mpr ⟨fun e he => ?_, fun e he => ?_⟩
    · rcases List.mem_or_eq_of_mem_set he with he | rfl
      · exact h.timely e he
      · exact ⟨p.now, rfl⟩
    · obtain ⟨child, -, rfl⟩ := List.mem_map.mp he
      exact ⟨p.now, rfl⟩
  · refine List.forall_mem_append.mpr ⟨fun e he => ?_, fun e he => ?_⟩
    · rcases List.mem_or_eq_of_mem_set he with he | rfl
      · exact h.follows e he
      · exact fun s _ => hrest.of_atRest (Flow.atRest_stretch _ _) s
    · obtain ⟨child, hchild, rfl⟩ := List.mem_map.mp he
      exact fun s hknows => Flow.Follows.ofStrand (hstarted child hchild s hknows)
  · obtain ⟨calls, hplaces⟩ := places_afterTurn P p entries n t' k'
    rw [hplaces]
    refine hP.starts ?_ calls
    have hwoken : Sound p.state ((entries.map fun e => (e.1.call, e.2)).set n (t'.call, k₁)) := by
      rcases hwakes with rfl | hwakes
      · exact hP.goes h.sound hplace (.rest k₁ p.state)
      · exact hP.wakes h.sound hexpected hplace hwakes
    have hgone := hP.goes hwoken (List.getElem?_set_self (by simpa using hlt)) hgoes
    rwa [List.set_set] at hgone

end Turn

/-! ## Runs -/

section Runs

variable [Inhabited α] {Expected : σ → Prop}

/-- A move under which all calls go on by the rules: who begins follows them, and the surroundings
do nothing that matters. -/
def Admits (P : Protocol ι σ κ) (Sound : σ → List (ι × κ) → Prop) (S : System ι ε σ α) :
    Move ι ε → Prop
  | .start call => ∀ s, P.Knows call (P.first call) s →
    (S.flow call).Follows P call (fun _ k => P.IsOut k) (P.first call) s
  | .outside event => ∀ s l, Sound s l → Sound (S.outside event s) l
  | _ => True

theorem Governs.step (hP : P.Keeps Expected Sound) (h : P.Governs Sound p entries)
    (hexpected : Expected p.state) {move : Move ι ε} (hmove : P.Admits Sound S move) :
    ∃ entries', P.Governs Sound (S.step p move) entries' := by
  cases move with
  | start call => exact ⟨_, h.start hP hmove⟩
  | outside event => exact ⟨entries, h.outside fun l => hmove p.state l⟩
  | pass time =>
      simp only [System.step, Pool.pass]
      split
      · exact ⟨entries, h.pass time⟩
      · exact ⟨entries, h⟩
  | turn n =>
      by_cases hready : ∃ t, p.tasks[n]? = some t ∧ t.isReady p.now p.state = true
      · obtain ⟨t, hn, hready⟩ := hready
        obtain ⟨-, -, k', -, -, -, hturn⟩ := h.turn hP hexpected hn hready
        exact ⟨_, hturn⟩
      · have hidle : S.step p (.turn n) = p := turn_of_not_ready hready
        exact ⟨entries, hidle.symm ▸ h⟩

/-- Whatever happens, all calls go by the rules. -/
theorem Governs.run (hP : P.Keeps Expected Sound) {moves : List (Move ι ε)}
    (hmoves : ∀ move ∈ moves, P.Admits Sound S move)
    (hexpected : S.Along (fun p _ => Expected p.state) p moves) (h : P.Governs Sound p entries) :
    ∃ entries', P.Governs Sound (S.run p moves) entries' := by
  induction moves generalizing p entries with
  | nil => exact ⟨entries, h⟩
  | cons move moves ih =>
      obtain ⟨hmove, hmoves⟩ := List.forall_mem_cons.mp hmoves
      obtain ⟨entries', h'⟩ := h.step hP hexpected.1 hmove
      exact ih hmoves hexpected.2 h'

end Runs

/-- When all is over, every call is where it may end. -/
theorem Governs.out {Expected : σ → Prop} (hP : P.Keeps Expected Sound)
    (h : P.Governs Sound p entries) (hover : ∀ t ∈ p.tasks, t.rest.isDone = true)
    {e : Task ι σ α × κ} (he : e ∈ entries) : P.IsOut e.2 := by
  have htask : e.1 ∈ p.tasks := h.tasks ▸ List.mem_map_of_mem he
  obtain ⟨value, hdone⟩ := Flow.eq_done_of_isDone (hover e.1 htask)
  have hfollows := h.follows e he p.state (hP.knows h.sound (List.mem_map_of_mem he))
  rwa [hdone] at hfollows

end Protocol

end EditorHost
