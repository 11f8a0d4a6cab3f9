import EditorHost.Proofs.Ending
import EditorHost.Proofs.Extension.Activations
import EditorHost.Proofs.Extension.Wants

/-!
# Extensions that an event activates at the same time

An event activates all extensions that it concerns, and returns when all of them are through.  The
result does not depend on the order in which the activations go on, nor on what becomes of any of
the entry modules: every extension that the event concerns is active then, with what its entry
module returned or with nothing, and all others are as they were.

## Contents

* `FanOut.system` is the call as a system, and `FanOut.Done` what it has done when it returns; which
  extensions an event concerns is spelled out in `Manifest.activatesOn_iff`.
* `FanOut.Ledger` is what the activations have done to the world so far, and `FanOut.Fanning` how
  things stand meanwhile; `FanOut.Fanning.step` says that they stay so.
* `FanOut.activateByEvent_exact` is the result.
-/

namespace EditorHost

open Interleaving (Move Pool System Task)
open World (hostPart)

variable {χ : Type}

namespace FanOut

variable (F : FanOut χ)

/-- The call as a system, in which nothing else happens. -/
def system : System Unit Empty (World χ) (List String) where
  flow _ := World.activateByEvent F.code F.event
  outside event := nomatch event

/-- The call when it has just begun. -/
def begun (now : Nat) : Pool Unit (World χ) (List String) :=
  { now, state := F.world, tasks := [.of now () (World.activateByEvent F.code F.event)] }

/-- What the call has done to the world when it returns some identifiers. -/
structure Done (ids : List String) (w : World χ) : Prop where
  nodup : ids.Nodup
  mem : ∀ id, id ∈ ids ↔ ∃ e, F.world.host.find? id = some e ∧ e.isActive = false ∧
    F.world.host.isDisabled id = false ∧
    e.manifest.activatesOn F.event (!F.world.api.folders.isEmpty) = true
  newly : ∀ id, id ∈ ids ↔ w.host.isActive id = true ∧ F.world.host.isActive id = false
  activated : ∀ id ∈ ids, ∀ e, F.world.host.find? id = some e →
    ∃ context, w.host.find? id = some (F.activated id e context)
  others : ∀ id, id ∉ ids → w.host.find? id = F.world.host.find? id
  told : w.events.count .extensionsChanged =
    F.world.events.count .extensionsChanged + ids.length

/-! ## The call while it waits -/

/-- What is left of the call while it waits for the activations. -/
def gathering : Flow (World χ) (List String) :=
  (Flow.untilReady fun w => (World.joinedResults F.join w).length == F.ids.length).bind fun _ =>
    (Flow.read (World.joinedResults F.join)).bind fun results =>
      .done (F.ids.filter fun id => results.contains (id, true))

/-- The activation of one of the extensions. -/
def activation (id : String) : Flow (World χ) Unit :=
  (World.activate F.code id false).bind fun active =>
    .sync (hostPart.zoom (World.noteJoined F.join id active))

/-- The world in which there is room for the results. -/
def opened : World χ := (hostPart.zoom World.openJoin F.world).2

/-- What the activations have done to the world when some results are noted. -/
structure Ledger (results : List (String × Bool)) (s : World χ) : Prop where
  joined : F.ids ≠ [] → s.host.joined[F.join]? = some results
  nodup : results.Nodup
  noted : ∀ result ∈ results, ∃ id ∈ F.ids, result = (id, true)
  others : ∀ id, id ∉ F.ids → s.host.find? id = F.world.host.find? id
  disabled : s.host.disabled = F.world.host.disabled
  told : s.events.count .extensionsChanged =
    F.world.events.count .extensionsChanged + results.length

/-- How things stand while the extensions are activated: the call stands first, behind it the
activations in order, and then whatever was started on the side. -/
structure Fanning (results : List (String × Bool)) (p : Pool Unit (World χ) (List String)) :
    Prop where
  main : ∃ t, p.tasks[0]? = some t ∧ (t.rest = F.gathering ∧ F.ids ≠ [] ∨
    t.rest = .done F.ids ∧ ∀ id ∈ F.ids, (id, true) ∈ results)
  activations : ∀ i id, F.ids[i]? = some id → ∃ t e stage, p.tasks[i + 1]? = some t ∧
    F.world.host.find? id = some e ∧ t.rest = F.left id e stage ∧
    F.Sound id e results stage p.state
  side : ∀ i t, F.ids.length < i → p.tasks[i]? = some t → t.rest.Within F.Side
  ledger : F.Ledger results p.state

section Begin

variable {F}

theorem stretch_begun_of_nil (hids : F.ids = []) :
    ((World.activateByEvent F.code F.event).wake F.world).stretch F.world =
      ⟨F.world, .done [], []⟩ := by
  have hcandidates : F.world.host.candidates F.event (!F.world.api.folders.isEmpty) = [] := hids
  simp only [World.activateByEvent, Flow.bind_eq, Flow.pure_eq, Flow.wake_pause_bind,
    Flow.stretch_read_bind, hcandidates, List.isEmpty_nil, if_true]
  rfl

theorem stretch_begun (hids : F.ids ≠ []) :
    ((World.activateByEvent F.code F.event).wake F.world).stretch F.world =
      ⟨F.opened, F.gathering, F.ids.map fun id => (F.activation id).strand⟩ := by
  have hcandidates : F.world.host.candidates F.event (!F.world.api.folders.isEmpty) = F.ids := rfl
  have hsome : F.ids.isEmpty = false := by simpa using hids
  simp only [World.activateByEvent, Flow.bind_eq, Flow.pure_eq, Flow.wake_pause_bind,
    Flow.stretch_read_bind, hcandidates, hsome, Bool.false_eq_true, if_false,
    Flow.stretch_sync_bind, Flow.stretch_each_start]
  exact congrArg (Flow.Stretch.mk _ _) (List.append_nil _)

end Begin

/-! ## The ledger -/

section Ledger

variable {F} {results noted : List (String × Bool)} {id : String} {e : Extension} {s t : World χ}

/-- All results are there when there are as many as extensions. -/
theorem Ledger.length_eq_iff (h : F.Ledger results s) (hids : F.ids.Nodup) :
    results.length = F.ids.length ↔ ∀ id ∈ F.ids, (id, true) ∈ results := by
  have hall : (F.ids.map fun id => (id, true)).Nodup :=
    hids.map fun a b h => congrArg Prod.fst h
  have hsub : results ⊆ F.ids.map fun id => (id, true) := by
    intro result hresult
    obtain ⟨id, hid, rfl⟩ := h.noted result hresult
    exact List.mem_map_of_mem hid
  constructor
  · intro hlength id hid
    have hperm := (h.nodup.subperm hsub).perm_of_length_le (by simp [hlength])
    exact hperm.symm.subset (List.mem_map_of_mem hid)
  · intro hmem
    have hperm : results.Perm (F.ids.map fun id => (id, true)) := by
      refine (List.perm_ext_iff_of_nodup h.nodup hall).mpr fun result =>
        ⟨fun h => hsub h, fun h => ?_⟩
      obtain ⟨id, hid, rfl⟩ := List.mem_map.mp h
      exact hmem id hid
    simpa using hperm.length_eq

/-- An activation has taken a turn. -/
theorem Ledger.passed (h : F.Ledger results s) (hid : id ∈ F.ids)
    (hpasses : F.Passes id e noted s t)
    (hnoted : noted = [] ∨ noted = [(id, true)] ∧ (id, true) ∉ results) :
    F.Ledger (results ++ noted) t where
  joined hids := by
    rw [hpasses.joined, h.joined hids]
    rfl
  nodup := by
    rcases hnoted with rfl | ⟨rfl, hnew⟩
    · rw [List.append_nil]
      exact h.nodup
    · exact h.nodup.append (List.nodup_singleton _) (by simpa using hnew)
  noted result hresult := by
    rcases List.mem_append.mp hresult with hresult | hresult
    · exact h.noted result hresult
    · rcases hnoted with rfl | ⟨rfl, -⟩
      · cases hresult
      · exact ⟨id, hid, List.mem_singleton.mp hresult⟩
  others other hother := by
    have hne : other ≠ id := by
      rintro rfl
      exact hother hid
    exact (hpasses.find other hne).trans (h.others other hother)
  disabled := hpasses.disabled.trans h.disabled
  told := by
    rw [List.length_append, ← Nat.add_assoc, ← h.told]
    exact hpasses.told

/-- Something has been done on the side. -/
theorem Ledger.aside (h : F.Ledger results s) (hside : F.Side s t) : F.Ledger results t where
  joined hids := (congrArg (·[F.join]?) hside.1.joined).trans (h.joined hids)
  nodup := h.nodup
  noted := h.noted
  others id hid := (congrArg (Table.find? · id) hside.1.extensions).trans (h.others id hid)
  disabled := hside.1.disabled.trans h.disabled
  told := hside.1.told.trans h.told

end Ledger

/-! ## Turns -/

section Turns

variable {F} {p : Pool Unit (World χ) (List String)} {results : List (String × Bool)} {i n : Nat}
  {id : String} {t : Task Unit (World χ) (List String)}

/-- A call that has not taken the turn is as it was. -/
theorem goneOn_of_ne {t' : Task Unit (World χ) (List String)} {k : Nat}
    {r : Flow.Stretch (World χ) (List String)} (hk : p.tasks[k]? = some t') (hne : k ≠ n) :
    (p.goneOn n () r).tasks[k]? = some t' :=
  (System.turned_of_ne (List.getElem?_eq_some_iff.mp hk).1 (Ne.symm hne)).trans hk

/-- What was started on the side is still of its kind, and what the turn starts is, too. -/
theorem Fanning.side_goneOn (h : F.Fanning results p) {r : Flow.Stretch (World χ) (List String)}
    (hrest : F.ids.length < n → r.rest.Within F.Side)
    (hstarted : ∀ child ∈ r.started, child.Within F.Side) {k : Nat}
    {t' : Task Unit (World χ) (List String)} (hside : F.ids.length < k)
    (hk : (p.goneOn n () r).tasks[k]? = some t') : t'.rest.Within F.Side :=
  System.within_turned (fun k => F.ids.length < k) (fun k t _ hside hk => h.side k t hside hk)
    hrest hstarted hside hk

/-- The call goes on when all results are there, and returns what it activated. -/
theorem Fanning.turn_main (h : F.Fanning results p) (hids : F.ids.Nodup)
    (hn : p.tasks[0]? = some t) (hready : t.isReady p.now p.state = true)
    (htimely : ∃ since, t.deadline = t.rest.waitEnd since) : F.Fanning results (p.turn 0) := by
  obtain ⟨t', hn', hrest⟩ := h.main
  obtain rfl : t = t' := Option.some.inj (hn.symm.trans hn')
  obtain ⟨since, hsince⟩ := htimely
  rcases hrest with ⟨hrest, hsome⟩ | ⟨hrest, -⟩
  · have hjoined : World.joinedResults F.join p.state = results := by
      rw [World.joinedResults, h.ledger.joined hsome]
      rfl
    have hlength : results.length = F.ids.length := by
      rw [Task.isReady, hsince, hrest] at hready
      simpa [gathering, Flow.untilReady, Flow.bind, Flow.canGoOn, Flow.waitEnd, hjoined]
        using hready
    have hall := (h.ledger.length_eq_iff hids).mp hlength
    have hstretch : (t.rest.wake p.state).stretch p.state = ⟨p.state, .done F.ids, []⟩ := by
      have hfilter : (F.ids.filter fun id => results.contains (id, true)) = F.ids :=
        List.filter_eq_self.mpr fun id hid => List.contains_iff_mem.mpr (hall id hid)
      rw [hrest, gathering, Flow.wake_untilReady_bind, Flow.stretch_read_bind, hjoined, hfilter]
      rfl
    rw [System.turn_of_ready hn hready, hstretch]
    refine ⟨⟨_, System.turned_self (List.getElem?_eq_some_iff.mp hn).1, .inr ⟨rfl, hall⟩⟩,
      fun i id hi => ?_, fun k t' hside hk => ?_, h.ledger⟩
    · obtain ⟨t', e, stage, htask, hfind⟩ := h.activations i id hi
      exact ⟨t', e, stage, goneOn_of_ne htask (Nat.succ_ne_zero i), hfind⟩
    · exact h.side_goneOn (fun hlt => absurd hlt (Nat.not_lt_zero _))
        (fun child hchild => absurd hchild List.not_mem_nil) hside hk
  · -- The call has returned, so it cannot go on.
    rw [Task.isReady, hrest] at hready
    cases hready

/-- Something is done on the side. -/
theorem Fanning.turn_side (h : F.Fanning results p) (hF : F.Isolated) (hside : F.ids.length < n)
    (hn : p.tasks[n]? = some t) (hready : t.isReady p.now p.state = true) :
    F.Fanning results (p.turn n) := by
  rw [System.turn_of_ready hn hready]
  obtain ⟨hstate, hrest, hstarted⟩ := ((h.side n t hside hn).wake p.state).stretch hF.side_refl
    (fun s t u => hF.side_trans) p.state
  generalize (t.rest.wake p.state).stretch p.state = r at hstate hrest hstarted
  have hne {k : Nat} (hle : k ≤ F.ids.length) : k ≠ n :=
    Nat.ne_of_lt (Nat.lt_of_le_of_lt hle hside)
  obtain ⟨t₀, hmain, hrest₀⟩ := h.main
  refine ⟨⟨t₀, goneOn_of_ne hmain (hne (Nat.zero_le _)), hrest₀⟩, fun i id hi => ?_,
    fun k t' hlt hk => h.side_goneOn (fun _ => hrest) hstarted hlt hk, h.ledger.aside hstate⟩
  obtain ⟨t', e, stage, htask, hfind, hleft, hsound⟩ := h.activations i id hi
  exact ⟨t', e, stage, goneOn_of_ne htask (hne (List.getElem?_eq_some_iff.mp hi).1), hfind, hleft,
    hsound.aside hF hstate (List.mem_of_getElem? hi)⟩

/-- The other activations stand as they stood when one has taken a turn. -/
theorem Fanning.passed (h : F.Fanning results p) (hF : F.Isolated)
    (hidle : F.world.host.Idle F.code) {e : Extension} {s : World χ} {noted : List (String × Bool)}
    (hfind : F.world.host.find? id = some e) (hpasses : F.Passes id e noted p.state s)
    (hnoted : noted = [] ∨ noted = [(id, true)]) {j : Nat} {other : String}
    (hj : F.ids[j]? = some other) (hne : other ≠ id) : ∃ t e' stage, p.tasks[j + 1]? = some t ∧
      F.world.host.find? other = some e' ∧ t.rest = F.left other e' stage ∧
      F.Sound other e' (results ++ noted) stage s := by
  obtain ⟨t, e', stage, htask, hfind', hleft, hsound⟩ := h.activations j other hj
  have hqueue : e'.queue ≠ e.queue := fun heq =>
    hne (hidle.owners other id e' e hfind' hfind heq)
  exact ⟨t, e', stage, htask, hfind', hleft,
    hsound.passed hF hpasses (List.mem_of_getElem? hj) hne hqueue hnoted⟩

/-- An activation goes on. -/
theorem Fanning.turn_activation (h : F.Fanning results p) (hF : F.Isolated)
    (hsorted : F.world.host.extensions.Sorted) (hidle : F.world.host.Idle F.code)
    (hi : F.ids[i]? = some id) (hn : p.tasks[i + 1]? = some t)
    (hready : t.isReady p.now p.state = true)
    (htimely : ∃ since, t.deadline = t.rest.waitEnd since) :
    ∃ results', F.Fanning results' (p.turn (i + 1)) := by
  have hid := List.mem_of_getElem? hi
  obtain ⟨t', e, stage, hn', hfind, hleft, hsound⟩ := h.activations i id hi
  obtain rfl : t = t' := Option.some.inj (hn.symm.trans hn')
  obtain ⟨e', hfind', hinactive, henabled, -⟩ := (mem_ids hsorted).mp hid
  obtain rfl : e = e' := Option.some.inj (hfind.symm.trans hfind')
  obtain ⟨since, hsince⟩ := htimely
  have hcan : (F.left id e stage).canGoOn p.now p.state ((F.left id e stage).waitEnd since) =
      true := by
    rwa [Task.isReady, hsince, hleft] at hready
  obtain ⟨stage', noted, hturned⟩ := exists_turned hF hid hfind hinactive
    (by rw [Host.isDisabled, h.ledger.disabled]; exact henabled) hsound hcan
  rw [← hleft] at hturned
  rw [System.turn_of_ready hn hready]
  generalize (t.rest.wake p.state).stretch p.state = r at hturned
  have hlt : i < F.ids.length := (List.getElem?_eq_some_iff.mp hi).1
  obtain ⟨t₀, hmain, hrest₀⟩ := h.main
  refine ⟨results ++ noted,
    ⟨t₀, goneOn_of_ne hmain (Nat.succ_ne_zero i).symm, hrest₀.imp_right ?_⟩,
    fun j other hj => ?_, fun k t' hside hk => ?_,
    h.ledger.passed hid hturned.passes hturned.noted⟩
  · rintro ⟨hdone, hall⟩
    exact ⟨hdone, fun id hid => List.mem_append_left _ (hall id hid)⟩
  · by_cases hji : j = i
    · subst hji
      obtain rfl : id = other := Option.some.inj (hi.symm.trans hj)
      exact ⟨_, e, stage', System.turned_self (List.getElem?_eq_some_iff.mp hn).1, hfind,
        hturned.rest, hturned.sound⟩
    · -- No extension is concerned twice, so this is another one, with a queue of its own.
      have hne : other ≠ id := by
        rintro rfl
        have hlt' : j < F.ids.length := (List.getElem?_eq_some_iff.mp hj).1
        exact hji ((List.getElem?_inj hlt' (nodup_ids hsorted)).mp (hj.trans hi.symm))
      obtain ⟨t', e', stage, htask, hother⟩ := h.passed hF hidle hfind hturned.passes
        (hturned.noted.imp_right And.left) hj hne
      exact ⟨t', e', stage, goneOn_of_ne htask fun heq => hji (Nat.succ.inj heq), hother⟩
  · exact h.side_goneOn (fun hside => absurd hlt (Nat.not_lt_of_ge (Nat.le_of_lt_succ hside)))
      hturned.started hside hk

/-- Whatever happens next, things stand like that. -/
theorem Fanning.step (h : F.Fanning results p) (hF : F.Isolated)
    (hsorted : F.world.host.extensions.Sorted) (hidle : F.world.host.Idle F.code)
    (htimely : p.Timely) {move : Move Unit Empty} (hown : move.IsOwn) :
    ∃ results', F.Fanning results' (F.system.step p move) := by
  cases move with
  | start call => cases hown
  | outside event => cases event
  | pass time =>
      have hpass : F.Fanning results (p.pass time) := by
        rw [Pool.pass]
        split
        · exact { h with }
        · exact h
      exact ⟨results, hpass⟩
  | turn n =>
      cases hn : p.tasks[n]? with
      | none => exact ⟨results, by simpa [System.step, Pool.turn, hn] using h⟩
      | some t =>
          cases hready : t.isReady p.now p.state with
          | false => exact ⟨results, by simpa [System.step, Pool.turn, hn, hready] using h⟩
          | true =>
              have hsince := htimely t (List.mem_of_getElem? hn)
              cases n with
              | zero => exact ⟨results, h.turn_main (nodup_ids hsorted) hn hready hsince⟩
              | succ i =>
                  cases hi : F.ids[i]? with
                  | some id => exact h.turn_activation hF hsorted hidle hi hn hready hsince
                  | none =>
                      have hside : F.ids.length < i + 1 :=
                        Nat.lt_succ_of_le (List.getElem?_eq_none_iff.mp hi)
                      exact ⟨results, h.turn_side hF hside hn hready⟩

end Turns

/-! ## The beginning -/

section Beginning

variable {F} {p : Pool Unit (World χ) (List String)} {t : Task Unit (World χ) (List String)}

theorem ledger_of_same {s : World χ} (hids : F.ids ≠ [] → s.host.joined[F.join]? = some [])
    (hextensions : s.host.extensions = F.world.host.extensions)
    (hdisabled : s.host.disabled = F.world.host.disabled)
    (hevents : s.events = F.world.events) : F.Ledger [] s where
  joined := hids
  nodup := List.nodup_nil
  noted _ hresult := nomatch hresult
  others id _ := congrArg (Table.find? · id) hextensions
  disabled := hdisabled
  told := congrArg (List.count .extensionsChanged) hevents

/-- Nobody is to be activated. -/
theorem fanning_of_nil (hids : F.ids = []) (hstate : p.state = F.world)
    (htasks : p.tasks = [t]) (hrest : t.rest = .done []) : F.Fanning [] p where
  main := ⟨t, by rw [htasks]; rfl, .inr ⟨by rw [hrest, hids], by simp [hids]⟩⟩
  activations i id hi := by simp [hids] at hi
  side i t' hlt hi := by
    have hlength : p.tasks.length ≤ i := by
      rw [htasks]
      exact Nat.succ_le_of_lt (Nat.zero_lt_of_lt hlt)
    rw [List.getElem?_eq_none hlength] at hi
    cases hi
  ledger := hstate ▸ ledger_of_same (absurd hids) rfl rfl rfl

theorem sound_opened (hF : F.Isolated) (hidle : F.world.host.Idle F.code) {id : String}
    {e : Extension} (hfind : F.world.host.find? id = some e) :
    F.Sound id e [] .fresh F.opened where
  record := hfind
  line := by
    have hroom := hidle.room id e hfind
    have hqueue : F.world.host.queues[e.queue]? = some F.world.host.queues[e.queue] :=
      List.getElem?_eq_getElem hroom
    exact hqueue.trans (congrArg some (hidle.queues _ (List.getElem_mem hroom)))
  noted := by simp
  story := hF.books id _ _ ⟨rfl, rfl, rfl, rfl, rfl, rfl, rfl, rfl, rfl⟩

/-- All activations have been started. -/
theorem fanning_opened (hF : F.Isolated) (hsorted : F.world.host.extensions.Sorted)
    (hidle : F.world.host.Idle F.code) (hids : F.ids ≠ []) (hstate : p.state = F.opened)
    (now : Nat) (call : Unit) (htasks : p.tasks = .of now call F.gathering :: F.ids.map fun id =>
      .of now call (.ofStrand (F.activation id).strand)) : F.Fanning [] p where
  main := ⟨_, by rw [htasks]; rfl, .inl ⟨rfl, hids⟩⟩
  activations i id hi := by
    obtain ⟨e, hfind, -⟩ := (mem_ids hsorted).mp (List.mem_of_getElem? hi)
    refine ⟨.of now call (.ofStrand (F.activation id).strand), e, .fresh, ?_, hfind,
      Flow.ofStrand_strand _, hstate ▸ sound_opened hF hidle hfind⟩
    rw [htasks, List.getElem?_cons_succ, List.getElem?_map, hi]
    rfl
  side i t' hlt hi := by
    have hlength : p.tasks.length ≤ i := by
      rw [htasks, List.length_cons, List.length_map]
      exact Nat.succ_le_of_lt hlt
    rw [List.getElem?_eq_none hlength] at hi
    cases hi
  ledger := by
    have hjoined : F.opened.host.joined = F.world.host.joined ++ [[]] := rfl
    have hroom : F.opened.host.joined[F.join]? = some [] := by
      rw [hjoined, join, List.getElem?_concat_length]
    exact hstate ▸ ledger_of_same (fun _ => hroom) rfl rfl rfl

/-- The call has not had its first turn. -/
structure IsFresh (F : FanOut χ) (p : Pool Unit (World χ) (List String)) : Prop where
  state : p.state = F.world
  tasks : ∃ t, p.tasks = [t] ∧ t.rest = World.activateByEvent F.code F.event

/-- The call at any time. -/
def Stands (F : FanOut χ) (p : Pool Unit (World χ) (List String)) : Prop :=
  p.Timely ∧ (F.IsFresh p ∨ ∃ results, F.Fanning results p)

theorem stands_begun (F : FanOut χ) (now : Nat) : F.Stands (F.begun now) :=
  ⟨List.forall_mem_singleton.mpr ⟨now, rfl⟩, .inl ⟨rfl, _, rfl, rfl⟩⟩

/-- The first turn of the call. -/
theorem IsFresh.turn (h : F.IsFresh p) (hF : F.Isolated)
    (hsorted : F.world.host.extensions.Sorted) (hidle : F.world.host.Idle F.code) :
    F.Fanning [] (p.turn 0) := by
  obtain ⟨hstate, t, htasks, hrest⟩ := h
  have hn : p.tasks[0]? = some t := by rw [htasks]; rfl
  have hready : t.isReady p.now p.state = true := by rw [Task.isReady, hrest]; rfl
  rw [System.turn_of_ready hn hready, hrest, hstate]
  by_cases hids : F.ids = []
  · rw [stretch_begun_of_nil hids]
    exact fanning_of_nil hids rfl (by rw [Pool.goneOn, htasks]; rfl) rfl
  · rw [stretch_begun hids]
    refine fanning_opened hF hsorted hidle hids rfl p.now t.call ?_
    rw [Pool.goneOn, htasks, List.map_map]
    rfl

theorem Stands.step (h : F.Stands p) (hF : F.Isolated)
    (hsorted : F.world.host.extensions.Sorted) (hidle : F.world.host.Idle F.code)
    {move : Move Unit Empty} (hown : move.IsOwn) : F.Stands (F.system.step p move) := by
  refine ⟨System.timely_step h.1 move, ?_⟩
  rcases h.2 with hfresh | ⟨results, hfanning⟩
  · cases move with
    | start call => cases hown
    | outside event => cases event
    | pass time =>
        obtain ⟨hstate, htasks⟩ := hfresh
        refine .inl ?_
        simp only [System.step, Pool.pass]
        split
        · exact ⟨hstate, htasks⟩
        · exact ⟨hstate, htasks⟩
    | turn n =>
        cases n with
        | zero => exact .inr ⟨[], hfresh.turn hF hsorted hidle⟩
        | succ n =>
            obtain ⟨hstate, t, htasks, hrest⟩ := hfresh
            refine .inl ?_
            have hnone : p.tasks[n + 1]? = none := by rw [htasks]; rfl
            simp only [System.step, Pool.turn, hnone]
            exact ⟨hstate, t, htasks, hrest⟩
  · exact .inr (hfanning.step hF hsorted hidle h.1 hown)

end Beginning

/-! ## The end -/

section End

variable {F} {p : Pool Unit (World χ) (List String)} {results : List (String × Bool)}

/-- What has been activated when the call returns. -/
theorem Fanning.done (h : F.Fanning results p) (hsorted : F.world.host.extensions.Sorted)
    (hall : ∀ id ∈ F.ids, (id, true) ∈ results) : F.Done F.ids p.state := by
  have hactivated (id : String) (hid : id ∈ F.ids) : ∃ e context,
      F.world.host.find? id = some e ∧
        p.state.host.find? id = some (F.activated id e context) := by
    obtain ⟨i, hi⟩ := List.mem_iff_getElem?.mp hid
    obtain ⟨t, e, stage, -, hfind, -, hsound⟩ := h.activations i id hi
    obtain ⟨context, rfl⟩ := hsound.noted.mp (hall id hid)
    exact ⟨e, context, hfind, hsound.record⟩
  refine ⟨nodup_ids hsorted, fun id => mem_ids hsorted, fun id => ⟨fun hid => ?_, fun hnew => ?_⟩,
    fun id hid e hfind => ?_, h.ledger.others, ?_⟩
  · obtain ⟨e, context, hfind, hnow⟩ := hactivated id hid
    obtain ⟨e', hfind', hinactive, -⟩ := (mem_ids hsorted).mp hid
    simp [Host.isActive, hnow, hfind', hinactive, FanOut.activated]
  · by_contra hid
    rw [Host.isActive, h.ledger.others id hid, ← Host.isActive, hnew.2] at hnew
    exact absurd hnew.1 Bool.false_ne_true
  · obtain ⟨e', context, hfind', hnow⟩ := hactivated id hid
    obtain rfl : e = e' := Option.some.inj (hfind.symm.trans hfind')
    exact ⟨context, hnow⟩
  · rw [h.ledger.told, (h.ledger.length_eq_iff (nodup_ids hsorted)).mpr hall]

/-- An activation that is not over can go on, now or later. -/
theorem Sound.live {id : String} {e : Extension} {stage : Stage χ} {now : Nat} {s : World χ}
    {t : Task Unit (World χ) (List String)} (h : F.Sound id e results stage s)
    (hprompt : F.IsPrompt) (hid : id ∈ F.ids) (hfind : F.world.host.find? id = some e)
    (hrest : t.rest = F.left id e stage) (hnot : (id, true) ∉ results)
    (htimely : ∃ since, t.deadline = t.rest.waitEnd since) :
    t.isReady now s = true ∨ t.deadline.isSome = true := by
  obtain ⟨since, hsince⟩ := htimely
  rw [Task.isReady, hrest]
  cases stage with
  | fresh => exact .inl rfl
  | inLine ticket =>
      have hturn : s.host.isTurnOf e.queue ticket = true := by
        simp [Host.isTurnOf, h.line, Stage.line]
      exact .inl (by simp [left, Flow.untilReady, Flow.bind, Flow.canGoOn, hturn])
  | called ticket => exact .inl rfl
  | entered ticket context rest =>
      obtain ⟨hatRest, s₀, u, hrely, hmake, hreaches, hnow⟩ := h.story
      cases rest with
      | done result => exact .inl rfl
      | act change next => cases hatRest
      | fork rank child next => cases hatRest
      | await ready limit next =>
          cases limit with
          | none =>
              have hready := hprompt.enter hid hfind hrely hmake _ _ _ _ hreaches hnow
              exact .inl (by simp [left, Flow.bind, Flow.canGoOn, hready])
          | some limit => exact .inr (by rw [hsince, hrest]; rfl)
  | through context => exact absurd (h.noted.mpr ⟨context, rfl⟩) hnot

/-- As long as the call has not returned, something can go on. -/
theorem Stands.live (h : F.Stands p) (hsorted : F.world.host.extensions.Sorted)
    (hprompt : F.IsPrompt)
    (hopen : ¬∃ t ids, p.tasks[0]? = some t ∧ t.rest = .done ids) : p.IsLive := by
  obtain ⟨htimely, ⟨-, t, htasks, hrest⟩ | ⟨results, hfanning⟩⟩ := h
  · refine ⟨t, by simp [htasks], .inl ?_⟩
    rw [Task.isReady, hrest]
    rfl
  · by_cases hall : ∀ id ∈ F.ids, (id, true) ∈ results
    · -- All results are there, so the call itself can go on.
      obtain ⟨t, hn, ⟨hrest, hids⟩ | ⟨hrest, -⟩⟩ := hfanning.main
      · refine ⟨t, List.mem_of_getElem? hn, .inl ?_⟩
        have hlength : (World.joinedResults F.join p.state).length = F.ids.length := by
          rw [World.joinedResults, hfanning.ledger.joined hids]
          exact (hfanning.ledger.length_eq_iff (nodup_ids hsorted)).mpr hall
        rw [Task.isReady, hrest]
        simp [gathering, Flow.untilReady, Flow.bind, Flow.canGoOn, hlength]
      · exact absurd ⟨t, _, hn, hrest⟩ hopen
    · obtain ⟨id, hid, hnot⟩ : ∃ id ∈ F.ids, (id, true) ∉ results := by
        simpa using hall
      obtain ⟨i, hi⟩ := List.mem_iff_getElem?.mp hid
      obtain ⟨t, e, stage, htask, hfind, hrest, hsound⟩ := hfanning.activations i id hi
      have hmem := List.mem_of_getElem? htask
      exact ⟨t, hmem, hsound.live hprompt hid hfind hrest hnot (htimely t hmem)⟩

end End

/-- Whatever the order in which the activations go on, the call has activated exactly the extensions
that the event concerns when it returns, and returns those; and where no entry module waits for ever
it can always come to its end. -/
theorem activateByEvent_exact (F : FanOut χ) (hsorted : F.world.host.extensions.Sorted)
    (hidle : F.world.host.Idle F.code) (hF : F.Isolated) (now : Nat)
    (moves : List (Move Unit Empty)) (hown : ∀ move ∈ moves, move.IsOwn) :
    (∀ t ids, (F.system.run (F.begun now) moves).tasks[0]? = some t → t.rest = .done ids →
      F.Done ids (F.system.run (F.begun now) moves).state) ∧
    (F.IsPrompt → ∃ more : List (Move Unit Empty), (∀ move ∈ more, move.IsOwn) ∧
      ∃ t ids, (F.system.run (F.begun now) (moves ++ more)).tasks[0]? = some t ∧
        t.rest = .done ids) := by
  have hstep (p : Pool Unit (World χ) (List String)) (move : Move Unit Empty) (hmove : move.IsOwn)
      (h : F.Stands p) : F.Stands (F.system.step p move) := h.step hF hsorted hidle hmove
  have hstands : F.Stands (F.system.run (F.begun now) moves) :=
    System.run_invariant_along (fun p move p' hmove heq _ h => heq ▸ hstep p move hmove h)
      (F.stands_begun now) (System.along_of_forall hown _)
  constructor
  · intro t ids hn hrest
    rcases hstands.2 with ⟨-, t', htasks, hrest'⟩ | ⟨results, hfanning⟩
    · -- The call has not begun, so it has not returned.
      rw [htasks] at hn
      cases hn
      rw [hrest'] at hrest
      cases hrest
    · obtain ⟨t', hn', ⟨hrest', -⟩ | ⟨hrest', hall⟩⟩ := hfanning.main
      · cases Option.some.inj (hn.symm.trans hn')
        rw [hrest'] at hrest
        cases hrest
      · cases Option.some.inj (hn.symm.trans hn')
        rw [hrest'] at hrest
        cases hrest
        exact hfanning.done hsorted hall
  · intro hprompt
    obtain ⟨more, hmore, hreached⟩ := System.exists_run_of_live hstep
      (fun p h hopen => h.live hsorted hprompt hopen) hstands.1 hstands
    exact ⟨more, hmore, by rwa [System.run_append]⟩

end FanOut

/-! ## Two extensions -/

/-- The folders of an extension. -/
def Context.folders (layout : Layout) (extension : String) : List Path :=
  [(layout.storageOf extension).join "global", (layout.storageOf extension).join "workspace",
    layout.logsOf extension]

theorem Context.perform_prepare {d d' : Disk} {layout : Layout} {id : String} (path : Path)
    (h : d.perform ((folders layout id).forM Disk.createFolders) = (.ok (), d')) :
    ∃ context, d.perform (prepare layout id path) = (.ok context, d') := by
  rw [prepare, Disk.perform_bind]
  rw [folders] at h
  rw [h]
  exact ⟨_, rfl⟩

/-- The folders of some extensions are there. -/
def World.Housed (ids : List String) (w : World χ) : Prop :=
  ∀ id ∈ ids, w.disk.perform ((Context.folders w.host.layout id).forM Disk.createFolders) =
    (.ok (), w.disk)

theorem World.Housed.makeContext {ids : List String} {w : World χ} (h : w.Housed ids) {id : String}
    (hid : id ∈ ids) (path : Path) : (World.makeContext id path w).1.isSome = true ∧
      (World.makeContext id path w).2.Housed ids := by
  obtain ⟨context, hprepare⟩ := Context.perform_prepare path (h id hid)
  unfold World.makeContext
  rw [hprepare]
  exact ⟨rfl, h⟩

namespace FanOut

/-- Makes the folders of an extension. -/
def house (id : String) : Disk.Action Unit :=
  (Context.folders (.ofDataDir ⟨"/data"⟩) id).forM Disk.createFolders

/-- The world in which the folders of two extensions have been made. -/
def withFolders (first second : String) (w : World χ) : World χ :=
  { w with disk := ((w.disk.perform (house first)).2.perform (house second)).2 }

theorem housed_withFolders {w : World χ} {first second : String}
    (hlayout : w.host.layout = .ofDataDir ⟨"/data"⟩)
    (hfirst : (w.disk.perform (house first)).1.isOk = true)
    (hsecond : ((w.disk.perform (house first)).2.perform (house second)).1.isOk = true) :
    (withFolders first second w).Housed [first, second] := by
  have hmade {d : Disk} {id : String} (h : (d.perform (house id)).1.isOk = true) :
      ∃ d', d.perform (house id) = (.ok (), d') := by
    revert h
    cases d.perform (house id) with
    | mk result d' =>
        cases result with
        | error e => exact fun h => nomatch h
        | ok _ => exact fun _ => ⟨d', rfl⟩
  obtain ⟨d₁, h₁⟩ := hmade hfirst
  rw [h₁] at hsecond
  obtain ⟨d₂, h₂⟩ := hmade hsecond
  have hdisk : (withFolders first second w).disk = d₂ := by simp only [withFolders, h₁, h₂]
  have hlayout' : (withFolders first second w).host.layout = .ofDataDir ⟨"/data"⟩ := hlayout
  have hgrows : Disk.Grows d₁ d₂ := by
    have hmakes : Disk.MakesFolders (house second) := .forM Disk.makesFolders_createFolders
    simpa only [h₂] using hmakes d₁
  intro id hid
  rw [hlayout', hdisk]
  simp only [List.mem_cons, List.not_mem_nil, or_false] at hid
  rcases hid with rfl | rfl
  · exact Disk.forM_createFolders_again h₁ hgrows
  · exact Disk.forM_createFolders_again h₂ (.refl d₂)

/-- A world with two extensions that have been active before, so that their folders are there. -/
def housed : World Nat :=
  withFolders "bad.py" "good.py" (World.ofExtensions 0 ["bad.py", "good.py"])

theorem housed_housed : housed.Housed ["bad.py", "good.py"] := by
  refine housed_withFolders rfl ?_ ?_
  · decide +kernel
  · decide +kernel

/-- An entry module that counts its activations, takes a while, and then comes to an outcome. -/
def counting (outcome : Outcome Json) : Module Nat where
  activate _ := (Flow.sync (modify fun w => { w with own := w.own + 1 })).bind fun _ =>
    (Flow.sleep 10).bind fun _ => .done outcome
  deactivate := .done (.returned ())

theorem settles_counting {rely guar side : World Nat → World Nat → Prop}
    (hguar : ∀ w, guar w { w with own := w.own + 1 }) (outcome : Outcome Json)
    (context : ContextId) (w : World Nat) :
    ((counting outcome).activate context).Settles rely guar side outcome w :=
  .ofAct (hguar w) (.ofAwait fun _ _ => Flow.settles_done _ _)

theorem prompt_counting {rely : World Nat → World Nat → Prop} (outcome : Outcome Json)
    (context : ContextId) (w : World Nat) : ((counting outcome).activate context).Prompt rely w :=
  .ofAct (.ofAwait (fun hnone => nomatch hnone) fun _ _ => Flow.prompt_done _ _)

/-- Two extensions that are activated for Python, of which one panics. -/
def mixed : FanOut Nat :=
  let outcome (id : String) : Outcome Json :=
    if id = "bad.py" then .panicked else .returned (.text "ready")
  { code := { Code.idle with entry := fun id => some (counting (outcome id)) }
    world := housed
    event := "onLanguage:python"
    outcome
    rely := fun _ s t => s.Housed ["bad.py", "good.py"] → t.Housed ["bad.py", "good.py"] }

theorem ids_mixed : mixed.ids = ["bad.py", "good.py"] := by decide +kernel

theorem isolated_mixed : mixed.Isolated where
  refl _ _ h := h
  trans _ _ _ _ h h' hs := h' (h hs)
  books _ s t h hs id hid := by
    rw [h.layout, h.disk]
    exact hs id hid
  folders _ other hother _ path s hs := (hs.makeContext (ids_mixed ▸ hother) path).2
  room id hid s hrely path := ((hrely housed_housed).makeContext (ids_mixed ▸ hid) path).1
  settles id hid e hfind entry hentry s hrely context hmake := by
    cases Code.entry_of_moduleOf hentry
    exact settles_counting (fun w => ⟨⟨⟨rfl, rfl, rfl, rfl⟩, rfl, rfl⟩, fun _ _ _ h => h⟩) _ _ _

theorem isPrompt_mixed : mixed.IsPrompt := by
  intro id hid e hfind entry hentry s hrely context hmake
  cases Code.entry_of_moduleOf hentry
  exact prompt_counting _ _ _

theorem exports_mixed {e : Extension} (hmain : e.manifest.main.isSome = true) (id : String) :
    mixed.exports id e.manifest = if id = "bad.py" then .null else .text "ready" := by
  have hmodule : mixed.code.moduleOf id e.manifest = some (counting (mixed.outcome id)) := by
    rw [Code.moduleOf, if_pos hmain]
    rfl
  have houtcome : mixed.outcome id =
      if id = "bad.py" then .panicked else .returned (.text "ready") := rfl
  rw [exports, hmodule, houtcome]
  by_cases hid : id = "bad.py" <;> simp [hid]

/-- When the call returns, the extension that panicked exports nothing, and the other one what its
entry module returned. -/
theorem activateByEvent_exact_mixed : ∃ (moves : List (Move Unit Empty))
    (t : Task Unit (World Nat) (List String)) (ids : List String),
    (mixed.system.run (mixed.begun 0) moves).tasks[0]? = some t ∧ t.rest = .done ids ∧
    (∀ id, id ∈ ids ↔ id = "bad.py" ∨ id = "good.py") ∧
    ∀ id ∈ ids, (mixed.system.run (mixed.begun 0) moves).state.exports? id =
      some (if id = "bad.py" then .null else .text "ready") := by
  have hsorted : mixed.world.host.extensions.Sorted := by
    unfold Table.Sorted
    decide +kernel
  have hidle : mixed.world.host.Idle mixed.code :=
    World.idle_ofExtensions mixed.code 0 ["bad.py", "good.py"]
  have hmain : ∀ id ∈ ["bad.py", "good.py"],
      (mixed.world.host.find? id).any (fun e => e.manifest.main.isSome) = true := by
    decide +kernel
  obtain ⟨-, hreturns⟩ := activateByEvent_exact mixed hsorted hidle isolated_mixed 0 []
    (List.forall_mem_nil _)
  obtain ⟨moves, hown, t, ids, hn, hrest⟩ := hreturns isPrompt_mixed
  rw [List.nil_append] at hn
  obtain ⟨hexact, -⟩ := activateByEvent_exact mixed hsorted hidle isolated_mixed 0 moves hown
  have hdone := hexact t ids hn hrest
  have hids (id : String) : id ∈ ids ↔ id = "bad.py" ∨ id = "good.py" := by
    rw [hdone.mem, ← mem_ids hsorted, ids_mixed]
    simp
  refine ⟨moves, t, ids, hn, hrest, hids, fun id hid => ?_⟩
  obtain ⟨e, hfind, hmain⟩ :=
    (Option.any_eq_true _ _).mp (hmain id (by simpa using (hids id).mp hid))
  obtain ⟨context, hnow⟩ := hdone.activated id hid e hfind
  rw [World.exports?, hnow, Option.map_some]
  exact congrArg some (exports_mixed hmain id)

end FanOut

end EditorHost
