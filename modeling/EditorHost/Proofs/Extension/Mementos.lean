import EditorHost.Extension.Background
import EditorHost.Proofs.Extension.Persisting
import EditorHost.Proofs.Extension.Restart
import EditorHost.Proofs.Disk.Saving
import EditorHost.Proofs.Interleaving
import EditorHost.Proofs.Json.Rereading

/-!
# Updates of a memento that run together

An update changes a memento in memory, takes what it has become, and writes that to the file two
waits later.  In between, other updates may change the memento, and may write the file as well.  So
the file holds what the memento was when the call had changed it that has written last, and what was
changed after that is in memory only (`World.updates_stored`).  Nothing is lost if that call is the
one that has changed the memento last.

What is read from the file is what has been written, but for numbers whose numeral is read as
another one, and for values with too many arrays and objects in each other (`Memento.Survives`).

## Contents

* `World.mementoUpdates` are the updates of one memento, with surroundings that leave it alone;
  `World.updateStages` describes how far each has come.
* `World.UpdateLedger` keeps the order of the changes and of the writes.
* `World.Booked`: memory and file are what the ledger says; a step keeps it, and so does a run.
* `World.updates_lost`: a change that is not in the file, and a number that is another one there.
-/

namespace EditorHost

open Interleaving

variable {χ ε : Type}

/-- A change of a key. -/
structure MementoUpdate where
  key : String
  value : Json
  deriving DecidableEq

namespace Memento

variable {m : Memento} {d : Disk}

/-- A memento behind some changes. -/
def updateAll (m : Memento) (updates : List MementoUpdate) : Memento :=
  updates.foldl (fun m u => m.put u.key u.value) m

/-- What is read where a memento has been written. -/
def reread (m : Memento) : Memento :=
  ⟨m.file, ((Json.parse? m.content).bind Json.asObject?).getD []⟩

theorem load_congr {d' : Disk} {file : Path}
    (h : ∀ text, d'.readText file = .ok text ↔ d.readText file = .ok text) :
    load d' file = load d file := by
  rw [load, load]
  rcases Disk.readText_same_or_error h with hsame | ⟨e, e', hread, hread'⟩
  · rw [hsame]
  · rw [hread, hread']

theorem load_of_readText (h : d.readText m.file = .ok m.content) : load d m.file = m.reread := by
  rw [load, h, reread]

/-- How many arrays and objects may be open in a value.  The memento is an object around it. -/
def valueDepth : Nat := Json.maxDepth - 1

/-- All values of a memento are read as they were when they have been written. -/
structure Survives (m : Memento) : Prop where
  sorted : m.values.Sorted
  values : ∀ entry ∈ m.values, Json.Survives valueDepth entry.2

theorem Survives.reread (h : m.Survives) : m.reread = m := by
  have hparse : Json.parse? m.content = some (.object m.values) :=
    (Json.parse?_indented _).trans (Json.Survives.object h.sorted h.values)
  rw [Memento.reread, hparse]
  rfl

theorem Survives.put (h : m.Survives) (key : String) {value : Json}
    (hvalue : Json.Survives valueDepth value) : (m.put key value).Survives := by
  unfold Memento.put
  split
  · exact ⟨h.sorted.erase key, fun entry hentry => h.values entry (Table.mem_erase.mp hentry).1⟩
  · refine ⟨h.sorted.insert key value, fun entry hentry => ?_⟩
    rcases Table.mem_insert hentry with rfl | hold
    · exact hvalue
    · exact h.values entry hold

theorem Survives.updateAll (h : m.Survives) {updates : List MementoUpdate}
    (hupdates : ∀ u ∈ updates, Json.Survives valueDepth u.value) :
    (m.updateAll updates).Survives := by
  induction updates generalizing m with
  | nil => exact h
  | cons u updates ih =>
      obtain ⟨hu, hrest⟩ := List.forall_mem_cons.mp hupdates
      exact ih (h.put u.key hu) hrest

@[simp] theorem file_put (key : String) (value : Json) : (m.put key value).file = m.file := rfl

@[simp] theorem file_updateAll (updates : List MementoUpdate) :
    (m.updateAll updates).file = m.file := by
  induction updates generalizing m with
  | nil => rfl
  | cons u updates ih => exact ih

end Memento

/-! ## The system -/

namespace World

/-- A memento of a context as a part of a world. -/
def mementoPart (context : ContextId) (ofWorkspace : Bool) : Focus (World χ) Memento :=
  (contextPart context).comp (Context.memento ofWorkspace)

/-- Updates of one memento, with anything that the surroundings do. -/
def mementoUpdates (context : ContextId) (ofWorkspace : Bool) (outside : ε → World χ → World χ) :
    System MementoUpdate ε (World χ) (Except Fault Unit) where
  flow u := updateMemento context ofWorkspace u.key u.value
  outside

/-- How far an update has come. -/
inductive UpdateStage where
  | begun (u : MementoUpdate)
  /-- The memento has been changed; the folder of its file comes next. -/
  | changed (u : MementoUpdate) (snapshot : Memento)
  /-- The folder is there, and the file comes next. -/
  | housed (u : MementoUpdate) (snapshot : Memento)
  | returned (u : MementoUpdate) (result : Except Fault Unit)

namespace UpdateStage

def update : UpdateStage → MementoUpdate
  | begun u | changed u _ | housed u _ | returned u _ => u

/-- What is still to do. -/
def rest (context : ContextId) (ofWorkspace : Bool) :
    UpdateStage → Flow (World χ) (Except Fault Unit)
  | begun u => updateMemento context ofWorkspace u.key u.value
  | changed _ m => save m.file m.content
  | housed _ m => Flow.pause.bind fun _ => onDisk (Disk.writeText m.file m.content)
  | returned _ result => .done result

/-- One turn of an update. -/
def turn (context : ContextId) (ofWorkspace : Bool) (w : World χ) :
    UpdateStage → Option (World χ × UpdateStage)
  | begun u =>
    let m := ((mementoPart context ofWorkspace).get w).put u.key u.value
    some ((mementoPart context ofWorkspace).set m w, .changed u m)
  | changed u m =>
    match w.disk.perform (m.file.folder?.forM Disk.createFolders) with
    | (.ok _, disk) => some ({ w with disk }, .housed u m)
    | (.error e, disk) => some ({ w with disk }, .returned u (.error e.fault))
  | housed u m =>
    let (result, disk) := w.disk.perform (Disk.writeText m.file m.content)
    some ({ w with disk }, .returned u (result.mapError DiskError.fault))
  | returned _ _ => none

end UpdateStage

/-- Updates as stages. -/
def updateStages (context : ContextId) (ofWorkspace : Bool) (outside : ε → World χ → World χ) :
    Staging (mementoUpdates context ofWorkspace outside) UpdateStage where
  task k := ⟨k.update, none, k.rest context ofWorkspace⟩
  first _ u := .begun u
  turn _ w k := k.turn context ofWorkspace w
  task_first _ _ := rfl
  isReady_task now w k := by
    cases k with
    | begun u => rfl
    | changed u m =>
        simp only [UpdateStage.turn]
        split <;> rfl
    | housed u m => rfl
    | returned u result => rfl
  stretch_task now w k w' k' h := by
    cases k with
    | begun u =>
        obtain ⟨rfl, rfl⟩ := Prod.mk.inj (Option.some.inj h)
        exact ⟨rfl, rfl⟩
    | changed u m =>
        simp only [UpdateStage.turn] at h
        simp only [UpdateStage.rest, save, Flow.bind_eq, Flow.pause, Flow.bind, Flow.wake, onDisk,
          Flow.sync, Flow.stretch_act]
        split at h
        next disk hmade =>
          obtain ⟨rfl, rfl⟩ := Prod.mk.inj (Option.some.inj h)
          rw [hmade]
          exact ⟨rfl, rfl⟩
        next e disk hmade =>
          obtain ⟨rfl, rfl⟩ := Prod.mk.inj (Option.some.inj h)
          rw [hmade]
          exact ⟨rfl, rfl⟩
    | housed u m =>
        obtain ⟨rfl, rfl⟩ := Prod.mk.inj (Option.some.inj h)
        exact ⟨rfl, rfl⟩
    | returned u result => cases h

/-! ## Books -/

/-- Which calls have changed the memento and what for, and which have written its file, one after
another. -/
structure UpdateLedger where
  changes : List (Nat × MementoUpdate) := []
  writes : List Nat := []

namespace UpdateLedger

/-- The calls that have changed the memento. -/
def numbers (e : UpdateLedger) : List Nat := e.changes.map Prod.fst

/-- The changes up to the one that a call has made. -/
def upTo (n : Nat) : List (Nat × MementoUpdate) → List MementoUpdate
  | [] => []
  | (k, u) :: rest => if k = n then [u] else u :: upTo n rest

/-- What the changes have made of a memento. -/
def memory (e : UpdateLedger) (m : Memento) : Memento := m.updateAll (e.changes.map Prod.snd)

/-- What they had made of it when the call had made its own that has written the file last. -/
def written? (e : UpdateLedger) (m : Memento) : Option Memento :=
  e.writes.getLast?.map fun n => m.updateAll (upTo n e.changes)

/-- The ledger behind a move. -/
def after (e : UpdateLedger) (l : Staged (World χ) UpdateStage) :
    Move MementoUpdate ε → UpdateLedger
  | .turn n =>
    match l.stages[n]? with
    | some (.begun u) => { e with changes := e.changes ++ [(n, u)] }
    | some (.housed _ m) =>
      match (l.state.disk.perform (Disk.writeText m.file m.content)).1 with
      | .ok _ => { e with writes := e.writes ++ [n] }
      | .error _ => e
    | _ => e
  | _ => e

theorem upTo_append {n : Nat} {first : List (Nat × MementoUpdate)} (h : n ∈ first.map Prod.fst)
    (later : List (Nat × MementoUpdate)) : upTo n (first ++ later) = upTo n first := by
  induction first with
  | nil => cases h
  | cons change first ih =>
      rw [List.cons_append, upTo, upTo]
      split
      · rfl
      next hne =>
        rw [List.map_cons, List.mem_cons] at h
        rw [ih (h.resolve_left (Ne.symm hne))]

theorem upTo_concat {n : Nat} {first : List (Nat × MementoUpdate)} (h : n ∉ first.map Prod.fst)
    (u : MementoUpdate) : upTo n (first ++ [(n, u)]) = first.map Prod.snd ++ [u] := by
  induction first with
  | nil => simp [upTo]
  | cons change first ih =>
      rw [List.map_cons, List.mem_cons, not_or] at h
      rw [List.cons_append, upTo, if_neg (Ne.symm h.1), ih h.2]
      rfl

theorem mem_of_mem_upTo {n : Nat} {u : MementoUpdate} {changes : List (Nat × MementoUpdate)}
    (h : u ∈ upTo n changes) : u ∈ changes.map Prod.snd := by
  induction changes with
  | nil => cases h
  | cons change changes ih =>
      rw [upTo] at h
      split at h
      · exact List.mem_cons.mpr (.inl (List.mem_singleton.mp h))
      · exact List.mem_cons.mpr ((List.mem_cons.mp h).imp_right ih)

/-- The changes up to the last one are all of them. -/
theorem upTo_last {e : UpdateLedger} (hnodup : e.numbers.Nodup) {n : Nat}
    (h : e.numbers.getLast? = some n) : upTo n e.changes = e.changes.map Prod.snd := by
  obtain ⟨⟨_, u⟩, hlast, rfl⟩ := Option.map_eq_some_iff.mp (List.getLast?_map.symm.trans h)
  obtain ⟨first, hfirst⟩ := List.getLast?_eq_some_iff.mp hlast
  rw [numbers, hfirst, List.map_append, List.nodup_append] at hnodup
  rw [hfirst, upTo_concat fun hmem => hnodup.2.2 _ hmem _ List.mem_cons_self rfl, List.map_append]
  rfl

/-- A later change does not reach what has been written. -/
theorem written?_change {e : UpdateLedger} (h : ∀ n ∈ e.writes, n ∈ e.numbers)
    (change : Nat × MementoUpdate) (m : Memento) :
    written? { e with changes := e.changes ++ [change] } m = e.written? m := by
  refine Option.map_congr fun n hn => ?_
  rw [upTo_append (h n (List.mem_of_getLast? hn))]

theorem memory_change (e : UpdateLedger) (n : Nat) (u : MementoUpdate) (m : Memento) :
    memory { e with changes := e.changes ++ [(n, u)] } m = (e.memory m).put u.key u.value := by
  simp [memory, Memento.updateAll]

end UpdateLedger

/-- The memento that a call has taken from its change. -/
def UpdateStage.snapshot? : UpdateStage → Option Memento
  | changed _ m | housed _ m => some m
  | begun _ | returned _ _ => none

/-- The ledger is one of the calls. -/
structure Enrolled (m : Memento) (stages : List UpdateStage) (e : UpdateLedger) : Prop where
  nodup : e.numbers.Nodup
  fresh : ∀ n u, stages[n]? = some (.begun u) → n ∉ e.numbers
  calls : ∀ n u, (n, u) ∈ e.changes → ∃ k, stages[n]? = some k ∧ k.update = u
  snapshot : ∀ n k, stages[n]? = some k → ∀ taken, k.snapshot? = some taken →
    n ∈ e.numbers ∧ taken = m.updateAll (UpdateLedger.upTo n e.changes)
  writers : ∀ n ∈ e.writes, n ∈ e.numbers
  ended : ∀ n u, stages[n]? = some (.returned u (.ok ())) → n ∈ e.writes

namespace Enrolled

variable {m : Memento} {stages : List UpdateStage} {e : UpdateLedger} {n : Nat} {u : MementoUpdate}

theorem lt_of_mem (h : Enrolled m stages e) (hn : n ∈ e.numbers) : n < stages.length := by
  obtain ⟨⟨_, u⟩, hmem, rfl⟩ := List.mem_map.mp hn
  obtain ⟨k, hk, -⟩ := h.calls _ u hmem
  exact (List.getElem?_eq_some_iff.mp hk).1

/-- A call stays the one that it is. -/
theorem exists_set {i : Nat} {k k' : UpdateStage} (hn : stages[n]? = some k)
    (hupdate : k'.update = k.update) (h : ∃ k, stages[i]? = some k ∧ k.update = u) :
    ∃ k, (stages.set n k')[i]? = some k ∧ k.update = u := by
  obtain ⟨k'', hk, hu⟩ := h
  by_cases hi : n = i
  · subst hi
    rw [hn] at hk
    cases hk
    exact ⟨k', List.getElem?_set_self (List.getElem?_eq_some_iff.mp hn).1, hupdate.trans hu⟩
  · exact ⟨k'', by rwa [List.getElem?_set_ne hi], hu⟩

theorem start (h : Enrolled m stages e) (u : MementoUpdate) :
    Enrolled m (stages ++ [.begun u]) e := by
  refine ⟨h.nodup, fun n v hn hmem => ?_, fun n v hmem => ?_, fun n k hk taken htaken => ?_,
    h.writers, fun n v hn => ?_⟩
  · rcases getElem?_concat_cases hn with hn | ⟨rfl, -⟩
    · exact h.fresh n v hn hmem
    · exact absurd (h.lt_of_mem hmem) (Nat.lt_irrefl _)
  · obtain ⟨k, hk, hu⟩ := h.calls n v hmem
    exact ⟨k, by rw [List.getElem?_append_left (List.getElem?_eq_some_iff.mp hk).1]; exact hk, hu⟩
  · rcases getElem?_concat_cases hk with hk | ⟨-, rfl⟩
    · exact h.snapshot n k hk taken htaken
    · cases htaken
  · rcases getElem?_concat_cases hn with hn | ⟨-, heq⟩
    · exact h.ended n v hn
    · cases heq

/-- One of the calls goes on, and the ledger stays. -/
theorem goOn (h : Enrolled m stages e) {k k' : UpdateStage} (hn : stages[n]? = some k)
    (hupdate : k'.update = k.update) (hbegun : ∀ u, k' ≠ .begun u)
    (hsnapshot : ∀ taken, k'.snapshot? = some taken → k.snapshot? = some taken)
    (hended : ∀ u, k' ≠ .returned u (.ok ())) : Enrolled m (stages.set n k') e := by
  refine ⟨h.nodup, fun i v hi => ?_, fun i v hmem => ?_, fun i k'' hk taken htaken => ?_,
    h.writers, fun i v hi => ?_⟩
  · rcases getElem?_set_cases hn hi with ⟨-, heq⟩ | ⟨-, hi⟩
    · exact absurd heq.symm (hbegun v)
    · exact h.fresh i v hi
  · exact exists_set hn hupdate (h.calls i v hmem)
  · rcases getElem?_set_cases hn hk with ⟨rfl, rfl⟩ | ⟨-, hk⟩
    · exact h.snapshot i k hn taken (hsnapshot taken htaken)
    · exact h.snapshot i k'' hk taken htaken
  · rcases getElem?_set_cases hn hi with ⟨-, heq⟩ | ⟨-, hi⟩
    · exact absurd heq.symm (hended v)
    · exact h.ended i v hi

/-- A call has made the folder of the file. -/
theorem house (h : Enrolled m stages e) {taken : Memento}
    (hn : stages[n]? = some (.changed u taken)) : Enrolled m (stages.set n (.housed u taken)) e :=
  h.goOn hn rfl (fun _ heq => by cases heq) (fun _ htaken => htaken) fun _ heq => by cases heq

/-- A call returns with a fault. -/
theorem fail (h : Enrolled m stages e) {k : UpdateStage} (hn : stages[n]? = some k)
    (fault : Fault) : Enrolled m (stages.set n (.returned k.update (.error fault))) e :=
  h.goOn hn rfl (fun _ heq => by cases heq) (fun _ htaken => by cases htaken)
    fun _ heq => by cases heq

/-- A call changes the memento. -/
theorem change (h : Enrolled m stages e) (hn : stages[n]? = some (.begun u)) :
    Enrolled m (stages.set n (.changed u ((e.memory m).put u.key u.value)))
      { e with changes := e.changes ++ [(n, u)] } := by
  have hnew : n ∉ e.numbers := h.fresh n u hn
  have hnumbers : UpdateLedger.numbers { e with changes := e.changes ++ [(n, u)] } =
      e.numbers ++ [n] := by
    simp [UpdateLedger.numbers]
  refine ⟨?_, fun i v hi => ?_, fun i v hmem => ?_, fun i k'' hk taken htaken => ?_,
    fun i hi => ?_, fun i v hi => ?_⟩
  · rw [hnumbers]
    refine List.nodup_append.mpr ⟨h.nodup, List.pairwise_singleton _ _, fun i hi j hj => ?_⟩
    rw [List.mem_singleton.mp hj]
    exact fun heq => hnew (heq ▸ hi)
  · rw [hnumbers, List.mem_append, List.mem_singleton, not_or]
    rcases getElem?_set_cases hn hi with ⟨-, heq⟩ | ⟨hne, hi⟩
    · cases heq
    · exact ⟨h.fresh i v hi, Ne.symm hne⟩
  · refine exists_set hn rfl ?_
    rcases List.mem_append.mp hmem with hmem | hmem
    · exact h.calls i v hmem
    · cases List.mem_singleton.mp hmem
      exact ⟨_, hn, rfl⟩
  · rw [hnumbers, List.mem_append, List.mem_singleton]
    rcases getElem?_set_cases hn hk with ⟨rfl, rfl⟩ | ⟨-, hk⟩
    · cases htaken
      refine ⟨.inr rfl, ?_⟩
      rw [UpdateLedger.upTo_concat hnew, UpdateLedger.memory, Memento.updateAll,
        Memento.updateAll, List.foldl_append]
      rfl
    · obtain ⟨hmem, heq⟩ := h.snapshot i k'' hk taken htaken
      exact ⟨.inl hmem, heq.trans (congrArg m.updateAll (UpdateLedger.upTo_append hmem _).symm)⟩
  · rw [hnumbers]
    exact List.mem_append_left _ (h.writers i hi)
  · rcases getElem?_set_cases hn hi with ⟨-, heq⟩ | ⟨-, hi⟩
    · cases heq
    · exact h.ended i v hi

/-- A call has written the file. -/
theorem write (h : Enrolled m stages e) {taken : Memento}
    (hn : stages[n]? = some (.housed u taken)) :
    Enrolled m (stages.set n (.returned u (.ok ()))) { e with writes := e.writes ++ [n] } := by
  refine ⟨h.nodup, fun i v hi => ?_, fun i v hmem => ?_, fun i k'' hk other hother => ?_,
    fun i hi => ?_, fun i v hi => ?_⟩
  · rcases getElem?_set_cases hn hi with ⟨-, heq⟩ | ⟨-, hi⟩
    · cases heq
    · exact h.fresh i v hi
  · exact exists_set hn rfl (h.calls i v hmem)
  · rcases getElem?_set_cases hn hk with ⟨-, rfl⟩ | ⟨-, hk⟩
    · cases hother
    · exact h.snapshot i k'' hk other hother
  · rcases List.mem_append.mp hi with hi | hi
    · exact h.writers i hi
    · rw [List.mem_singleton.mp hi]
      exact (h.snapshot n _ hn taken rfl).1
  · rcases getElem?_set_cases hn hi with ⟨rfl, -⟩ | ⟨-, hi⟩
    · exact List.mem_append_right _ List.mem_cons_self
    · exact List.mem_append_left _ (h.ended i v hi)

end Enrolled

/-! ## The memento and its file -/

/-- A memento and its file stay as they are. -/
structure LeavesMemento (context : ContextId) (ofWorkspace : Bool) (place : List String)
    (w w' : World χ) : Prop where
  contexts : w.host.contexts.length ≤ w'.host.contexts.length
  memento : (mementoPart context ofWorkspace).get w' = (mementoPart context ofWorkspace).get w
  disk : Disk.Spares place w.disk w'.disk

/-- The memento and its file are what the ledger says. -/
structure Shows (context : ContextId) (ofWorkspace : Bool) (place : List String) (m : Memento)
    (d : Disk) (w : World χ) (e : UpdateLedger) : Prop where
  made : context < w.host.contexts.length
  straight : w.disk.Straight place
  memory : (mementoPart context ofWorkspace).get w = e.memory m
  before : e.written? m = none → Disk.Spares place d w.disk
  written : ∀ saved, e.written? m = some saved → w.disk.readText m.file = .ok saved.content

/-- What a memento has been set to is what it is, if its context has been made. -/
theorem get_set_memento {context : ContextId} {w : World χ}
    (h : context < w.host.contexts.length) (ofWorkspace : Bool) (m : Memento) :
    (mementoPart context ofWorkspace).get ((mementoPart context ofWorkspace).set m w) = m := by
  have hget : ((w.host.contexts.set context
      ((Context.memento ofWorkspace).set m ((Host.context context).get w.host)))[context]?).getD
        default = (Context.memento ofWorkspace).set m ((Host.context context).get w.host) := by
    rw [List.getElem?_set_self h, Option.getD_some]
  refine (congrArg (Context.memento ofWorkspace).get hget).trans ?_
  cases ofWorkspace <;> rfl

namespace Shows

variable {context : ContextId} {ofWorkspace : Bool} {place : List String} {m : Memento} {d : Disk}
  {w w' : World χ} {e : UpdateLedger} {n : Nat} {u : MementoUpdate}

theorem change (h : Shows context ofWorkspace place m d w e)
    (hwriters : ∀ n ∈ e.writes, n ∈ e.numbers) (n : Nat) (u : MementoUpdate) :
    Shows context ofWorkspace place m d
      ((mementoPart context ofWorkspace).set ((e.memory m).put u.key u.value) w)
      { e with changes := e.changes ++ [(n, u)] } := by
  have hwritten := UpdateLedger.written?_change hwriters (n, u) m
  refine ⟨?_, h.straight, ?_, fun hnone => h.before (hwritten ▸ hnone), fun saved hsaved =>
    h.written saved (hwritten ▸ hsaved)⟩
  · exact (List.length_set ..).symm ▸ h.made
  · rw [get_set_memento h.made, UpdateLedger.memory_change]

theorem leave (h : Shows context ofWorkspace place m d w e) (hfile : m.file.Plain place)
    (hslash : m.file.endsInSlash = false) (hleaves : LeavesMemento context ofWorkspace place w w') :
    Shows context ofWorkspace place m d w' e where
  made := Nat.lt_of_lt_of_le h.made hleaves.contexts
  straight := hleaves.disk.straight h.straight
  memory := hleaves.memento.trans h.memory
  before hnone := (h.before hnone).trans hleaves.disk
  written saved hsaved :=
    (hleaves.disk.readText_eq_ok_iff hfile hslash h.straight _).mpr (h.written saved hsaved)

/-- What a call writes is the memento as it was behind its change. -/
theorem write (h : Shows context ofWorkspace place m d w e) (hfile : m.file.Plain place)
    (hslash : m.file.endsInSlash = false) {taken : Memento} {disk : Disk}
    (htaken : taken = m.updateAll (UpdateLedger.upTo n e.changes))
    (hwrite : w.disk.perform (Disk.writeText m.file taken.content) = (.ok (), disk)) :
    Shows context ofWorkspace place m d { w with disk } { e with writes := e.writes ++ [n] } := by
  have hwritten : UpdateLedger.written? { e with writes := e.writes ++ [n] } m = some taken := by
    simp [UpdateLedger.written?, htaken]
  refine ⟨h.made, ?_, h.memory, fun hnone => ?_, fun saved hsaved => ?_⟩
  · exact fun other hother target hlink => h.straight other hother target
      (Disk.links_of_writeFile hfile h.straight hwrite other target hlink)
  · rw [hwritten] at hnone
    cases hnone
  · rw [hwritten] at hsaved
    cases hsaved
    exact Disk.readText_writeText hfile hslash h.straight hwrite

end Shows

/-! ## Runs -/

section Runs

variable {context : ContextId} {ofWorkspace : Bool} {place : List String} {m : Memento} {d : Disk}
  {outside : ε → World χ → World χ} {l : Staged (World χ) UpdateStage} {e : UpdateLedger}

/-- The ledger is kept. -/
structure Booked (context : ContextId) (ofWorkspace : Bool) (place : List String) (m : Memento)
    (d : Disk) (l : Staged (World χ) UpdateStage) (e : UpdateLedger) : Prop where
  enrolled : Enrolled m l.stages e
  shows : Shows context ofWorkspace place m d l.state e

/-- The folder of a file is made, and nothing else. -/
theorem leavesMemento_createFolders (context : ContextId) (ofWorkspace : Bool)
    (place : List String) (w : World χ) (file : Path) :
    LeavesMemento context ofWorkspace place w
      { w with disk := (w.disk.perform (file.folder?.forM Disk.createFolders)).2 } := by
  have hfolders : Disk.MakesFolders (file.folder?.forM Disk.createFolders) := by
    cases file.folder? with
    | none => exact Disk.makesFolders_pure _
    | some folder => exact Disk.makesFolders_createFolders folder
  exact ⟨Nat.le_refl _, rfl, (hfolders w.disk).spares place⟩

theorem Booked.turn (h : Booked context ofWorkspace place m d l e) (hfile : m.file.Plain place)
    (hslash : m.file.endsInSlash = false) (n : Nat) :
    Booked context ofWorkspace place m d
      ((updateStages context ofWorkspace outside).takeTurn l n)
      (e.after l (.turn n : Move MementoUpdate ε)) := by
  obtain ⟨henrolled, hshows⟩ := h
  have hafter : e.after l (.turn n : Move MementoUpdate ε) = match l.stages[n]? with
      | some (.begun u) => { e with changes := e.changes ++ [(n, u)] }
      | some (.housed _ taken) =>
        match (l.state.disk.perform (Disk.writeText taken.file taken.content)).1 with
        | .ok _ => { e with writes := e.writes ++ [n] }
        | .error _ => e
      | _ => e := rfl
  cases hn : l.stages[n]? with
  | none =>
      have hsame : (updateStages context ofWorkspace outside).takeTurn l n = l := by
        rw [Staging.takeTurn, hn]
      rw [hafter, hsame, hn]
      exact ⟨henrolled, hshows⟩
  | some k =>
      rw [hafter, hn]
      cases k with
      | begun u =>
          rw [Staging.takeTurn_of_some _ hn rfl, hshows.memory]
          exact ⟨henrolled.change hn, hshows.change henrolled.writers n u⟩
      | changed u taken =>
          have hshows' := hshows.leave hfile hslash
            (leavesMemento_createFolders context ofWorkspace place l.state taken.file)
          cases hmade : l.state.disk.perform (taken.file.folder?.forM Disk.createFolders) with
          | mk made disk =>
              rw [hmade] at hshows'
              cases made with
              | ok _ =>
                  have hturn : UpdateStage.turn context ofWorkspace l.state (.changed u taken) =
                      some ({ l.state with disk }, .housed u taken) := by
                    rw [UpdateStage.turn, hmade]
                  rw [Staging.takeTurn_of_some _ hn hturn]
                  exact ⟨henrolled.house hn, hshows'⟩
              | error error =>
                  have hturn : UpdateStage.turn context ofWorkspace l.state (.changed u taken) =
                      some ({ l.state with disk }, .returned u (.error error.fault)) := by
                    rw [UpdateStage.turn, hmade]
                  rw [Staging.takeTurn_of_some _ hn hturn]
                  exact ⟨henrolled.fail hn error.fault, hshows'⟩
      | housed u taken =>
          obtain ⟨-, htaken⟩ := henrolled.snapshot n _ hn taken rfl
          have hsame : taken.file = m.file := by rw [htaken, Memento.file_updateAll]
          cases hwrite : l.state.disk.perform (Disk.writeText m.file taken.content) with
          | mk written disk =>
              have hturn : UpdateStage.turn context ofWorkspace l.state (.housed u taken) =
                  some ({ l.state with disk }, .returned u (written.mapError DiskError.fault)) := by
                rw [UpdateStage.turn, hsame, hwrite]
              rw [Staging.takeTurn_of_some _ hn hturn]
              dsimp only
              rw [hsame, hwrite]
              cases written with
              | ok _ => exact ⟨henrolled.write hn, hshows.write hfile hslash htaken hwrite⟩
              | error error =>
                  obtain rfl := Disk.eq_of_writeText_error hfile hshows.straight hwrite
                  exact ⟨henrolled.fail hn error.fault, hshows⟩
      | returned u result =>
          rw [Staging.takeTurn_of_none _ hn rfl]
          exact ⟨henrolled, hshows⟩

/-- The ledger of a run. -/
def keepLedger (context : ContextId) (ofWorkspace : Bool) (outside : ε → World χ → World χ) :
    Staged (World χ) UpdateStage → UpdateLedger → List (Move MementoUpdate ε) → UpdateLedger
  | _, e, [] => e
  | l, e, move :: moves =>
    keepLedger context ofWorkspace outside
      ((updateStages context ofWorkspace outside).step l move) (e.after l move) moves

theorem Booked.step (h : Booked context ofWorkspace place m d l e) (hfile : m.file.Plain place)
    (hslash : m.file.endsInSlash = false)
    (houtside : ∀ event w, LeavesMemento context ofWorkspace place w (outside event w))
    (move : Move MementoUpdate ε) :
    Booked context ofWorkspace place m d
      ((updateStages context ofWorkspace outside).step l move) (e.after l move) := by
  cases move with
  | start u => exact ⟨h.enrolled.start u, h.shows⟩
  | turn n => exact h.turn hfile hslash n
  | pass time =>
      rw [Staging.step, Staging.pass]
      split
      · exact ⟨h.enrolled, h.shows⟩
      · exact h
  | outside event => exact ⟨h.enrolled, h.shows.leave hfile hslash (houtside event l.state)⟩

theorem Booked.run (h : Booked context ofWorkspace place m d l e) (hfile : m.file.Plain place)
    (hslash : m.file.endsInSlash = false)
    (houtside : ∀ event w, LeavesMemento context ofWorkspace place w (outside event w))
    (moves : List (Move MementoUpdate ε)) :
    Booked context ofWorkspace place m d
      ((updateStages context ofWorkspace outside).run l moves)
      (keepLedger context ofWorkspace outside l e moves) := by
  induction moves generalizing l e with
  | nil => exact h
  | cons move moves ih => exact ih (h.step hfile hslash houtside move)

/-- A memento of a context that has been made, with a file that is reached through no links. -/
structure KeepsMemento (context : ContextId) (ofWorkspace : Bool) (place : List String)
    (w : World χ) : Prop where
  made : context < w.host.contexts.length
  file : ((mementoPart context ofWorkspace).get w).file.Plain place
  slash : ((mementoPart context ofWorkspace).get w).file.endsInSlash = false
  straight : w.disk.Straight place

/-- Before any call the ledger is empty. -/
theorem KeepsMemento.booked {w : World χ} (h : KeepsMemento context ofWorkspace place w) :
    Booked context ofWorkspace place ((mementoPart context ofWorkspace).get w) w.disk
      { state := w } {} where
  enrolled := ⟨List.Pairwise.nil, nofun, nofun, nofun, nofun, nofun⟩
  shows := ⟨h.made, h.straight, rfl, fun _ => .refl place w.disk, nofun⟩

theorem filterMap_range {α : Type} (items : List α) :
    (List.range items.length).filterMap (items[·]?) = items := by
  induction items with
  | nil => rfl
  | cons item items ih =>
      have hfirst : (item :: items)[0]? = some item := rfl
      rw [List.length_cons, List.range_succ_eq_map, List.filterMap_cons_some hfirst,
        List.filterMap_map]
      exact congrArg (item :: ·) ih

/-- When all calls have written, each of them has made its change once. -/
theorem Enrolled.perm_changes {stages : List UpdateStage} (h : Enrolled m stages e)
    (hall : ∀ n < stages.length, n ∈ e.numbers) :
    (e.changes.map Prod.snd).Perm (stages.map UpdateStage.update) := by
  have hnumbers : e.numbers.Perm (List.range stages.length) :=
    (List.perm_ext_iff_of_nodup h.nodup List.nodup_range).mpr fun n =>
      ⟨fun hn => List.mem_range.mpr (h.lt_of_mem hn), fun hn => hall n (List.mem_range.mp hn)⟩
  have hchanges : e.changes.map Prod.snd =
      (e.numbers.filterMap (stages[·]?)).map UpdateStage.update := by
    have hcalls := h.calls
    rw [UpdateLedger.numbers]
    generalize e.changes = changes at hcalls
    induction changes with
    | nil => rfl
    | cons change changes ih =>
        obtain ⟨k, hk, hupdate⟩ := hcalls change.1 change.2 List.mem_cons_self
        rw [List.map_cons, List.map_cons, List.filterMap_cons_some hk, List.map_cons, hupdate,
          ih fun n u hmem => hcalls n u (List.mem_cons_of_mem _ hmem)]
  have hall := (hnumbers.filterMap (stages[·]?)).map UpdateStage.update
  rwa [← hchanges, filterMap_range] at hall

theorem UpdateStage.eq_returned {k : UpdateStage} {result : Except Fault Unit}
    (h : k.rest (χ := χ) context ofWorkspace = .done result) : k = .returned k.update result := by
  cases k with
  | begun u => exact nomatch (show Flow.act _ _ = Flow.done _ from h)
  | changed u m => exact nomatch (show Flow.await _ _ _ = Flow.done _ from h)
  | housed u m => exact nomatch (show Flow.await _ _ _ = Flow.done _ from h)
  | returned u result' =>
      cases h
      rfl

/-- Updates of one memento run together, and all of them succeed.  In memory each change has been
made once, in the order in which the calls began.  The file holds the memento as it was when the
call had changed it that has written the file last: the changes that were made between that one and
the last are not in it. -/
theorem updates_stored {w : World χ} (h : KeepsMemento context ofWorkspace place w)
    (houtside : ∀ event w, LeavesMemento context ofWorkspace place w (outside event w))
    (hm : (mementoPart context ofWorkspace).get w = m) {moves : List (Move MementoUpdate ε)}
    {p : Pool MementoUpdate (World χ) (Except Fault Unit)}
    (hp : (mementoUpdates context ofWorkspace outside).run { state := w } moves = p)
    (he : keepLedger context ofWorkspace outside { state := w } {} moves = e)
    (hok : ∀ t ∈ p.tasks, t.rest = .done (.ok ())) :
    (e.changes.map Prod.snd).Perm (p.tasks.map Task.call) ∧
      (mementoPart context ofWorkspace).get p.state = e.memory m ∧
      (p.tasks = [] → Memento.load p.state.disk m.file = Memento.load w.disk m.file) ∧
      (p.tasks ≠ [] → ∃ saved, e.written? m = some saved ∧
        Memento.load p.state.disk m.file = saved.reread ∧
        (m.Survives → (∀ t ∈ p.tasks, Json.Survives Memento.valueDepth t.call.value) →
          Memento.load p.state.disk m.file = saved) ∧
        (e.writes.getLast? = e.numbers.getLast? → saved = e.memory m)) := by
  subst hm
  obtain ⟨henrolled, hshows⟩ := h.booked.run h.file h.slash houtside moves
  have hpool := (updateStages context ofWorkspace outside).run_pool { state := w } moves
  rw [he] at henrolled hshows
  generalize (updateStages context ofWorkspace outside).run { state := w } moves = l
    at henrolled hshows hpool
  obtain rfl : (updateStages context ofWorkspace outside).pool l = p := hpool.symm.trans hp
  have hover (n : Nat) (hn : n < l.stages.length) : n ∈ e.writes := by
    have hrest := hok _ (List.mem_map_of_mem (List.getElem_mem hn))
    exact henrolled.ended n _ ((List.getElem?_eq_getElem hn).trans
      (congrArg some (UpdateStage.eq_returned hrest)))
  have hperm := henrolled.perm_changes fun n hn => henrolled.writers n (hover n hn)
  have hcalls : ((updateStages context ofWorkspace outside).pool l).tasks.map Task.call =
      l.stages.map UpdateStage.update := List.map_map
  rw [hcalls]
  refine ⟨hperm, hshows.memory, fun hnil => ?_, fun hne => ?_⟩
  · have hwrites : e.writes = [] := by
      refine List.eq_nil_iff_forall_not_mem.mpr fun n hn => ?_
      have hlt := henrolled.lt_of_mem (henrolled.writers n hn)
      rw [List.map_eq_nil_iff.mp hnil] at hlt
      exact absurd hlt (Nat.not_lt_zero n)
    have hwritten : e.written? ((mementoPart context ofWorkspace).get w) = none := by
      rw [UpdateLedger.written?, hwrites]
      rfl
    exact Memento.load_congr ((hshows.before hwritten).readText_eq_ok_iff h.file h.slash h.straight)
  have hwrites : e.writes ≠ [] := by
    have hlength : 0 < l.stages.length := List.length_pos_iff.mpr fun hnil => hne (by
      simp [Staging.pool, hnil])
    exact List.ne_nil_of_mem (hover 0 hlength)
  obtain ⟨n, hlast⟩ : ∃ n, e.writes.getLast? = some n :=
    Option.isSome_iff_exists.mp (by simpa using hwrites)
  have hwritten : e.written? ((mementoPart context ofWorkspace).get w) = some
      (((mementoPart context ofWorkspace).get w).updateAll (UpdateLedger.upTo n e.changes)) := by
    rw [UpdateLedger.written?, hlast, Option.map_some]
  have hload := Memento.load_of_readText
    (m := ((mementoPart context ofWorkspace).get w).updateAll (UpdateLedger.upTo n e.changes))
    (by rw [Memento.file_updateAll]; exact hshows.written _ hwritten)
  rw [Memento.file_updateAll] at hload
  refine ⟨_, hwritten, hload, fun hsurvives hvalues => hload.trans ?_, fun hsame => ?_⟩
  · refine (hsurvives.updateAll fun u hu => ?_).reread
    have hmem := (hcalls ▸ hperm).mem_iff.mp (UpdateLedger.mem_of_mem_upTo hu)
    obtain ⟨t, ht, rfl⟩ := List.mem_map.mp hmem
    exact hvalues t ht
  · rw [UpdateLedger.upTo_last henrolled.nodup (hsame ▸ hlast)]
    rfl

end Runs

/-! ## Two updates -/

/-- An extension with a context, on a disk. -/
def contextWorld (disk : Disk) : World Unit :=
  (makeContext "p.a" ⟨"/data/extensions/p.a"⟩ (startedWorld disk)).2

/-- Surroundings in which nothing happens. -/
def stillness : Empty → World Unit → World Unit := fun event _ => event.elim

/-- What has come of some updates. -/
structure UpdateOutcome where
  succeeded : Bool
  memory : Table Json
  file : Table Json
  deriving DecidableEq

/-- Whether a call has returned without a fault. -/
def hasSucceeded (t : Task MementoUpdate (World Unit) (Except Fault Unit)) : Bool :=
  match t.rest with
  | .done result => result.isOk
  | _ => false

/-- What comes of updates of an extension's memento, in the order of some moves. -/
def updateOutcome (disk : Disk) (moves : List (Move MementoUpdate Empty)) : UpdateOutcome :=
  let p := (mementoUpdates 0 false stillness).run { state := contextWorld disk } moves
  let m := (mementoPart 0 false).get p.state
  ⟨p.tasks.all hasSucceeded, m.values, (Memento.load p.state.disk m.file).values⟩

/-- Two changes, and a number of turns of the two calls. -/
def twoUpdates (turns : List Nat) : List (Move MementoUpdate Empty) :=
  [.start ⟨"a", .whole 1⟩, .start ⟨"b", .whole 2⟩] ++ turns.map .turn

/-- Where the file of the memento is. -/
def statePlace : List String := ["data", "extension-storage", "p.a", "state.json"]

theorem keepsMemento_contextWorld : KeepsMemento 0 false statePlace (contextWorld .empty) := by
  have hfile : ((mementoPart 0 false).get (contextWorld .empty)).file =
      ⟨"/data/extension-storage/p.a/state.json"⟩ := by
    decide +kernel
  have hmade : LeavesDisabled statePlace (startedWorld .empty) (contextWorld .empty) :=
    keeps_makeContext_disabled ⟨"/data/extensions/p.a"⟩ (startedWorld .empty)
  have hlinkless : Disk.empty.root.Linkless := .folder nofun
  refine ⟨by decide +kernel, ?_, ?_, hmade.disk.straight fun other _ target =>
    hlinkless.faceAt_ne_link other target⟩
  · rw [hfile]
    exact ⟨by decide, by decide, by decide⟩
  · rw [hfile]
    decide

theorem eq_done_of_hasSucceeded {t : Task MementoUpdate (World Unit) (Except Fault Unit)}
    (h : hasSucceeded t = true) : t.rest = .done (.ok ()) := by
  unfold hasSucceeded at h
  split at h
  next result hrest =>
    cases result with
    | ok _ => exact hrest
    | error fault => cases h
  · cases h

/-- Two calls that make their changes one after the other, and write the file in the same order. -/
def overlapping : Pool MementoUpdate (World Unit) (Except Fault Unit) :=
  (mementoUpdates 0 false stillness).run { state := contextWorld .empty }
    (twoUpdates [0, 1, 0, 1, 0, 1])

/-- Nothing is lost when the calls write in the order of their changes. -/
theorem updates_stored_overlapping :
    overlapping.tasks.map Task.call = [⟨"a", .whole 1⟩, ⟨"b", .whole 2⟩] ∧
      Memento.load overlapping.state.disk ((mementoPart 0 false).get (contextWorld .empty)).file =
        (mementoPart 0 false).get overlapping.state := by
  have hcalls : overlapping.tasks.map Task.call = [⟨"a", .whole 1⟩, ⟨"b", .whole 2⟩] := by
    decide +kernel
  have hok : overlapping.tasks.all hasSucceeded = true := by decide +kernel
  have hnew : ((mementoPart 0 false).get (contextWorld .empty)).values = [] := by decide +kernel
  obtain ⟨-, hmemory, -, hfile⟩ := updates_stored keepsMemento_contextWorld nofun rfl
    (rfl : _ = overlapping) rfl
    fun t ht => eq_done_of_hasSucceeded (List.all_eq_true.mp hok t ht)
  obtain ⟨saved, -, -, hload, hsame⟩ := hfile fun hnil => by simp [hnil] at hcalls
  refine ⟨hcalls, (hload ⟨hnew ▸ Table.sorted_nil, by simp [hnew]⟩ fun t ht => ?_).trans ?_⟩
  · have hcall : t.call ∈ [(⟨"a", .whole 1⟩ : MementoUpdate), ⟨"b", .whole 2⟩] :=
      hcalls ▸ List.mem_map_of_mem ht
    simp only [List.mem_cons, List.not_mem_nil, or_false] at hcall
    rcases hcall with hcall | hcall <;> rw [hcall] <;>
      exact Json.survives_whole (by decide) (by decide)
  · rw [hmemory]
    exact hsame (by decide +kernel)

/-- A disk with a memento that holds a number. -/
def numberDisk : Disk where
  root := .folder [("data", .folder [("extension-storage", .folder [("p.a", .folder [
    ("state.json", .file (.text "\x7b\"k\":9.1584787405073590\x7d"))])])])]

/-- A change of another key, on a disk where the memento holds a number. -/
def unrelated : List (Move MementoUpdate Empty) :=
  [.start ⟨"n", .whole 1⟩, .turn 0, .turn 0, .turn 0]

/-- Two ways to lose something with updates that all succeed.  The call that has changed the memento
first may write the file last, and then the other change is not in it.  And the shortest numeral of
9.1584787405073590 is read as the number next to it. -/
theorem updates_lost :
    updateOutcome .empty (twoUpdates [0, 1, 0, 1, 1, 0]) =
        ⟨true, [("a", .whole 1), ("b", .whole 2)], [("a", .whole 1)]⟩ ∧
      updateOutcome numberDisk unrelated =
        ⟨true, [("k", .number (.double ⟨false, 5155765180378694, -49⟩)), ("n", .whole 1)],
          [("k", .number (.double ⟨false, 5155765180378695, -49⟩)), ("n", .whole 1)]⟩ := by
  refine ⟨by decide +kernel, ?_⟩
  have hsucceeded : (updateOutcome numberDisk unrelated).succeeded = true := by decide +kernel
  have hmemory : (updateOutcome numberDisk unrelated).memory =
      [("k", .number (.double ⟨false, 5155765180378694, -49⟩)), ("n", .whole 1)] := by
    decide +kernel
  have htext : (((mementoUpdates 0 false stillness).run { state := contextWorld numberDisk }
      unrelated).state.disk.readText ((mementoPart 0 false).get ((mementoUpdates 0 false
        stillness).run { state := contextWorld numberDisk } unrelated).state).file) =
        .ok "\x7b\n  \"k\": 9.158478740507359,\n  \"n\": 1\n\x7d" := by
    decide +kernel
  have hfile : (updateOutcome numberDisk unrelated).file =
      [("k", .number (.double ⟨false, 5155765180378695, -49⟩)), ("n", .whole 1)] := by
    rw [updateOutcome, Memento.load, htext]
    decide +kernel
  rw [← hsucceeded, ← hmemory, ← hfile]

end World

end EditorHost
