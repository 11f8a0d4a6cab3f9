import EditorHost.Proofs.Extension.Stories
import Mathlib.Data.List.Forall2
import Mathlib.Logic.Function.Basic

/-!
# A consumer rebuilds a collection of diagnostics

Extensions give documents their diagnostics in a collection, take them away from one document or
from all, also through disposables, and also through those that have been disposed of.  A consumer
knows the events only.  It starts with nothing, and for each event that names the collection it
replaces what it holds for the document of the event.

Behind every call it holds what the collection has (`DiagnosticCollection.follow_run`), although the
documents of a collection that is cleared are told in no particular order, and although events of
others come in between.

## Contents

* `Call` is what can be called, and `Desk` a world with a collection in it and the disposables that
  the callers hold.
* `hear` is what a consumer does with an event.
* `Tells`: whoever held what a collection had, and hears of an operation, holds what it has then.
* `Does`: which operation a call is; `Leads`: what some calls come to.
-/

namespace EditorHost.DiagnosticCollection

variable {χ : Type}

/-! ## Calls -/

/-- What can be called on a collection; what is called on a clone is called on the collection.
Disposables are named by number, in the order in which they were made. -/
inductive Call where
  | set (uri : String) (found : List Diagnostic)
  | delete (uri : String)
  | clear
  /-- Makes a disposable that clears the collection. -/
  | asDisposable
  | undo (disposable : Nat)

/-- A world, one of its collections, and the disposables that were made of it.  The callers keep
those that have been disposed of. -/
structure Desk (χ : Type) where
  world : World χ
  id : Nat
  disposables : List HandleId := []

namespace Desk

/-- Makes a collection. -/
def create (name : String) (w : World χ) : Desk χ :=
  let (id, world) := World.apiPart.zoom (fun api => api.createCollection name) w
  { world, id }

/-- Changes the collection. -/
def change (d : Desk χ) (op : DiagnosticCollection → List Event × DiagnosticCollection) : Desk χ :=
  { d with world := (World.change (fun api => api.changeCollection d.id op) d.world).2 }

/-- What a call does. -/
def perform (code : Code χ) (d : Desk χ) : Call → Desk χ
  | .set uri found => d.change fun c => c.set uri found
  | .delete uri => d.change fun c => c.delete uri
  | .clear => d.change DiagnosticCollection.clear
  | .asDisposable =>
    let (handle, world) := World.apiPart.zoom (fun api => api.keep (.collection d.id)) d.world
    { d with world, disposables := d.disposables ++ [handle] }
  | .undo n =>
    match d.disposables[n]? with
    | none => d
    | some handle => { d with world := (World.dispose code handle d.world).2 }

/-- What calls do, one after another. -/
def run (code : Code χ) (d : Desk χ) (calls : List Call) : Desk χ := calls.foldl (perform code) d

/-- The events that a call tells. -/
def told (code : Code χ) (d : Desk χ) (call : Call) : List Event :=
  (d.perform code call).world.events.drop d.world.events.length

/-- The events that each of some calls tells. -/
def tellings (code : Code χ) (d : Desk χ) : List Call → List (List Event)
  | [] => []
  | call :: calls => d.told code call :: (d.perform code call).tellings code calls

end Desk

/-! ## Consumers -/

/-- Whether an event is about a collection. -/
def isAbout (name : String) : Event → Bool
  | .diagnostics _ source _ => source == name
  | _ => false

/-- What a consumer holds behind an event. -/
def hear (name : String) (held : String → List Diagnostic) (event : Event) :
    String → List Diagnostic :=
  match event with
  | .diagnostics uri source found => if source = name then Function.update held uri found else held
  | _ => held

/-- What a consumer holds that started with nothing. -/
def follow (name : String) (events : List Event) : String → List Diagnostic :=
  events.foldl (hear name) fun _ => []

/-- What has been heard of a call, with what others told in between: the events of the call, in
any order. -/
def Heard (name : String) (heard told : List Event) : Prop :=
  (heard.filter (isAbout name)).Perm told

variable {c c' c'' : DiagnosticCollection} {name uri : String} {held : String → List Diagnostic}

@[simp] theorem hear_diagnostics (name uri : String) (found : List Diagnostic)
    (held : String → List Diagnostic) :
    hear name held (.diagnostics uri name found) = Function.update held uri found := if_pos rfl

/-- What others tell does not matter. -/
theorem foldl_hear_filter (name : String) (events : List Event) (held : String → List Diagnostic) :
    (events.filter (isAbout name)).foldl (hear name) held = events.foldl (hear name) held := by
  have hskip : (fun held event => if isAbout name event then hear name held event else held) =
      hear name := by
    funext held event
    cases event with
    | diagnostics uri source found => by_cases h : source = name <;> simp [isAbout, hear, h]
    | _ => rfl
  rw [List.foldl_filter, hskip]

/-! ## Operations -/

/-- The source of a diagnostic in a collection. -/
def sourced (name : String) (d : Diagnostic) : Diagnostic :=
  { d with source := some (d.source.getD name) }

theorem get_set (c : DiagnosticCollection) (uri : String) (found : List Diagnostic) :
    (c.set uri found).2.get = Function.update c.get uri (found.map (sourced c.name)) := by
  funext other
  rw [Function.update_apply]
  simp only [set, get, Table.find?_insert]
  split <;> rfl

/-- A document is forgotten if it is there. -/
theorem delete_cases (c : DiagnosticCollection) (uri : String) :
    (c.entries.has uri = true ∧ c.delete uri =
      ([.diagnostics uri c.name []], { c with entries := c.entries.erase uri })) ∨
    (c.entries.has uri = false ∧ c.get uri = [] ∧ c.delete uri = ([], c)) := by
  unfold delete get
  cases hhas : c.entries.has uri with
  | true => exact .inl ⟨rfl, rfl⟩
  | false =>
      rw [Table.has, Option.isSome_eq_false_iff, Option.isNone_iff_eq_none] at hhas
      exact .inr ⟨rfl, by rw [hhas]; rfl, rfl⟩

theorem get_delete (c : DiagnosticCollection) (uri : String) :
    (c.delete uri).2.get = Function.update c.get uri [] := by
  rcases delete_cases c uri with ⟨-, hdelete⟩ | ⟨-, hnone, hdelete⟩
  · rw [hdelete]
    funext other
    rw [Function.update_apply]
    simp only [get, Table.find?_erase]
    split <;> rfl
  · rw [hdelete, ← hnone, Function.update_eq_self]

theorem get_of_not_mem (h : uri ∉ c.entries.keys) : c.get uri = [] := by
  cases hfind : c.entries.find? uri with
  | none => rw [get, hfind]; rfl
  | some found => exact absurd (List.mem_map_of_mem (Table.mem_of_find? hfind)) h

/-- What is held when documents are told to have no diagnostics. -/
theorem foldl_hear_forgotten (name : String) (uris : List String)
    (held : String → List Diagnostic) :
    (uris.map fun uri => Event.diagnostics uri name []).foldl (hear name) held =
      fun uri => if uri ∈ uris then [] else held uri := by
  induction uris generalizing held with
  | nil => simp
  | cons uri uris ih =>
      rw [List.map_cons, List.foldl_cons, ih, hear_diagnostics]
      funext other
      rw [Function.update_apply]
      by_cases heq : other = uri <;> by_cases hmem : other ∈ uris <;> simp [heq, hmem]

/-- An operation is told: whoever held what the collection had, and hears of it, holds what the
collection has then. -/
structure Tells (op : DiagnosticCollection → List Event × DiagnosticCollection) : Prop where
  name : ∀ c, (op c).2.name = c.name
  hears : ∀ c heard, Heard c.name heard (op c).1 →
    heard.foldl (hear c.name) c.get = (op c).2.get

/-- It is enough that the events may be told in every order. -/
theorem Tells.of_commute {op : DiagnosticCollection → List Event × DiagnosticCollection}
    (hname : ∀ c, (op c).2.name = c.name)
    (hget : ∀ c, (op c).1.foldl (hear c.name) c.get = (op c).2.get)
    (hcommute : ∀ c, ∀ e ∈ (op c).1, ∀ e' ∈ (op c).1, ∀ held,
      hear c.name (hear c.name held e) e' = hear c.name (hear c.name held e') e) :
    Tells op where
  name := hname
  hears c heard hheard := by
    have hsame := hheard.foldl_eq' (fun e he e' he' held =>
      hcommute c e (hheard.mem_iff.mp he) e' (hheard.mem_iff.mp he') held) c.get
    rw [← foldl_hear_filter, hsame, hget]

theorem tells_nothing : Tells fun c => ([], c) :=
  .of_commute (fun _ => rfl) (fun _ => rfl) fun _ _ he => absurd he List.not_mem_nil

theorem tells_set (uri : String) (found : List Diagnostic) : Tells fun c => c.set uri found :=
  .of_commute (fun _ => rfl) (fun c => (hear_diagnostics ..).trans (get_set c uri found).symm)
    fun c e he e' he' held => by rw [List.mem_singleton.mp he, List.mem_singleton.mp he']

theorem tells_delete (uri : String) : Tells fun c => c.delete uri := by
  refine .of_commute (fun c => ?_) (fun c => ?_) fun c e he e' he' held => ?_
  all_goals rcases delete_cases c uri with ⟨-, hdelete⟩ | ⟨-, hnone, hdelete⟩
  · rw [hdelete]
  · rw [hdelete]
  · rw [get_delete, hdelete]
    exact hear_diagnostics ..
  · rw [hdelete]
    rfl
  · rw [hdelete] at he he'
    rw [List.mem_singleton.mp he, List.mem_singleton.mp he']
  · rw [hdelete] at he
    cases he

theorem tells_clear : Tells clear := by
  refine .of_commute (fun _ => rfl) (fun c => ?_) fun c e he e' he' held => ?_
  · rw [clear, foldl_hear_forgotten]
    funext uri
    split
    · rfl
    next hnot => exact get_of_not_mem hnot
  · -- a document is told once, and if it were told twice, the same
    obtain ⟨uri, -, rfl⟩ := List.mem_map.mp he
    obtain ⟨uri', -, rfl⟩ := List.mem_map.mp he'
    rw [hear_diagnostics, hear_diagnostics, hear_diagnostics, hear_diagnostics]
    by_cases heq : uri = uri'
    · rw [heq]
    · exact Function.update_comm heq [] [] held

/-! ## What a call is -/

/-- The operation that a call is.  A disposable clears the collection once, and then no more. -/
inductive Does : Call → (DiagnosticCollection → List Event × DiagnosticCollection) → Prop where
  | set (uri : String) (found : List Diagnostic) : Does (.set uri found) fun c => c.set uri found
  | delete (uri : String) : Does (.delete uri) fun c => c.delete uri
  | clear : Does .clear DiagnosticCollection.clear
  | asDisposable : Does .asDisposable fun c => ([], c)
  | undo (disposable : Nat) : Does (.undo disposable) DiagnosticCollection.clear
  | undone (disposable : Nat) : Does (.undo disposable) fun c => ([], c)

namespace Does

variable {call : Call} {op : DiagnosticCollection → List Event × DiagnosticCollection}

theorem tells (h : Does call op) : Tells op := by
  cases h with
  | set uri found => exact tells_set uri found
  | delete uri => exact tells_delete uri
  | clear | undo => exact tells_clear
  | asDisposable | undone => exact tells_nothing

/-- All that is told is about the collection. -/
theorem isAbout (h : Does call op) {e : Event} (he : e ∈ (op c).1) : isAbout c.name e = true := by
  cases h with
  | set uri found => rw [List.mem_singleton.mp he]; exact beq_self_eq_true c.name
  | delete uri =>
      change e ∈ (c.delete uri).1 at he
      rcases delete_cases c uri with ⟨-, hdelete⟩ | ⟨-, -, hdelete⟩
      · rw [hdelete] at he
        rw [List.mem_singleton.mp he]
        exact beq_self_eq_true c.name
      · rw [hdelete] at he
        cases he
  | clear | undo =>
      obtain ⟨uri, -, rfl⟩ := List.mem_map.mp he
      exact beq_self_eq_true c.name
  | asDisposable | undone => cases he

/-- A document has none, what it had, or what it is given. -/
theorem stored (h : Does call op) (c : DiagnosticCollection) (uri : String) :
    (op c).2.get uri = [] ∨ (op c).2.get uri = c.get uri ∨
      ∃ found, call = .set uri found ∧ (op c).2.get uri = found.map (sourced c.name) := by
  cases h with
  | set other found =>
      rw [get_set, Function.update_apply]
      by_cases heq : uri = other
      · exact .inr (.inr ⟨found, by rw [heq], if_pos heq⟩)
      · exact .inr (.inl (if_neg heq))
  | delete other =>
      rw [get_delete, Function.update_apply]
      by_cases heq : uri = other
      · exact .inl (if_pos heq)
      · exact .inr (.inl (if_neg heq))
  | clear | undo => exact .inl rfl
  | asDisposable | undone => exact .inr (.inl rfl)

end Does

/-! ## One call -/

/-- The collection as it is, and that the disposables clear it as long as they do anything. -/
structure Desk.Holds (d : Desk χ) (c : DiagnosticCollection) : Prop where
  collection : d.world.api.collections[d.id]? = some c
  disposables : ∀ handle ∈ d.disposables, ∀ action,
    d.world.api.action? handle = some action → action = .collection d.id

namespace Desk

variable {d : Desk χ}

theorem id_perform (code : Code χ) (d : Desk χ) (call : Call) :
    (d.perform code call).id = d.id := by
  cases call with
  | undo n =>
      rw [perform]
      split <;> rfl
  | _ => rfl

theorem id_run (code : Code χ) (d : Desk χ) (calls : List Call) : (d.run code calls).id = d.id := by
  induction calls generalizing d with
  | nil => rfl
  | cons call calls ih => exact (ih _).trans (id_perform code d call)

theorem told_eq {code : Code χ} {call : Call} {events : List Event}
    (h : (d.perform code call).world.events = d.world.events ++ events) :
    d.told code call = events := by
  rw [told, h, List.drop_left]

/-- What each call tells that may be the next. -/
structure Speaks (d : Desk χ) (code : Code χ) (c : DiagnosticCollection) : Prop where
  set : ∀ uri found,
    d.told code (.set uri found) = [.diagnostics uri c.name (found.map (sourced c.name))]
  delete : ∀ uri, c.entries.has uri = true →
    d.told code (.delete uri) = [.diagnostics uri c.name []]
  absent : ∀ uri, c.entries.has uri = false → d.told code (.delete uri) = []
  clear : d.told code .clear = c.entries.keys.map fun uri => .diagnostics uri c.name []
  empty : c.entries = [] → d.told code .clear = []
  /-- A disposable clears the collection the first time. -/
  disposal : (d.perform code .asDisposable).told code (.undo d.disposables.length) =
    d.told code .clear
  undo : ∀ n, d.told code (.undo n) = [] ∨ d.told code (.undo n) = d.told code .clear

namespace Holds

/-- The collection is changed, and what that says is told. -/
theorem change (h : d.Holds c) (op : DiagnosticCollection → List Event × DiagnosticCollection) :
    (d.change op).Holds (op c).2 ∧
      (d.change op).world.events = d.world.events ++ (op c).1 := by
  have hchange : d.world.api.changeCollection d.id op =
      ((op c).1, { d.world.api with
        collections := d.world.api.collections.set d.id (op c).2 }) := by
    rw [Api.changeCollection, h.collection]
  have hworld : (d.change op).world = { d.world with
      api := (d.world.api.changeCollection d.id op).2
      events := d.world.events ++ (d.world.api.changeCollection d.id op).1 } := rfl
  rw [hchange] at hworld
  refine ⟨⟨?_, fun handle hhandle action haction => ?_⟩, by rw [hworld]⟩
  · rw [hworld]
    exact List.getElem?_set_self (List.getElem?_eq_some_iff.mp h.collection).1
  · rw [hworld] at haction
    exact h.disposables handle hhandle action haction

theorem asDisposable (h : d.Holds c) (code : Code χ) :
    (d.perform code .asDisposable).Holds c := by
  refine ⟨h.collection, fun handle hhandle action haction => ?_⟩
  rcases Api.action?_keep haction with hold | ⟨-, hnew⟩
  · rcases List.mem_append.mp hhandle with hmem | hmem
    · exact h.disposables handle hmem action hold
    · -- before, there was no such handle
      have hlt := Api.lt_of_isSome_action? (Option.isSome_of_eq_some hold)
      exact absurd (List.mem_singleton.mp hmem) (Nat.ne_of_lt hlt)
  · exact hnew

/-- The action of a disposable is taken out before it runs. -/
theorem taken (h : d.Holds c) (handle : HandleId) :
    ({ d with world := { d.world with
        api := { d.world.api with handles := d.world.api.handles.set handle none } } } :
      Desk χ).Holds c where
  collection := h.collection
  disposables other hother action haction :=
    h.disposables other hother action (Api.action?_taken haction)

/-- A disposable that does something clears the collection. -/
theorem undo (h : d.Holds c) (code : Code χ) {n : Nat} {handle : HandleId} {action : Undo}
    (hhandle : d.disposables[n]? = some handle)
    (haction : d.world.api.action? handle = some action) :
    (d.perform code (.undo n)).Holds c.clear.2 ∧
      (d.perform code (.undo n)).world.events = d.world.events ++ c.clear.1 := by
  obtain rfl := h.disposables handle (List.mem_of_getElem? hhandle) action haction
  rw [Desk.perform, hhandle]
  dsimp only
  rw [World.dispose_of_action code haction nofun]
  exact (h.taken handle).change DiagnosticCollection.clear

/-- Each call is an operation, which is told. -/
theorem perform (h : d.Holds c) (code : Code χ) (call : Call) :
    ∃ op, Does call op ∧ (d.perform code call).Holds (op c).2 ∧
      (d.perform code call).world.events = d.world.events ++ (op c).1 := by
  cases call with
  | set uri found => exact ⟨_, .set uri found, h.change _⟩
  | delete uri => exact ⟨_, .delete uri, h.change _⟩
  | clear => exact ⟨_, .clear, h.change _⟩
  | asDisposable => exact ⟨_, .asDisposable, h.asDisposable code, (List.append_nil _).symm⟩
  | undo n =>
      have hnothing (hsame : d.perform code (.undo n) = d) :
          (d.perform code (.undo n)).Holds c ∧
            (d.perform code (.undo n)).world.events = d.world.events ++ [] := by
        rw [hsame, List.append_nil]
        exact ⟨h, rfl⟩
      cases hhandle : d.disposables[n]? with
      | none => exact ⟨_, .undone n, hnothing (by rw [Desk.perform, hhandle])⟩
      | some handle =>
          cases haction : d.world.api.action? handle with
          | some action => exact ⟨_, .undo n, h.undo code hhandle haction⟩
          | none =>
              refine ⟨_, .undone n, hnothing ?_⟩
              rw [Desk.perform, hhandle]
              dsimp only
              rw [World.dispose_of_none haction]

/-! ### What is told -/

theorem told_set (h : d.Holds c) (code : Code χ) (uri : String) (found : List Diagnostic) :
    d.told code (.set uri found) = (c.set uri found).1 := told_eq (h.change _).2

theorem told_delete (h : d.Holds c) (code : Code χ) (uri : String) :
    d.told code (.delete uri) = (c.delete uri).1 := told_eq (h.change _).2

theorem told_clear (h : d.Holds c) (code : Code χ) : d.told code .clear = c.clear.1 :=
  told_eq (h.change _).2

theorem told_undo (h : d.Holds c) (code : Code χ) (n : Nat) :
    d.told code (.undo n) = [] ∨ d.told code (.undo n) = c.clear.1 := by
  obtain ⟨op, hdoes, -, hevents⟩ := h.perform code (.undo n)
  rw [told_eq hevents]
  cases hdoes with
  | undo => exact .inr rfl
  | undone => exact .inl rfl

/-- The disposable that is made next clears the collection. -/
theorem told_disposal (h : d.Holds c) (code : Code χ) :
    (d.perform code .asDisposable).told code (.undo d.disposables.length) = c.clear.1 := by
  have hhandle : (d.perform code .asDisposable).disposables[d.disposables.length]? =
      some d.world.api.handles.length := List.getElem?_concat_length ..
  have haction : (d.perform code .asDisposable).world.api.action? d.world.api.handles.length =
      some (.collection d.id) := Api.action?_eq_some.mpr (List.getElem?_concat_length ..)
  exact told_eq ((h.asDisposable code).undo code hhandle haction).2

theorem speaks (h : d.Holds c) (code : Code χ) : d.Speaks code c where
  set uri found := h.told_set code uri found
  delete uri hhas := by
    rcases delete_cases c uri with ⟨-, hdelete⟩ | ⟨habsent, -⟩
    · rw [h.told_delete, hdelete]
    · rw [hhas] at habsent
      cases habsent
  absent uri habsent := by
    rcases delete_cases c uri with ⟨hhas, -⟩ | ⟨-, -, hdelete⟩
    · rw [habsent] at hhas
      cases hhas
    · rw [h.told_delete, hdelete]
  clear := h.told_clear code
  empty hempty := by
    rw [h.told_clear, DiagnosticCollection.clear, hempty]
    rfl
  disposal := by rw [h.told_disposal, h.told_clear]
  undo n := by
    rw [h.told_clear]
    exact h.told_undo code n

end Holds

end Desk

/-! ## Some calls -/

/-- What becomes of a collection by some calls, with what each of them told. -/
structure Leads (calls : List Call) (tellings : List (List Event))
    (c c' : DiagnosticCollection) : Prop where
  name : c'.name = c.name
  about : ∀ told ∈ tellings, ∀ e ∈ told, isAbout c.name e = true
  /-- Whoever held what the collection had, and heard of the calls, holds what it has. -/
  hears : ∀ heard, List.Forall₂ (Heard c.name) heard tellings →
    heard.flatten.foldl (hear c.name) c.get = c'.get
  /-- A document has none, what it had, or what it was given. -/
  stored : ∀ uri, c'.get uri = [] ∨ c'.get uri = c.get uri ∨
    ∃ found, .set uri found ∈ calls ∧ c'.get uri = found.map (sourced c.name)

namespace Leads

theorem nil (c : DiagnosticCollection) : Leads [] [] c c where
  name := rfl
  about _ h := absurd h List.not_mem_nil
  hears _ h := by cases h; rfl
  stored _ := .inr (.inl rfl)

/-- One call, and then some others. -/
theorem cons {call : Call} {calls : List Call} {tellings : List (List Event)}
    {op : DiagnosticCollection → List Event × DiagnosticCollection} (hdoes : Does call op)
    (h : Leads calls tellings (op c).2 c') : Leads (call :: calls) ((op c).1 :: tellings) c c' where
  name := h.name.trans (hdoes.tells.name c)
  about := by
    refine List.forall_mem_cons.mpr ⟨fun e he => hdoes.isAbout he, ?_⟩
    rw [← hdoes.tells.name c]
    exact h.about
  hears heard hheard := by
    obtain ⟨first, rest, hfirst, hrest, rfl⟩ := List.forall₂_cons_right_iff.mp hheard
    rw [List.flatten_cons, List.foldl_append, hdoes.tells.hears c first hfirst]
    rw [← hdoes.tells.name c] at hrest ⊢
    exact h.hears rest hrest
  stored uri := by
    rcases h.stored uri with hnone | hsame | ⟨found, hmem, hfound⟩
    · exact .inl hnone
    · rw [hsame]
      refine (hdoes.stored c uri).imp_right (Or.imp_right ?_)
      rintro ⟨found, rfl, hfound⟩
      exact ⟨found, List.mem_cons_self, hfound⟩
    · rw [hdoes.tells.name c] at hfound
      exact .inr (.inr ⟨found, List.mem_cons_of_mem _ hmem, hfound⟩)

end Leads

theorem Desk.Holds.run {d : Desk χ} (h : d.Holds c) (code : Code χ) (calls : List Call) :
    ∃ c', (d.run code calls).Holds c' ∧ Leads calls (d.tellings code calls) c c' ∧
      (d.run code calls).world.events = d.world.events ++ (d.tellings code calls).flatten := by
  induction calls generalizing d c with
  | nil => exact ⟨c, h, .nil c, (List.append_nil _).symm⟩
  | cons call calls ih =>
      obtain ⟨op, hdoes, hholds, hevents⟩ := h.perform code call
      obtain ⟨c', hholds', hleads, hevents'⟩ := ih hholds
      have htold : d.told code call = (op c).1 := told_eq hevents
      refine ⟨c', hholds', ?_, ?_⟩
      · rw [tellings, htold]
        exact hleads.cons hdoes
      · rw [tellings, htold, List.flatten_cons, ← List.append_assoc, ← hevents]
        exact hevents'

/-- A new collection has nothing, and no disposables. -/
theorem Desk.holds_create (name : String) (w : World χ) : (create name w).Holds ⟨name, []⟩ where
  collection := List.getElem?_concat_length ..
  disposables _ h := absurd h List.not_mem_nil

/-- **The consumer of a collection.**  Behind all calls on a new collection, a consumer that has
heard of them holds for each document what the collection has, in whatever order the documents were
told that one call forgot.  What the collection has was given to it, with its name as the source
where there was none.  To delete a document that is not there tells nothing, nor does clearing an
empty collection, directly or through a disposable; all else is told. -/
theorem follow_run (code : Code χ) (w : World χ) (name : String) (calls : List Call) :
    let start := Desk.create name w
    let last := start.run code calls
    ∃ c, last.world.api.collections[start.id]? = some c ∧ c.name = name ∧
      last.world.events = w.events ++ (start.tellings code calls).flatten ∧
      (∀ told ∈ start.tellings code calls, ∀ e ∈ told, isAbout name e = true) ∧
      (∀ heard, List.Forall₂ (Heard name) heard (start.tellings code calls) →
        ∀ uri, follow name heard.flatten uri = c.get uri) ∧
      (∀ uri, c.get uri = [] ∨
        ∃ found, .set uri found ∈ calls ∧ c.get uri = found.map (sourced name)) ∧
      last.Speaks code c := by
  intro start last
  obtain ⟨c, hholds, hleads, hevents⟩ := (Desk.holds_create name w).run code calls
  refine ⟨c, ?_, hleads.name, hevents, hleads.about, fun heard hheard => ?_, fun uri => ?_,
    hholds.speaks code⟩
  · rw [← Desk.id_run code start calls]
    exact hholds.collection
  · exact congrFun (hleads.hears heard hheard)
  · rcases hleads.stored uri with hnone | hnone | hfound
    · exact .inl hnone
    · exact .inl hnone
    · exact .inr hfound

end EditorHost.DiagnosticCollection
