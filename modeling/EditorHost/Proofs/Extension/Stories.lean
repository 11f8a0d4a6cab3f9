import EditorHost.Proofs.Extension.Fading
import EditorHost.Proofs.Text.Octets

/-!
# What becomes of the handles of an extension

An extension hands some of its handles to its context, and undoes some itself; the actions of
handles, some of which are code of the extension, may undo further ones.  A story lists these
happenings in order.  Between two of them the extension may register whatever it likes, and others
may do what they like as long as they leave the extension's handles alone.

The action of a handle is taken out before it runs and nothing puts one back, so a handle occurs in
a story as undone once if its action has run by the end and had not at the beginning, and does not
occur otherwise (`Tallies.runs`).

## Contents

* `Story`, and what can be read off it.
* `Owner` is an extension with what belongs to it, and `Owner.Owns` says that what belongs to it
  concerns nothing else.
* `World.Works` is what the code of an extension may do, `World.Clears` what the host does when it
  undoes handles one after another, and `World.Told` a stretch of time.
* `Tallies` and `SparesOthers` hold of all of these.
-/

namespace EditorHost

variable {χ : Type}

/-! ## Stories -/

/-- What happens to a handle. -/
inductive Happening where
  /-- It is handed to a context. -/
  | handed (handle : HandleId) (context : ContextId)
  /-- Its action begins to run. -/
  | undone (handle : HandleId) (byHost : Bool)
  deriving DecidableEq, Repr

/-- What happened, in order. -/
abbrev Story := List Happening

namespace Story

/-- The handles handed to a context. -/
def handed (n : ContextId) (s : Story) : List HandleId :=
  s.filterMap fun
    | .handed handle m => if m = n then some handle else none
    | .undone _ _ => none

/-- The handles whose actions ran. -/
def undone (s : Story) : List HandleId :=
  s.filterMap fun
    | .handed _ _ => none
    | .undone handle _ => some handle

/-- The handles that the host undid, or that code did. -/
def undoneBy (host : Bool) (s : Story) : List HandleId :=
  s.filterMap fun
    | .handed _ _ => none
    | .undone handle byHost => if byHost = host then some handle else none

@[simp] theorem handed_append (n : ContextId) (s s' : Story) :
    handed n (s ++ s') = handed n s ++ handed n s' := List.filterMap_append

@[simp] theorem undone_append (s s' : Story) : undone (s ++ s') = undone s ++ undone s' :=
  List.filterMap_append

@[simp] theorem undoneBy_append (host : Bool) (s s' : Story) :
    undoneBy host (s ++ s') = undoneBy host s ++ undoneBy host s' := List.filterMap_append

@[simp] theorem undone_nil : undone [] = [] := rfl

@[simp] theorem undone_cons_undone (handle : HandleId) (byHost : Bool) (s : Story) :
    undone (.undone handle byHost :: s) = handle :: undone s := rfl

theorem undoneBy_cons_self (host : Bool) (handle : HandleId) (s : Story) :
    undoneBy host (.undone handle host :: s) = handle :: undoneBy host s := by
  simp [undoneBy]

theorem mem_undone_of_mem_undoneBy {host : Bool} {handle : HandleId} {s : Story}
    (h : handle ∈ undoneBy host s) : handle ∈ undone s := by
  obtain ⟨happening, hmem, hhandle⟩ := List.mem_filterMap.mp h
  refine List.mem_filterMap.mpr ⟨happening, hmem, ?_⟩
  cases happening with
  | handed _ _ => cases hhandle
  | undone other byHost =>
      simp only at hhandle
      split at hhandle
      · exact hhandle
      · cases hhandle

end Story

/-! ## Handles -/

namespace Api

/-- What undoing a handle would do, if that has not been done. -/
def action? (api : Api) (handle : HandleId) : Option Undo := (api.handles[handle]?).getD none

/-- Whether the action of a handle has run. -/
def hasRun (api : Api) (handle : HandleId) : Bool := (api.handles[handle]?).any Option.isNone

theorem action?_eq_some {api : Api} {handle : HandleId} {action : Undo} :
    api.action? handle = some action ↔ api.handles[handle]? = some (some action) := by
  rw [action?]
  cases api.handles[handle]? with
  | none => simp
  | some slot => simp

/-- A handle that was made is waiting to be undone or has been undone. -/
theorem hasRun_eq_not {api : Api} {handle : HandleId} (h : handle < api.handles.length) :
    api.hasRun handle = !(api.action? handle).isSome := by
  simp [hasRun, action?, List.getElem?_eq_getElem h]

theorem lt_of_isSome_action? {api : Api} {handle : HandleId}
    (h : (api.action? handle).isSome = true) : handle < api.handles.length := by
  obtain ⟨action, haction⟩ := Option.isSome_iff_exists.mp h
  exact (List.getElem?_eq_some_iff.mp (action?_eq_some.mp haction)).1

/-- A handle that would do something was so before a handle was made, or is the one that was. -/
theorem action?_keep {api : Api} {undo action : Undo} {handle : HandleId}
    (h : (api.keep undo).2.action? handle = some action) :
    api.action? handle = some action ∨ handle = api.handles.length ∧ action = undo := by
  have hslot : (api.handles ++ [some undo])[handle]? = some (some action) := action?_eq_some.mp h
  rw [List.getElem?_append] at hslot
  split at hslot
  · exact .inl (action?_eq_some.mpr hslot)
  next hge =>
    rw [List.getElem?_singleton] at hslot
    split at hslot
    next hsub =>
      cases hslot
      exact .inr ⟨Nat.le_antisymm (Nat.sub_eq_zero_iff_le.mp hsub) (Nat.not_lt.mp hge), rfl⟩
    · cases hslot

/-- Taking the action out of a handle leaves the others. -/
theorem action?_taken {api : Api} {other handle : HandleId} {action : Undo}
    (h : ({ api with handles := api.handles.set other none } : Api).action? handle = some action) :
    api.action? handle = some action := by
  have hslot : (api.handles.set other none)[handle]? = some (some action) := action?_eq_some.mp h
  rw [List.getElem?_set] at hslot
  split at hslot
  · split at hslot <;> cases hslot
  · exact action?_eq_some.mpr hslot

@[simp] theorem handles_undo (api : Api) (action : Undo) :
    (api.undo action).2.handles = api.handles := by
  cases action with
  | collection id =>
      simp only [undo, changeCollection]
      split <;> rfl
  | _ => rfl

/-- Only a registration is taken out of the registry. -/
theorem live_undo (api : Api) (action : Undo) : (api.undo action).2.registry.live =
    api.registry.live.filter fun e => action ≠ .registration e.id := by
  cases action with
  | registration id =>
      refine (Registry.live_unregister api.registry id).trans (List.filter_congr fun e _ => ?_)
      rw [Bool.eq_iff_iff, bne_iff_ne, decide_eq_true_eq, ne_comm]
      simp
  | collection id =>
      have hsame : (api.undo (.collection id)).2.registry = api.registry := by
        simp only [undo, changeCollection]
        split <;> rfl
      rw [hsame, List.filter_eq_self.mpr fun e _ => by simp]
  | _ => exact (List.filter_eq_self.mpr fun e _ => by simp).symm

/-- Only a status bar item is taken out of the status bar. -/
theorem entries_undo (api : Api) (action : Undo) : (api.undo action).2.statusBar.entries =
    api.statusBar.entries.filter fun e => action ≠ .statusItem e.item.id := by
  cases action with
  | statusItem id =>
      refine List.filter_congr fun e _ => ?_
      rw [Bool.eq_iff_iff, Bool.not_eq_true', beq_eq_false_iff_ne, decide_eq_true_eq, ne_comm]
      simp
  | collection id =>
      have hsame : (api.undo (.collection id)).2.statusBar = api.statusBar := by
        simp only [undo, changeCollection]
        split <;> rfl
      rw [hsame, List.filter_eq_self.mpr fun e _ => by simp]
  | _ => exact (List.filter_eq_self.mpr fun e _ => by simp).symm

@[simp] theorem created_undo (api : Api) (action : Undo) :
    (api.undo action).2.statusBar.created = api.statusBar.created := by
  cases action with
  | collection id =>
      simp only [undo, changeCollection]
      split <;> rfl
  | _ => rfl

theorem filed_undo {api : Api} (h : api.registry.Filed) (action : Undo) :
    (api.undo action).2.registry.Filed := by
  cases action with
  | registration id => exact h.unregister id
  | collection id =>
      simp only [undo, changeCollection]
      split <;> exact h
  | _ => exact h

theorem dispose_of_none {api : Api} {handle : HandleId} (h : api.action? handle = none) :
    api.dispose handle = ({}, api) := by
  rw [action?] at h
  simp [dispose, h]

/-- The action of a handle is taken out, and then it is done as far as it is no code. -/
theorem dispose_of_some {api : Api} {handle : HandleId} {action : Undo}
    (h : api.action? handle = some action) : (api.dispose handle).2 =
      (({ api with handles := api.handles.set handle none } : Api).undo action).2 := by
  rw [action?] at h
  simp only [dispose, h]
  cases action <;> rfl

/-- Only the code of a handle is left to be run. -/
theorem dispose_code {api : Api} {handle : HandleId} {callback : Callback}
    (h : (api.dispose handle).1.code = some callback) :
    api.action? handle = some (.code callback) := by
  cases haction : api.action? handle with
  | none =>
      rw [dispose_of_none haction] at h
      cases h
  | some action =>
      rw [action?] at haction
      simp only [dispose, haction] at h
      cases action <;> cases h
      rfl

end Api

namespace World

/-- The extension of a context, and the handles that it is to undo. -/
def ties (n : ContextId) (w : World χ) : Option (String × List HandleId) :=
  (w.host.contexts[n]?).map fun c => (c.extension, c.subscriptions)

/-- The world when the action of a handle has been taken out, and done as far as it is no code. -/
def begun (handle : HandleId) (w : World χ) : World χ :=
  { w with
    api := (w.api.dispose handle).2
    events := w.events ++ (w.api.dispose handle).1.events }

theorem dispose_snd (code : Code χ) (handle : HandleId) (w : World χ) :
    (dispose code handle w).2 = match (w.api.dispose handle).1.code with
      | some callback => (code.undo callback (w.begun handle)).2
      | none => w.begun handle := by
  have hrun : dispose code handle w = (match (w.api.dispose handle).1.code with
      | some callback => (do let _ ← code.undo callback : StateM (World χ) Unit)
      | none => return ()) (w.begun handle) := rfl
  rw [hrun]
  cases (w.api.dispose handle).1.code <;> rfl

/-- A handle whose action has run stays as it is. -/
theorem dispose_of_none {code : Code χ} {handle : HandleId} {w : World χ}
    (h : w.api.action? handle = none) : (dispose code handle w).2 = w := by
  rw [dispose_snd, Api.dispose_of_none h]
  simp [begun, Api.dispose_of_none h]

/-- An action that is no code is taken out and done. -/
theorem dispose_of_action (code : Code χ) {handle : HandleId} {action : Undo} {w : World χ}
    (h : w.api.action? handle = some action) (hcode : ∀ callback, action ≠ .code callback) :
    (dispose code handle w).2 = (change (fun api => api.undo action)
      { w with api := { w.api with handles := w.api.handles.set handle none } }).2 := by
  have htaken : w.api.dispose handle =
      let r := ({ w.api with handles := w.api.handles.set handle none } : Api).undo action
      ({ events := r.1 }, r.2) := by
    rw [Api.action?] at h
    rw [Api.dispose, h]
    cases action with
    | code callback => exact absurd rfl (hcode callback)
    | _ => rfl
  rw [dispose_snd, begun, htaken]
  rfl

/-- Hands a handle to a context. -/
def hand (n : ContextId) (handle : HandleId) (w : World χ) : World χ :=
  (hostPart.comp (Host.context n)).modify (fun c => c.subscribe handle) w

end World

/-! ## What belongs to an extension -/

/-- An extension, and what belongs to it. -/
structure Owner where
  id : String
  /-- The code that its handles may run. -/
  callbacks : Callback → Prop
  handles : HandleId → Prop

namespace Owner

variable (O : Owner)

/-- An action concerns only what an extension registered. -/
def IsOwn (api : Api) : Undo → Prop
  | .code callback => O.callbacks callback
  | .registration id => ∀ e ∈ api.registry.live, e.id = id → e.extension = O.id
  | .statusItem id => ∀ e ∈ api.statusBar.entries, e.item.id = id → e.item.extension = O.id
  | _ => True

/-- The name of the status bar item with a number. -/
def itemName (k : Nat) : String := s!"status-item-{k}"

/-- Registrations and items have names of their own, and what belongs to an extension concerns only
what the extension registered. -/
structure Owns (w : World χ) : Prop where
  filed : w.api.registry.Filed
  named : ∀ e ∈ w.api.statusBar.entries, ∃ k < w.api.statusBar.created, e.item.id = itemName k
  actions : ∀ handle action, O.handles handle → w.api.action? handle = some action →
    O.IsOwn w.api action
  contexts : ∀ n handles, w.ties n = some (O.id, handles) →
    ∀ handle ∈ handles, O.handles handle ∧ handle < w.api.handles.length

/-- The handles that are made next belong to the extension. -/
def Next (w : World χ) : Prop := ∀ handle, w.api.handles.length ≤ handle → O.handles handle

variable {O}

/-- What concerns only an extension's registrations does so when some are gone. -/
theorem IsOwn.mono {api api' : Api} {action : Undo} (h : O.IsOwn api action)
    (hlive : ∀ e ∈ api'.registry.live, e ∈ api.registry.live)
    (hentries : ∀ e ∈ api'.statusBar.entries, e ∈ api.statusBar.entries) :
    O.IsOwn api' action := by
  cases action with
  | registration id => exact fun e he => h e (hlive e he)
  | statusItem id => exact fun e he => h e (hentries e he)
  | _ => exact h

/-- What belongs to an extension does so in a world in which its contexts have no more handles. -/
theorem Owns.congr {w w' : World χ} (h : O.Owns w) (hapi : w'.api = w.api)
    (hties : ∀ n handles, w'.ties n = some (O.id, handles) → ∀ handle ∈ handles,
      ∃ kept, w.ties n = some (O.id, kept) ∧ handle ∈ kept) : O.Owns w' := by
  refine ⟨hapi ▸ h.filed, hapi ▸ h.named, hapi ▸ h.actions, fun n handles hn handle hhandle => ?_⟩
  obtain ⟨kept, hkept, hmem⟩ := hties n handles hn handle hhandle
  rw [hapi]
  exact h.contexts n kept hkept handle hmem

/-- Before anything is registered, nothing concerns others. -/
theorem owns_of_new {w : World χ} (hapi : w.api = {}) (hcontexts : w.host.contexts = []) :
    O.Owns w where
  filed := by
    rw [hapi]
    exact ⟨.nil, fun _ h => (nomatch h), fun _ _ _ => by simp, fun _ _ => by simp⟩
  named := by
    rw [hapi]
    exact fun _ h => nomatch h
  actions handle action _ h := by
    rw [hapi] at h
    cases h
  contexts n handles h := by
    simp [World.ties, hcontexts] at h

end Owner

/-! ## What is kept -/

/-- What belongs to an extension still does, and a story lists the handles of the extension that
were undone. -/
structure Tallies (O : Owner) (w : World χ) (s : Story) (w' : World χ) : Prop where
  owns : O.Owns w'
  grows : w.api.handles.length ≤ w'.api.handles.length
  runs : ∀ handle, O.handles handle → (w'.api.hasRun handle).toNat =
    (w.api.hasRun handle).toNat + s.undone.count handle

/-- What all other extensions registered is as it was, and so are the host's records of them. -/
structure SparesOthers (O : Owner) (w w' : World χ) : Prop where
  registrations : (w'.api.registry.live.filter fun e => e.extension ≠ O.id) =
    w.api.registry.live.filter fun e => e.extension ≠ O.id
  items : (w'.api.statusBar.entries.filter fun e => e.item.extension ≠ O.id) =
    w.api.statusBar.entries.filter fun e => e.item.extension ≠ O.id
  records : ∀ other, other ≠ O.id → w'.host.find? other = w.host.find? other

section Kept

variable {O : Owner} {w w' w'' : World χ} {s s' : Story}

theorem Tallies.refl (h : O.Owns w) : Tallies O w [] w := ⟨h, Nat.le_refl _, fun _ _ => rfl⟩

theorem Tallies.trans (h : Tallies O w s w') (h' : Tallies O w' s' w'') :
    Tallies O w (s ++ s') w'' := by
  refine ⟨h'.owns, Nat.le_trans h.grows h'.grows, fun handle hown => ?_⟩
  rw [h'.runs handle hown, h.runs handle hown, Story.undone_append, List.count_append,
    Nat.add_assoc]

theorem Tallies.next (h : Tallies O w s w') (hnext : O.Next w) : O.Next w' :=
  fun handle hge => hnext handle (Nat.le_trans h.grows hge)

/-- No handle of an extension is undone twice. -/
theorem Tallies.count_le_one (h : Tallies O w s w') {handle : HandleId}
    (hown : O.handles handle) : s.undone.count handle ≤ 1 := by
  have hruns := h.runs handle hown
  have hle := Bool.toNat_le (w'.api.hasRun handle)
  omega

theorem SparesOthers.refl (w : World χ) : SparesOthers O w w := ⟨rfl, rfl, fun _ _ => rfl⟩

theorem SparesOthers.trans (h : SparesOthers O w w') (h' : SparesOthers O w' w'') :
    SparesOthers O w w'' :=
  ⟨h'.registrations.trans h.registrations, h'.items.trans h.items,
    fun other hother => (h'.records other hother).trans (h.records other hother)⟩

end Kept

/-! ## Undoing a handle -/

section Begun

variable {O : Owner} {w : World χ} {handle : HandleId}

theorem World.handles_begun (hpending : (w.api.action? handle).isSome = true) :
    (w.begun handle).api.handles = w.api.handles.set handle none := by
  obtain ⟨action, haction⟩ := Option.isSome_iff_exists.mp hpending
  simp only [begun, Api.dispose_of_some haction, Api.handles_undo]

/-- What undoing a handle takes out of the registry and the status bar. -/
theorem World.begun_cases {action : Undo} (haction : w.api.action? handle = some action) :
    (w.begun handle).api.registry.live =
        (w.api.registry.live.filter fun e => action ≠ .registration e.id) ∧
      (w.begun handle).api.statusBar.entries =
        w.api.statusBar.entries.filter fun e => action ≠ .statusItem e.item.id := by
  simp only [begun, Api.dispose_of_some haction]
  exact ⟨Api.live_undo _ action, Api.entries_undo _ action⟩

/-- The action of a handle runs once it has begun, and no other one does. -/
theorem World.hasRun_begun (hpending : (w.api.action? handle).isSome = true) (other : HandleId) :
    ((w.begun handle).api.hasRun other).toNat =
      (w.api.hasRun other).toNat + [handle].count other := by
  have hlt := Api.lt_of_isSome_action? hpending
  by_cases hother : handle = other
  · subst hother
    have hbefore : w.api.hasRun handle = false := by
      rw [Api.hasRun_eq_not hlt, hpending]
      rfl
    rw [hbefore]
    simp [Api.hasRun, handles_begun hpending, hlt]
  · simp [Api.hasRun, handles_begun hpending, List.getElem?_set_ne hother, hother]

theorem tallies_begun (howns : O.Owns w) (hpending : (w.api.action? handle).isSome = true)
    (byHost : Bool) : Tallies O w [.undone handle byHost] (w.begun handle) := by
  obtain ⟨action, haction⟩ := Option.isSome_iff_exists.mp hpending
  obtain ⟨hlive, hentries⟩ := World.begun_cases haction
  have hhandles := World.handles_begun hpending
  refine ⟨⟨?_, fun e he => ?_, fun other own hown hother => ?_, fun n handles hties k hk => ?_⟩,
    Nat.le_of_eq (by rw [hhandles, List.length_set]),
    fun other _ => World.hasRun_begun hpending other⟩
  · simp only [World.begun, Api.dispose_of_some haction]
    have hfiled : ({ w.api with handles := w.api.handles.set handle none } : Api).registry.Filed :=
      howns.filed
    exact Api.filed_undo hfiled action
  · have hcreated : (w.begun handle).api.statusBar.created = w.api.statusBar.created := by
      simp only [World.begun, Api.dispose_of_some haction, Api.created_undo]
    rw [hentries] at he
    rw [hcreated]
    exact howns.named e (List.mem_filter.mp he).1
  · -- Every handle that is still to be undone was so before.
    rw [Api.action?_eq_some, hhandles, List.getElem?_set] at hother
    split at hother
    · split at hother <;> simp at hother
    · refine (howns.actions other own hown (Api.action?_eq_some.mpr hother)).mono ?_ ?_
      · exact fun e he => (List.mem_filter.mp (hlive ▸ he)).1
      · exact fun e he => (List.mem_filter.mp (hentries ▸ he)).1
  · rw [hhandles, List.length_set]
    exact howns.contexts n handles hties k hk

/-- A handle of an extension takes nothing away that another extension registered. -/
theorem sparesOthers_begun (howns : O.Owns w) (hown : O.handles handle)
    (hpending : (w.api.action? handle).isSome = true) : SparesOthers O w (w.begun handle) := by
  obtain ⟨action, haction⟩ := Option.isSome_iff_exists.mp hpending
  obtain ⟨hlive, hentries⟩ := World.begun_cases haction
  have hconcerns := howns.actions handle action hown haction
  refine ⟨?_, ?_, fun other _ => rfl⟩
  · rw [hlive, List.filter_filter]
    refine List.filter_congr fun e he => ?_
    have hother : e.extension ≠ O.id → action ≠ .registration e.id := by
      rintro hne rfl
      exact hne (hconcerns e he rfl)
    simpa using hother
  · rw [hentries, List.filter_filter]
    refine List.filter_congr fun e he => ?_
    have hother : e.item.extension ≠ O.id → action ≠ .statusItem e.item.id := by
      rintro hne rfl
      exact hne (hconcerns e he rfl)
    simpa using hother

end Begun

/-! ## What code does -/

/-- The code of an extension does something by which no handle is undone or handed to a context:
it may register things of its own, for which new handles are made. -/
structure World.Contributes (O : Owner) (w w' : World χ) : Prop where
  extensions : w'.host.extensions = w.host.extensions
  ties : ∀ n, w'.ties n = w.ties n
  handles : ∃ made : List Undo, w'.api.handles = w.api.handles ++ made.map some
  registrations : (w'.api.registry.live.filter fun e => e.extension ≠ O.id) =
    w.api.registry.live.filter fun e => e.extension ≠ O.id
  items : (w'.api.statusBar.entries.filter fun e => e.item.extension ≠ O.id) =
    w.api.statusBar.entries.filter fun e => e.item.extension ≠ O.id
  owns : O.Owns w → O.Owns w'

/-- What the code of an extension may do, one thing after another, and what becomes of its handles.
When it undoes a handle, the code of the handle may do such things in turn. -/
inductive World.Works (code : Code χ) (O : Owner) : World χ → Story → World χ → Prop
  | rest (w : World χ) : Works code O w [] w
  | contribute {w w' : World χ} (h : w.Contributes O w') : Works code O w [] w'
  | hand {w : World χ} {n : ContextId} {handles : List HandleId} {handle : HandleId}
      (hcontext : w.ties n = some (O.id, handles)) (hown : O.handles handle)
      (hmade : handle < w.api.handles.length) :
      Works code O w [.handed handle n] (w.hand n handle)
  | dispose {w : World χ} {s : Story} {handle : HandleId} (hown : O.handles handle)
      (hpending : (w.api.action? handle).isSome = true)
      (hundo : Works code O (w.begun handle) s (World.dispose code handle w).2) :
      Works code O w (.undone handle false :: s) (World.dispose code handle w).2
  | trans {w w' w'' : World χ} {s s' : Story} (first : Works code O w s w')
      (second : Works code O w' s' w'') : Works code O w (s ++ s') w''

namespace World

variable {code : Code χ} {O : Owner} {w w' : World χ} {s : Story}

/-- A change of a context changes nothing else among the contexts. -/
theorem contexts_part (n : ContextId) (change : Context → Context) (w : World χ) :
    ((hostPart.comp (Host.context n)).modify change w).host.contexts =
      w.host.contexts.modify n change := by
  have hset : ((hostPart.comp (Host.context n)).modify change w).host.contexts =
      w.host.contexts.set n (change ((w.host.contexts[n]?).getD default)) := rfl
  rw [hset]
  refine List.ext_getElem? fun m => ?_
  rw [List.getElem?_set, List.getElem?_modify]
  by_cases hm : n = m
  · subst hm
    by_cases hlt : n < w.host.contexts.length
    · simp [hlt]
    · simp [hlt]
  · simp [hm]

theorem ties_part (n m : ContextId) (change : Context → Context) (w : World χ) :
    ((hostPart.comp (Host.context n)).modify change w).ties m =
      if n = m then (w.host.contexts[m]?).map fun c =>
        ((change c).extension, (change c).subscriptions)
      else w.ties m := by
  rw [ties, contexts_part, List.getElem?_modify]
  by_cases hm : n = m
  · simp [hm, Function.comp_def]
  · simp [hm, ties]

/-- A handle handed to a context comes last, and the other contexts stay as they are. -/
theorem ties_hand {n : ContextId} {extension : String} {handles : List HandleId}
    (h : w.ties n = some (extension, handles)) (handle : HandleId) (m : ContextId) :
    (w.hand n handle).ties m =
      if n = m then some (extension, handles ++ [handle]) else w.ties m := by
  obtain ⟨c, hc, hcontext⟩ := Option.map_eq_some_iff.mp h
  obtain ⟨rfl, rfl⟩ := Prod.mk.inj hcontext
  rw [hand, ties_part]
  split
  next hm =>
    subst hm
    rw [hc]
    rfl
  · rfl

theorem Works.extensions (h : w.Works code O s w') :
    w'.host.extensions = w.host.extensions := by
  induction h with
  | rest w => rfl
  | contribute h => exact h.extensions
  | hand hcontext hown hmade => rfl
  | dispose hown hpending hundo ih => exact ih
  | trans first second ih ih' => exact ih'.trans ih

theorem Works.tallies (h : w.Works code O s w') (howns : O.Owns w) : Tallies O w s w' := by
  induction h with
  | rest w => exact .refl howns
  | @contribute w w' h =>
      obtain ⟨made, hmade⟩ := h.handles
      refine ⟨h.owns howns, by simp [hmade], fun handle _ => ?_⟩
      have hsame : w'.api.hasRun handle = w.api.hasRun handle := by
        rw [Api.hasRun, hmade, List.getElem?_append]
        split
        · rfl
        next hge =>
          rw [Api.hasRun, List.getElem?_eq_none (Nat.le_of_not_lt hge)]
          cases hslot : (made.map some)[handle - w.api.handles.length]? with
          | none => rfl
          | some slot =>
              obtain ⟨action, -, rfl⟩ := List.mem_map.mp (List.mem_of_getElem? hslot)
              rfl
      rw [hsame]
      rfl
  | @hand w n handles handle hcontext hown hmade =>
      refine ⟨⟨howns.filed, howns.named, howns.actions, fun m kept hties k hk => ?_⟩,
        Nat.le_refl _, fun other _ => rfl⟩
      rw [ties_hand hcontext] at hties
      split at hties
      · obtain ⟨-, rfl⟩ := Prod.mk.inj (Option.some.inj hties)
        rcases List.mem_append.mp hk with hk | hk
        · exact howns.contexts n handles hcontext k hk
        · obtain rfl := List.mem_singleton.mp hk
          exact ⟨hown, hmade⟩
      · exact howns.contexts m kept hties k hk
  | dispose hown hpending hundo ih =>
      have hbegun := tallies_begun howns hpending false
      exact hbegun.trans (ih hbegun.owns)
  | trans first second ih ih' =>
      have hfirst := ih howns
      exact hfirst.trans (ih' hfirst.owns)

theorem Works.sparesOthers (h : w.Works code O s w') (howns : O.Owns w) :
    SparesOthers O w w' := by
  have hrecords {w w' : World χ} (h : w'.host.extensions = w.host.extensions) (other : String) :
      w'.host.find? other = w.host.find? other := by
    rw [Host.find?, h, Host.find?]
  induction h with
  | rest w => exact .refl w
  | contribute h => exact ⟨h.registrations, h.items, fun other _ => hrecords h.extensions other⟩
  | hand hcontext hown hmade => exact ⟨rfl, rfl, fun _ _ => rfl⟩
  | dispose hown hpending hundo ih =>
      exact (sparesOthers_begun howns hown hpending).trans
        (ih (tallies_begun howns hpending false).owns)
  | trans first second ih ih' => exact (ih howns).trans (ih' (first.tallies howns).owns)

/-- A context of the extension has the handles that it had, and those handed to it. -/
theorem Works.ties (h : w.Works code O s w') {n : ContextId} {handles : List HandleId}
    (hcontext : w.ties n = some (O.id, handles)) :
    w'.ties n = some (O.id, handles ++ s.handed n) := by
  induction h generalizing handles with
  | rest w => simpa [Story.handed] using hcontext
  | contribute h => simpa [Story.handed, h.ties] using hcontext
  | @hand w m others handle hties hown hmade =>
      rw [ties_hand hties]
      by_cases hn : m = n
      · subst hn
        obtain rfl : others = handles := by simpa [hties] using hcontext
        simp [Story.handed]
      · simpa [Story.handed, hn] using hcontext
  | dispose hown hpending hundo ih => exact ih hcontext
  | trans first second ih ih' =>
      rw [ih' (ih hcontext), Story.handed_append, List.append_assoc]

end World

/-! ## What code registers -/

section Registering

variable {O : Owner} {w : World χ}

/-- Different numbers make different names of status bar items. -/
theorem Owner.itemName_injective {k l : Nat} (h : Owner.itemName k = Owner.itemName l) : k = l := by
  have hchars : Nat.toDigits 10 k = Nat.toDigits 10 l := by
    have htext := congrArg String.toList h
    simpa [Owner.itemName, ToString.toString, Nat.repr] using htext
  have hread := congrArg Text.readDigits? hchars
  rw [Text.readDigits?_toDigits, Text.readDigits?_toDigits] at hread
  exact Option.some.inj hread

/-- A handle whose action concerns only what the extension registered. -/
theorem World.contributes_keep {action : Undo} (hown : O.IsOwn w.api action) :
    w.Contributes O { w with api := (w.api.keep action).2 } := by
  refine ⟨rfl, fun n => rfl, ⟨[action], rfl⟩, rfl, rfl, fun howns => ⟨howns.filed, howns.named,
    fun handle other hhandle hother => ?_, fun n handles hties handle hmem => ?_⟩⟩
  · rw [Api.action?_eq_some] at hother
    simp only [Api.keep] at hother
    rw [List.getElem?_append] at hother
    split at hother
    · exact howns.actions handle other hhandle (Api.action?_eq_some.mpr hother)
    · obtain rfl : other = action := by
        simpa using List.mem_of_getElem? hother
      exact hown
  · obtain ⟨hhandle, hlt⟩ := howns.contexts n handles hties handle hmem
    refine ⟨hhandle, Nat.lt_of_lt_of_le hlt ?_⟩
    simp [Api.keep]

/-- A provider that an extension registers. -/
theorem World.contributes_register (capability : Capability) (selector : Selector)
    (provider : Callback) (triggers : List String) : w.Contributes O { w with api :=
      { w.api with registry :=
        (w.api.registry.register capability selector provider O.id triggers).2 } } := by
  refine ⟨rfl, fun n => rfl, ⟨[], by simp⟩, ?_, rfl, fun howns =>
    ⟨howns.filed.register _ _ _ _ _, howns.named, fun handle action hhandle haction => ?_,
      howns.contexts⟩⟩
  · simp [Registry.register]
  · have hown := howns.actions handle action hhandle haction
    cases action with
    | registration id =>
        intro e he hid
        rcases List.mem_append.mp he with he | he
        · exact hown e he hid
        · rw [List.mem_singleton.mp he]
    | _ => exact hown

/-- The number of a new registration is that of nothing else. -/
theorem Owner.Owns.isOwn_registered (howns : O.Owns w) (capability : Capability)
    (selector : Selector) (provider : Callback) (triggers : List String) :
    O.IsOwn { w.api with registry :=
        (w.api.registry.register capability selector provider O.id triggers).2 }
      (.registration (w.api.registry.count + 1)) := by
  intro e he hid
  rcases List.mem_append.mp he with he | he
  · exact absurd hid (Nat.ne_of_lt (Nat.lt_succ_of_le (howns.filed.numbered e he)))
  · rw [List.mem_singleton.mp he]

/-- A status bar item that an extension makes. -/
theorem World.contributes_createStatusItem (side : Side) (priority : Int) :
    w.Contributes O { w with api := (w.api.createStatusItem O.id side priority).2 } := by
  refine ⟨rfl, fun n => rfl, ⟨[], (List.append_nil _).symm⟩, rfl, ?_, fun howns =>
    ⟨howns.filed, fun e he => ?_, fun handle action hhandle haction => ?_, howns.contexts⟩⟩
  · simp [Api.createStatusItem, StatusBar.create]
  · rcases List.mem_append.mp he with he | he
    · obtain ⟨k, hk, hname⟩ := howns.named e he
      exact ⟨k, Nat.lt_succ_of_lt hk, hname⟩
    · rw [List.mem_singleton.mp he]
      exact ⟨_, Nat.lt_succ_self _, rfl⟩
  · have hown := howns.actions handle action hhandle haction
    cases action with
    | statusItem id =>
        intro e he hid
        rcases List.mem_append.mp he with he | he
        · exact hown e he hid
        · rw [List.mem_singleton.mp he]
    | _ => exact hown

/-- The name of a new status bar item is that of nothing else. -/
theorem Owner.Owns.isOwn_created (howns : O.Owns w) (side : Side) (priority : Int) :
    O.IsOwn (w.api.createStatusItem O.id side priority).2
      (.statusItem (w.api.createStatusItem O.id side priority).1) := by
  intro e he hid
  rcases List.mem_append.mp he with he | he
  · obtain ⟨k, hk, hname⟩ := howns.named e he
    have hsame : k = w.api.statusBar.created := Owner.itemName_injective (hname.symm.trans hid)
    omega
  · rw [List.mem_singleton.mp he]

end Registering

end EditorHost
