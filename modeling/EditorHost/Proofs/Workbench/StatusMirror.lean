import EditorHost.Proofs.Extension.HostCalls
import EditorHost.Proofs.Extension.Stories
import EditorHost.Proofs.StatusBar
import Mathlib.Data.List.Forall2

/-!
# The user interface shows what is visible

Extensions create status bar items and change, show, hide and dispose of them, also through
disposables and also when they are long gone; and the items of an extension go when it is released.
Whatever is called, in whatever order, what the user interface has been told last is what is
visible, and that is what the calls made of the items (`StatusBar.mirrors_run`).

## Contents

* `Call` is what can be called, and `Desk` a world with the items and disposables that the callers
  hold.
* `Ledger` keeps of each item, by the number of its creation, what the calls said of it.
* `Desk.Matches` is what ties the status bar to the ledger, kept by each call.
-/

namespace EditorHost

variable {χ : Type}

namespace StatusBar

/-! ## Calls -/

/-- What can be called.  Items and disposables are named by number, in the order in which they were
made. -/
inductive Call where
  | create (extension : String) (side : Side) (priority : Int)
  | setText (item : Nat) (text : String)
  | setTooltip (item : Nat) (tooltip : Option String)
  | setVisible (item : Nat) (visible : Bool)
  | dispose (item : Nat)
  /-- Makes a disposable that disposes of an item. -/
  | asDisposable (item : Nat)
  | undo (disposable : Nat)
  /-- Drops what an extension left behind. -/
  | release (extension : String)

/-- A world, and what the callers hold.  They keep what has been disposed of. -/
structure Desk (χ : Type) where
  world : World χ
  items : List String := []
  disposables : List HandleId := []

namespace Desk

/-- Changes an item, if the callers hold it. -/
def onItem (d : Desk χ) (n : Nat) (change : String → StatusBar → List Event × StatusBar) : Desk χ :=
  match d.items[n]? with
  | none => d
  | some id =>
    { d with world := (World.change (fun api => api.changeStatusBar (change id)) d.world).2 }

/-- What a call does. -/
def perform (code : Code χ) (d : Desk χ) : Call → Desk χ
  | .create extension side priority =>
    let (id, world) :=
      World.apiPart.zoom (fun api => api.createStatusItem extension side priority) d.world
    { d with world, items := d.items ++ [id] }
  | .setText n text => d.onItem n fun id bar => bar.setText id text
  | .setTooltip n tooltip => d.onItem n fun id bar => bar.setTooltip id tooltip
  | .setVisible n visible => d.onItem n fun id bar => bar.setVisible id visible
  | .dispose n => d.onItem n fun id bar => bar.remove id
  | .asDisposable n =>
    match d.items[n]? with
    | none => d
    | some id =>
      let (handle, world) := World.apiPart.zoom (fun api => api.keep (.statusItem id)) d.world
      { d with world, disposables := d.disposables ++ [handle] }
  | .undo n =>
    match d.disposables[n]? with
    | none => d
    | some handle => { d with world := (World.dispose code handle d.world).2 }
  | .release extension =>
    { d with world := (World.change (fun api => api.release extension) d.world).2 }

/-- What calls do, one after another. -/
def run (code : Code χ) (d : Desk χ) (calls : List Call) : Desk χ := calls.foldl (perform code) d

end Desk

/-! ## What the calls said -/

/-- What has been said of an item. -/
structure Record where
  extension : String
  side : Side
  priority : Int
  text : String := ""
  tooltip : Option String := none
  visible : Bool := false
  gone : Bool := false

/-- What has been said of all items, in the order of their creation, and the items that the
disposables are for. -/
structure Ledger where
  records : List Record := []
  disposables : List Nat := []

namespace Ledger

/-- Takes down what is said of an item. -/
def say (l : Ledger) (n : Nat) (change : Record → Record) : Ledger :=
  { l with records := l.records.modify n change }

/-- Takes down a call. -/
def enter (l : Ledger) : Call → Ledger
  | .create extension side priority =>
    { l with records := l.records ++ [{ extension, side, priority }] }
  | .setText n text => l.say n fun r => { r with text }
  | .setTooltip n tooltip => l.say n fun r => { r with tooltip }
  | .setVisible n visible => l.say n fun r => { r with visible }
  | .dispose n => l.say n fun r => { r with gone := true }
  | .asDisposable n =>
    if n < l.records.length then { l with disposables := l.disposables ++ [n] } else l
  | .undo k =>
    match l.disposables[k]? with
    | none => l
    | some n => l.say n fun r => { r with gone := true }
  | .release extension =>
    { l with records := l.records.map fun r =>
        if r.extension = extension then { r with gone := true } else r }

/-- What calls said, one after another. -/
def of (calls : List Call) : Ledger := calls.foldl enter {}

/-- An item as it is to be shown. -/
def face? (l : Ledger) (n : Nat) : Option StatusItem :=
  (l.records[n]?).map fun r =>
    ⟨Owner.itemName n, r.extension, r.text, r.tooltip, r.side, r.priority⟩

/-- Whether an item is to be shown. -/
def Shows (l : Ledger) (n : Nat) : Prop :=
  ∃ r, l.records[n]? = some r ∧ r.visible = true ∧ r.gone = false

/-- Whether an item stands before another one: on the left of it, or above it by its priority, or by
its age. -/
def Before (l : Ledger) (n m : Nat) : Prop :=
  ∃ r r', l.records[n]? = some r ∧ l.records[m]? = some r' ∧
    (r.side = .left ∧ r'.side = .right ∨ r.side = r'.side ∧
      (r'.priority < r.priority ∨ r.priority = r'.priority ∧ n < m))

end Ledger

/-- The user interface shows what is visible, and that are the items to be shown, as they are to be
shown, in their order. -/
structure Desk.Mirrors (d : Desk χ) (l : Ledger) : Prop where
  shown : shownBy d.world.events = d.world.api.statusBar.visible
  visible : ∃ numbers : List Nat, d.world.api.statusBar.visible.map some = numbers.map l.face? ∧
    numbers.Pairwise l.Before ∧ ∀ n, n ∈ numbers ↔ l.Shows n

/-! ## The status bar and the ledger -/

/-- What stands in the status bar for the item with a number. -/
def Record.listed? (n : Nat) (r : Record) : Option StatusEntry :=
  if r.gone then none
  else some ⟨⟨Owner.itemName n, r.extension, r.text, r.tooltip, r.side, r.priority⟩, r.visible⟩

theorem Record.id_of_listed? {n : Nat} {r : Record} {e : StatusEntry} (h : r.listed? n = some e) :
    e.item.id = Owner.itemName n := by
  unfold listed? at h
  split at h <;> cases h
  rfl

namespace Ledger

variable {l l' : Ledger} {n : Nat}

def listed? (l : Ledger) (n : Nat) : Option StatusEntry := (l.records[n]?).bind (Record.listed? n)

/-- What stands in the status bar. -/
def entries (l : Ledger) : List StatusEntry := (List.range l.records.length).filterMap l.listed?

/-- Where each entry becomes something, so do all of them. -/
theorem entries_filterMap {become : StatusEntry → Option StatusEntry}
    (hlength : l'.records.length = l.records.length)
    (h : ∀ n, l'.listed? n = (l.listed? n).bind become) :
    l'.entries = l.entries.filterMap become := by
  rw [entries, entries, List.filterMap_filterMap, hlength]
  exact List.filterMap_congr fun n _ => h n

/-- What is said of an item concerns what stands in the status bar under its name. -/
theorem entries_say {change : Record → Record} {become : StatusEntry → Option StatusEntry}
    (hitem : ∀ r : Record, (change r).listed? n = (r.listed? n).bind become)
    (hother : ∀ e : StatusEntry, e.item.id ≠ Owner.itemName n → become e = some e) :
    (l.say n change).entries = l.entries.filterMap become := by
  refine entries_filterMap (List.length_modify ..) fun m => ?_
  rw [listed?, listed?, say, List.getElem?_modify]
  cases l.records[m]? with
  | none => rfl
  | some r =>
      by_cases hn : n = m
      · subst hn
        simpa using hitem r
      · cases hentry : r.listed? m with
        | none => simp [hn, hentry]
        | some e =>
            have hid : e.item.id ≠ Owner.itemName n := by
              rw [Record.id_of_listed? hentry]
              exact fun heq => hn (Owner.itemName_injective heq).symm
            simp [hn, hentry, hother e hid]

/-- What is said of how an item is to be shown is done to its entry. -/
theorem entries_update {change : Record → Record} {change' : StatusEntry → StatusEntry}
    (h : ∀ r : Record, (change r).listed? n = (r.listed? n).map change') :
    (l.say n change).entries =
      l.entries.map fun e => if e.item.id = Owner.itemName n then change' e else e := by
  rw [← List.filterMap_eq_map]
  refine entries_say (fun r => ?_) fun e he => by simp [he]
  rw [h]
  cases hentry : r.listed? n with
  | none => rfl
  | some e => simp [Record.id_of_listed? hentry]

/-- An item that is gone stands in the status bar no more. -/
theorem entries_gone : (l.say n fun r => { r with gone := true }).entries =
    l.entries.filter fun e => !(e.item.id == Owner.itemName n) := by
  rw [← List.filterMap_eq_filter]
  refine entries_say (fun r => ?_) fun e he => by simp [Option.guard, he]
  cases hentry : r.listed? n with
  | none => simp [Record.listed?]
  | some e => simp [Record.listed?, Option.guard, Record.id_of_listed? hentry]

/-- Nor do the items of an extension that is released. -/
theorem entries_release (extension : String) : (l.enter (.release extension)).entries =
    l.entries.filter fun e => !(e.item.extension == extension) := by
  rw [← List.filterMap_eq_filter]
  refine entries_filterMap (by simp [enter]) fun n => ?_
  rw [listed?, listed?, enter, List.getElem?_map]
  cases l.records[n]? with
  | none => rfl
  | some r =>
      cases hgone : r.gone <;> by_cases hextension : r.extension = extension <;>
        simp [Record.listed?, hgone, hextension, Option.guard]

/-- A new item stands behind all others, hidden. -/
theorem entries_create (extension : String) (side : Side) (priority : Int) :
    (l.enter (.create extension side priority)).entries = l.entries ++
      [⟨⟨Owner.itemName l.records.length, extension, "", none, side, priority⟩, false⟩] := by
  have hnew : (l.enter (.create extension side priority)).records =
      l.records ++ [({ extension, side, priority } : Record)] := rfl
  rw [entries, hnew, List.length_append, List.length_singleton, List.range_succ,
    List.filterMap_append]
  congr 1
  · refine List.filterMap_congr fun n hn => ?_
    rw [listed?, listed?, hnew, List.getElem?_append_left (List.mem_range.mp hn)]
  · simp [listed?, hnew, Record.listed?]

end Ledger

/-! ## What is visible -/

namespace Ledger

variable {l : Ledger} {n m : Nat}

/-- Whether the entry of an item is visible. -/
def isVisible (l : Ledger) (n : Nat) : Bool := (l.listed? n).any StatusEntry.visible

/-- An item as it is to be shown, if there is one. -/
def face (l : Ledger) (n : Nat) : StatusItem := (l.face? n).getD default

theorem isVisible_iff : l.isVisible n = true ↔ l.Shows n := by
  unfold isVisible listed? Shows
  cases l.records[n]? with
  | none => simp
  | some r => cases hgone : r.gone <;> simp [Record.listed?, hgone]

theorem Shows.face? (h : l.Shows n) : l.face? n = some (l.face n) := by
  obtain ⟨r, hr, -, -⟩ := h
  simp [face, Ledger.face?, hr]

theorem map_item_entries (ns : List Nat) :
    ((ns.filterMap l.listed?).filter StatusEntry.visible).map StatusEntry.item =
      (ns.filter l.isVisible).map l.face := by
  induction ns with
  | nil => rfl
  | cons n ns ih =>
      have hentry : l.listed? n = (l.records[n]?).bind (Record.listed? n) := rfl
      cases hr : l.records[n]? with
      | none => simpa [isVisible, hentry, hr] using ih
      | some r =>
          cases hgone : r.gone <;> cases hvisible : r.visible <;>
            simpa [isVisible, hentry, hr, Record.listed?, hgone, hvisible, face, face?] using ih

/-- Of two items to be shown the one comes before the other if its place says so, or their places
are the same and it is older. -/
theorem Before.of_precedes (hn : l.Shows n) (hm : l.Shows m) (hle : precedes (l.face n) (l.face m))
    (hage : precedes (l.face m) (l.face n) → n < m) : l.Before n m := by
  obtain ⟨r, hr, -, -⟩ := hn
  obtain ⟨r', hr', -, -⟩ := hm
  refine ⟨r, r', hr, hr', ?_⟩
  have hface : (l.face n).side = r.side ∧ (l.face n).priority = r.priority := by
    simp [face, face?, hr]
  have hface' : (l.face m).side = r'.side ∧ (l.face m).priority = r'.priority := by
    simp [face, face?, hr']
  rw [precedes_iff, hface.1, hface.2, hface'.1, hface'.2] at hle hage
  rcases hle with hsides | ⟨hside, hpriority⟩
  · exact .inl hsides
  · refine .inr ⟨hside, ?_⟩
    rcases Int.lt_or_eq_of_le hpriority with hlt | heq
    · exact .inl hlt
    · exact .inr ⟨heq.symm, hage (.inr ⟨hside.symm, Int.le_of_eq heq.symm⟩)⟩

end Ledger

/-- Where the status bar has the entries of a ledger, the items to be shown are visible. -/
theorem visible_of_entries {bar : StatusBar} {l : Ledger} (h : bar.entries = l.entries) :
    ∃ numbers : List Nat, bar.visible.map some = numbers.map l.face? ∧
      numbers.Pairwise l.Before ∧ ∀ n, n ∈ numbers ↔ l.Shows n := by
  let shown := (List.range l.records.length).filter l.isVisible
  let le (n m : Nat) : Bool := precedes (l.face n) (l.face m)
  have hmem : ∀ n, n ∈ shown.mergeSort le ↔ l.Shows n := by
    intro n
    rw [List.mem_mergeSort, List.mem_filter, List.mem_range, Ledger.isVisible_iff]
    refine and_iff_right_of_imp fun ⟨r, hr, _⟩ => ?_
    exact (List.getElem?_eq_some_iff.mp hr).1
  have hvisible : bar.visible = (shown.mergeSort le).map l.face := by
    rw [visible, h, Ledger.entries, Ledger.map_item_entries]
    exact (List.map_mergeSort (f := l.face) (r := le) fun _ _ _ _ => rfl).symm
  refine ⟨shown.mergeSort le, ?_, ?_, hmem⟩
  · rw [hvisible, List.map_map]
    exact List.map_congr_left fun n hn => ((hmem n).mp hn).face?.symm
  · have hshown : shown.Pairwise (· < ·) := List.pairwise_lt_range.filter _
    have htotal (n m : Nat) : (le n m || le m n) = true := precedes_total (l.face n) (l.face m)
    have htrans (n m k : Nat) : le n m → le m k → le n k := precedes_trans _ _ _
    have hsorted := pairwise_mergeSort htrans htotal hshown
    refine hsorted.imp_of_mem fun hn hm hle => ?_
    exact .of_precedes ((hmem _).mp hn) ((hmem _).mp hm) hle.1 hle.2

/-! ## Calls keep the ledger -/

/-- What the callers hold and what they said, in a world. -/
structure Tallies (w : World χ) (l : Ledger) : Prop where
  shown : shownBy w.events = w.api.statusBar.visible
  created : w.api.statusBar.created = l.records.length
  entries : w.api.statusBar.entries = l.entries

/-- An operation that does to the status bar what is entered into the ledger. -/
theorem Tallies.change {w : World χ} {l l' : Ledger} {run : StatusBar → List Event × StatusBar}
    (h : Tallies w l) (htells : Tells run)
    (hcreated : (run w.api.statusBar).2.created = w.api.statusBar.created)
    (hlength : l'.records.length = l.records.length)
    (hentries : (run w.api.statusBar).2.entries = l'.entries) :
    Tallies (World.change (fun api => api.changeStatusBar run) w).2 l' :=
  ⟨htells.shownBy h.shown, hcreated.trans (h.created.trans hlength.symm), hentries⟩

/-- A record, once there, stays, and what is gone stays gone. -/
def Ledger.Continues (l l' : Ledger) : Prop :=
  ∀ (n : Nat) (r : Record), l.records[n]? = some r →
    ∃ r', l'.records[n]? = some r' ∧ (r.gone = true → r'.gone = true)

namespace Ledger

variable {l : Ledger} {n : Nat} {change : Record → Record}

theorem continues_say (h : ∀ r, r.gone = true → (change r).gone = true) :
    l.Continues (l.say n change) := by
  intro m r hr
  rw [say, List.getElem?_modify, hr]
  refine ⟨_, rfl, fun hgone => ?_⟩
  dsimp only
  split
  · exact h r hgone
  · exact hgone

theorem continues_create (extension : String) (side : Side) (priority : Int) :
    l.Continues (l.enter (.create extension side priority)) :=
  fun _ r hr => ⟨r, List.getElem?_append_left (List.getElem?_eq_some_iff.mp hr).1 ▸ hr, id⟩

theorem continues_release (extension : String) : l.Continues (l.enter (.release extension)) := by
  intro n r hr
  refine ⟨_, by rw [enter, List.getElem?_map, hr]; rfl, fun hgone => ?_⟩
  dsimp only
  split
  · rfl
  · exact hgone

/-- What says nothing new of an item changes nothing, as where there is no item. -/
theorem say_eq_self (h : ∀ r, l.records[n]? = some r → change r = r) : l.say n change = l := by
  have hrecords : l.records.modify n change = l.records := by
    refine List.ext_getElem? fun m => ?_
    by_cases hn : n = m
    · subst hn
      rw [List.getElem?_modify_eq]
      cases hr : l.records[n]? with
      | none => rfl
      | some r => exact congrArg some (h r hr)
    · exact List.getElem?_modify_ne change l.records hn
  rw [say, hrecords]

end Ledger

/-- A handle disposes of an item, if it has not done so. -/
def Disposes (api : Api) (l : Ledger) (handle : HandleId) (n : Nat) : Prop :=
  ∃ r, l.records[n]? = some r ∧
    (api.handles[handle]? = some (some (.statusItem (Owner.itemName n))) ∨
      api.handles[handle]? = some none ∧ r.gone = true)

namespace Disposes

variable {api api' : Api} {l l' : Ledger} {handle : HandleId} {n : Nat}

theorem mono (hdisposes : Disposes api l handle n) (h : l.Continues l') :
    Disposes api l' handle n := by
  obtain ⟨r, hr, hhandle⟩ := hdisposes
  obtain ⟨r', hr', hgone⟩ := h n r hr
  exact ⟨r', hr', hhandle.imp_right fun ⟨hnone, hr⟩ => ⟨hnone, hgone hr⟩⟩

theorem keep (h : Disposes api l handle n) (undo : Undo) :
    Disposes (api.keep undo).2 l handle n := by
  have hkept {action : Option Undo} (h : api.handles[handle]? = some action) :
      (api.keep undo).2.handles[handle]? = some action :=
    (List.getElem?_append_left (List.getElem?_eq_some_iff.mp h).1).trans h
  obtain ⟨r, hr, hhandle⟩ := h
  exact ⟨r, hr, hhandle.imp hkept fun ⟨hnone, hgone⟩ => ⟨hkept hnone, hgone⟩⟩

/-- A handle that is undone takes the item with it that it disposes of. -/
theorem taken {other : HandleId} {m : Nat} (h : Disposes api l handle n)
    (hother : api.handles[other]? = some (some (.statusItem (Owner.itemName m)))) :
    Disposes { api with handles := api.handles.set other none }
      (l.say m fun r => { r with gone := true }) handle n := by
  by_cases heq : other = handle
  · subst heq
    obtain ⟨r, hr, hhandle | ⟨hnone, -⟩⟩ := h
    · rw [hhandle, Option.some.injEq, Option.some.injEq, Undo.statusItem.injEq] at hother
      obtain rfl := Owner.itemName_injective hother
      refine ⟨{ r with gone := true }, ?_, .inr ⟨?_, rfl⟩⟩
      · simp [Ledger.say, hr]
      · exact List.getElem?_set_self (List.getElem?_eq_some_iff.mp hhandle).1
    · rw [hnone] at hother
      cases hother
  · have hcontinues : l.Continues (l.say m fun r => { r with gone := true }) :=
      Ledger.continues_say fun _ _ => rfl
    obtain ⟨r, hr, hhandle⟩ := h.mono hcontinues
    refine ⟨r, hr, ?_⟩
    rwa [List.getElem?_set_ne heq]

end Disposes

/-- Two lists that match have as many items, each matching that in its place. -/
theorem forall₂_getElem? {α β : Type} {R : α → β → Prop} {as : List α} {bs : List β}
    (h : List.Forall₂ R as bs) (k : Nat) : as[k]? = none ∧ bs[k]? = none ∨
      ∃ a b, as[k]? = some a ∧ bs[k]? = some b ∧ R a b := by
  induction h generalizing k with
  | nil => exact .inl ⟨rfl, rfl⟩
  | cons hab _ ih =>
      cases k with
      | zero => exact .inr ⟨_, _, rfl, rfl, hab⟩
      | succ k => exact ih k

/-- What the callers hold is what has been entered. -/
structure Desk.Matches (d : Desk χ) (l : Ledger) : Prop where
  tallies : Tallies d.world l
  items : d.items = (List.range l.records.length).map Owner.itemName
  disposables : List.Forall₂ (Disposes d.world.api l) d.disposables l.disposables

namespace Desk.Matches

variable {d : Desk χ} {l : Ledger} {n : Nat}

theorem item_eq (h : d.Matches l) {id : String} (hid : d.items[n]? = some id) :
    id = Owner.itemName n ∧ n < l.records.length := by
  rw [h.items, List.getElem?_map, Option.map_eq_some_iff] at hid
  obtain ⟨m, hm, rfl⟩ := hid
  obtain ⟨hlt, rfl⟩ := List.getElem?_eq_some_iff.mp hm
  rw [List.length_range] at hlt
  exact ⟨by rw [List.getElem_range], hlt⟩

theorem item_none (h : d.Matches l) (hnone : d.items[n]? = none) : l.records.length ≤ n := by
  rw [h.items, List.getElem?_eq_none_iff] at hnone
  simpa using hnone

/-- What is done to an item is entered. -/
theorem onItem (h : d.Matches l) {run : String → StatusBar → List Event × StatusBar}
    {change : Record → Record} (htells : ∀ id, Tells (run id))
    (hcreated : ∀ id bar, (run id bar).2.created = bar.created)
    (hentries : ∀ bar : StatusBar, bar.entries = l.entries →
      (run (Owner.itemName n) bar).2.entries = (l.say n change).entries)
    (hgone : ∀ r, r.gone = true → (change r).gone = true) :
    (d.onItem n run).Matches (l.say n change) := by
  unfold Desk.onItem
  split
  next hnone =>
    have hno := List.getElem?_eq_none (h.item_none hnone)
    rwa [Ledger.say_eq_self fun r hr => by rw [hno] at hr; cases hr]
  next id hid =>
    obtain ⟨rfl, hn⟩ := h.item_eq hid
    refine ⟨h.tallies.change (htells _) (hcreated _ _) (List.length_modify ..)
      (hentries _ h.tallies.entries), ?_, ?_⟩
    · exact h.items.trans (by rw [Ledger.say, List.length_modify])
    · exact h.disposables.imp fun _ _ hold => hold.mono (Ledger.continues_say hgone)

/-- How an item is to be shown is entered. -/
theorem onUpdate (h : d.Matches l) {change : Record → Record} {change' : StatusEntry → StatusEntry}
    (hchange : ∀ r : Record, (change r).listed? n = (r.listed? n).map change')
    (hgone : ∀ r, r.gone = true → (change r).gone = true) :
    (d.onItem n fun id bar => bar.update id change').Matches (l.say n change) := by
  refine h.onItem (fun id => tells_update id change') (fun _ _ => rfl) (fun bar hbar => ?_) hgone
  rw [Ledger.entries_update hchange, ← hbar]
  rfl

/-- That an item goes is entered. -/
theorem onRemove (h : d.Matches l) (n : Nat) : (d.onItem n fun id bar => bar.remove id).Matches
    (l.say n fun r => { r with gone := true }) := by
  refine h.onItem (fun id => tells_removeAll fun item => item.id == id) (fun _ _ => rfl)
    (fun bar hbar => ?_) fun _ _ => rfl
  rw [Ledger.entries_gone, ← hbar]
  rfl

theorem create (h : d.Matches l) (code : Code χ) (extension : String) (side : Side)
    (priority : Int) : (d.perform code (.create extension side priority)).Matches
      (l.enter (.create extension side priority)) := by
  have hlength : (l.enter (.create extension side priority)).records.length =
      l.records.length + 1 := by simp [Ledger.enter]
  have hname : (d.world.api.statusBar.create extension side priority).1 =
      Owner.itemName l.records.length := by rw [← h.tallies.created]; rfl
  have hentries : (d.world.api.statusBar.create extension side priority).2.entries =
      (l.enter (.create extension side priority)).entries := by
    rw [Ledger.entries_create, ← h.tallies.entries, ← hname]
    rfl
  refine ⟨⟨?_, ?_, hentries⟩, ?_, ?_⟩
  · -- the new item is hidden
    have hvisible : (d.world.api.statusBar.create extension side priority).2.visible =
        d.world.api.statusBar.visible := by
      simp [StatusBar.create, StatusBar.visible]
    exact h.tallies.shown.trans hvisible.symm
  · rw [hlength, ← h.tallies.created]
    rfl
  · rw [hlength, List.range_succ, List.map_append, ← h.items, List.map_singleton, ← hname]
    rfl
  · exact h.disposables.imp fun _ _ hold =>
      hold.mono (Ledger.continues_create extension side priority)

theorem asDisposable (h : d.Matches l) (code : Code χ) (n : Nat) :
    (d.perform code (.asDisposable n)).Matches (l.enter (.asDisposable n)) := by
  simp only [Desk.perform, Ledger.enter]
  split
  next hnone => rwa [if_neg (Nat.not_lt.mpr (h.item_none hnone))]
  next id hid =>
    obtain ⟨rfl, hn⟩ := h.item_eq hid
    rw [if_pos hn]
    refine ⟨⟨h.tallies.shown, h.tallies.created, h.tallies.entries⟩, h.items, ?_⟩
    have hnew : Disposes (d.world.api.keep (.statusItem (Owner.itemName n))).2 l
        d.world.api.handles.length n :=
      ⟨_, List.getElem?_eq_getElem hn, .inl (List.getElem?_concat_length ..)⟩
    have hold := h.disposables.imp fun _ _ hold => hold.keep (.statusItem (Owner.itemName n))
    exact List.rel_append hold (.cons hnew .nil)

/-- Undoing a disposable for the first time disposes of its item, and then nothing is left to
undo. -/
theorem undo (h : d.Matches l) (code : Code χ) (k : Nat) :
    (d.perform code (.undo k)).Matches (l.enter (.undo k)) := by
  rcases forall₂_getElem? h.disposables k with ⟨hnone, hnone'⟩ | ⟨handle, n, hhandle, hn, hdisposes⟩
  · simpa only [Desk.perform, Ledger.enter, hnone, hnone'] using h
  simp only [Desk.perform, Ledger.enter, hhandle, hn]
  obtain ⟨r, hr, haction | ⟨hundone, hgone⟩⟩ := hdisposes
  · rw [World.dispose_of_action code (Api.action?_eq_some.mpr haction) nofun]
    have htaken : Tallies { d.world with api := { d.world.api with
        handles := d.world.api.handles.set handle none } } l :=
      ⟨h.tallies.shown, h.tallies.created, h.tallies.entries⟩
    have hentries : (d.world.api.statusBar.remove (Owner.itemName n)).2.entries =
        (l.say n fun r => { r with gone := true }).entries := by
      rw [Ledger.entries_gone, ← h.tallies.entries]
      rfl
    refine ⟨htaken.change (tells_removeAll _) rfl (List.length_modify ..) hentries, ?_, ?_⟩
    · exact h.items.trans (by rw [Ledger.say, List.length_modify])
    · exact h.disposables.imp fun _ _ hold => hold.taken haction
  · have hsame : l.say n (fun r => { r with gone := true }) = l := by
      refine Ledger.say_eq_self fun r' hr' => ?_
      obtain rfl : r = r' := Option.some.inj (hr.symm.trans hr')
      cases r
      cases hgone
      rfl
    rw [World.dispose_of_none (by simp [Api.action?, hundone]), hsame]
    exact h

theorem release (h : d.Matches l) (code : Code χ) (extension : String) :
    (d.perform code (.release extension)).Matches (l.enter (.release extension)) := by
  have hlength : (l.enter (.release extension)).records.length = l.records.length := by
    simp [Ledger.enter]
  have hentries : (d.world.api.statusBar.removeExtension extension).2.entries =
      (l.enter (.release extension)).entries := by
    rw [Ledger.entries_release, ← h.tallies.entries]
    rfl
  let registry := (d.world.api.registry.unregisterExtension extension).2
  have htallies : Tallies { d.world with api := { d.world.api with registry } } l :=
    ⟨h.tallies.shown, h.tallies.created, h.tallies.entries⟩
  refine ⟨htallies.change (tells_removeAll _) rfl hlength hentries, ?_, ?_⟩
  · exact h.items.trans (by rw [hlength])
  · exact h.disposables.imp fun _ _ hold => hold.mono (Ledger.continues_release extension)

/-- Each call is entered. -/
theorem perform (h : d.Matches l) (code : Code χ) (call : Call) :
    (d.perform code call).Matches (l.enter call) := by
  cases call with
  | create extension side priority => exact h.create code extension side priority
  | setText n text =>
      exact h.onUpdate (fun r => by unfold Record.listed?; split <;> rfl) fun _ hgone => hgone
  | setTooltip n tooltip =>
      exact h.onUpdate (fun r => by unfold Record.listed?; split <;> rfl) fun _ hgone => hgone
  | setVisible n visible =>
      exact h.onUpdate (fun r => by unfold Record.listed?; split <;> rfl) fun _ hgone => hgone
  | dispose n => exact h.onRemove n
  | asDisposable n => exact h.asDisposable code n
  | undo k => exact h.undo code k
  | release extension => exact h.release code extension

/-- All calls are entered. -/
theorem run (h : d.Matches l) (code : Code χ) (calls : List Call) :
    (d.run code calls).Matches (calls.foldl Ledger.enter l) := by
  induction calls generalizing d l with
  | nil => exact h
  | cons call calls ih => exact ih (h.perform code call)

end Desk.Matches

/-- Whatever is called on a status bar without items, the user interface shows what is visible, and
that are the items to be shown. -/
theorem mirrors_run (code : Code χ) {w : World χ} (hbar : w.api.statusBar = {})
    (hquiet : shownBy w.events = []) (calls : List Call) :
    (Desk.run code ⟨w, [], []⟩ calls).Mirrors (.of calls) := by
  have hempty : (⟨w, [], []⟩ : Desk χ).Matches {} := by
    refine ⟨⟨?_, ?_, ?_⟩, rfl, .nil⟩
    · rw [hquiet, hbar]
      simp [visible]
    · rw [hbar]
      rfl
    · rw [hbar]
      rfl
  have h := hempty.run code calls
  exact ⟨h.tallies.shown, visible_of_entries h.tallies.entries⟩

/-- So it is with two items in a fresh world, one of them shown through what is left of it. -/
theorem mirrors_run_two : ((World.ofExtensions () []).api.statusBar = {} ∧
    shownBy (World.ofExtensions () []).events = []) ∧
    (Desk.run Code.slow ⟨World.ofExtensions () [], [], []⟩
      [.create "a" .left 1, .create "b" .right 2, .setVisible 0 true, .asDisposable 0,
        .setVisible 1 true, .undo 0, .setVisible 0 true]).Mirrors
      (.of [.create "a" .left 1, .create "b" .right 2, .setVisible 0 true, .asDisposable 0,
        .setVisible 1 true, .undo 0, .setVisible 0 true]) :=
  ⟨⟨rfl, rfl⟩, mirrors_run Code.slow rfl rfl _⟩

end StatusBar

end EditorHost
