import EditorHost.Proofs.Disk.Saving
import EditorHost.Proofs.Extension.Housekeeping
import EditorHost.Proofs.Extension.Installing
import EditorHost.Proofs.Json.Records
import EditorHost.Proofs.Json.Rereading
import EditorHost.Proofs.Providers.Keys

/-!
# The disabled extensions in memory and on the disk

A host keeps the set of disabled extensions twice: in memory, and in a file that the next host on
the same disk reads.  Each call that reaches the set comes to at most one request to put an
extension in or to take it out; everything else that the calls do leaves both sets alone.

## Contents

* `DisabledSets` are the two sets, and `DisabledSets.after` what a request makes of them.
* `World.LeavesDisabled` says that neither set changes; `Code.LeavesDisabled` asks that of the code
  of the extensions when they are activated and deactivated.
* `World.save_disabled`: what is saved is read back, and what cannot be saved leaves what was there.
* `World.setDisabled_disabledSets`: a call makes of the sets what its request does, and whether the
  file was written is whether it succeeds.
* `World.disable_disabled`, `World.enable_disabled`, `World.uninstall_disabled`: where the other
  calls make that request.
-/

namespace EditorHost

open World (hostPart)
open HouseRules (within_pause)

variable {χ : Type} {code : Code χ} {w w' w'' : World χ} {place : List String} {id : String}

/-! ## Sets as lists in order -/

namespace Selector

variable {text : String} {sorted : List String}

theorem pairwise_insertSorted (h : sorted.Pairwise (· < ·)) :
    (insertSorted text sorted).Pairwise (· < ·) := by
  induction sorted with
  | nil => exact List.pairwise_singleton _ _
  | cons t rest ih =>
      obtain ⟨hless, hrest⟩ := List.pairwise_cons.mp h
      rw [insertSorted]
      split
      · exact h
      next hne =>
        split
        next hlt =>
          refine List.pairwise_cons.mpr ⟨fun other hother => ?_, h⟩
          rcases List.mem_cons.mp hother with rfl | hother
          · exact hlt
          · exact String.lt_trans hlt (hless other hother)
        next hnot =>
          refine List.pairwise_cons.mpr ⟨fun other hother => ?_, ih hrest⟩
          rcases mem_insertSorted.mp hother with rfl | hother
          · exact Std.lt_of_le_of_ne (String.not_lt.mp hnot) (Ne.symm hne)
          · exact hless other hother

theorem insertSorted_of_lt (h : ∀ other ∈ sorted, other < text) :
    insertSorted text sorted = sorted ++ [text] := by
  induction sorted with
  | nil => rfl
  | cons t rest ih =>
      obtain ⟨ht, hrest⟩ := List.forall_mem_cons.mp h
      have hne : text ≠ t := fun heq => String.lt_irrefl t (heq ▸ ht)
      have hnot : ¬ text < t := fun hlt => String.lt_irrefl t (String.lt_trans ht hlt)
      rw [insertSorted, if_neg hne, if_neg hnot, ih hrest, List.cons_append]

theorem insertSorted_of_mem (h : sorted.Pairwise (· < ·)) (hmem : text ∈ sorted) :
    insertSorted text sorted = sorted := by
  induction sorted with
  | nil => cases hmem
  | cons t rest ih =>
      obtain ⟨hless, hrest⟩ := List.pairwise_cons.mp h
      rw [insertSorted]
      split
      · rfl
      next hne =>
        have hin : text ∈ rest := (List.mem_cons.mp hmem).resolve_left hne
        have hnot : ¬ text < t := fun hlt =>
          String.lt_irrefl t (String.lt_trans (hless text hin) hlt)
        rw [if_neg hnot, ih hrest hin]

/-- What is in order already is put together again. -/
theorem foldl_insertSorted (h : sorted.Pairwise (· < ·)) :
    sorted.foldl (fun set text => insertSorted text set) [] = sorted := by
  suffices hrun : ∀ rest before : List String, (before ++ rest).Pairwise (· < ·) →
      rest.foldl (fun set text => insertSorted text set) before = before ++ rest from
    hrun sorted [] h
  intro rest
  induction rest with
  | nil => exact fun before _ => (List.append_nil before).symm
  | cons text rest ih =>
      intro before hbefore
      have hless : ∀ other ∈ before, other < text := fun other hother =>
        (List.pairwise_append.mp hbefore).2.2 other hother text List.mem_cons_self
      rw [List.foldl_cons, insertSorted_of_lt hless, ih _ (by simpa using hbefore)]
      simp

end Selector

namespace Host

/-- What is written for a set is read back. -/
theorem readDisabled_of_readText {disk : Disk} {file : Path} {disabled : List String}
    (hsorted : disabled.Pairwise (· < ·))
    (h : disk.readText file = .ok (disabledContent disabled)) :
    readDisabled disk file = disabled := by
  rw [readDisabled, h]
  dsimp only
  rw [disabledContent, Json.parse?_ofTexts, Option.bind_some, Json.readList_ofTexts,
    Option.getD_some, Selector.foldl_insertSorted hsorted]

theorem readDisabled_congr {disk disk' : Disk} {file : Path}
    (h : ∀ text, disk'.readText file = .ok text ↔ disk.readText file = .ok text) :
    readDisabled disk' file = readDisabled disk file := by
  rw [readDisabled, readDisabled]
  rcases Disk.readText_same_or_error h with hsame | ⟨e, e', hread, hread'⟩
  · rw [hsame]
  · rw [hread, hread']

end Host

/-! ## The two sets -/

/-- The set of disabled extensions that a host has in memory, and the one of a host that is started
on the same disk. -/
structure DisabledSets where
  memory : List String
  stored : List String
  deriving DecidableEq

def World.disabledSets (w : World χ) : DisabledSets where
  memory := w.host.disabled
  stored := (Host.ofDisk w.disk w.host.layout).disabled

/-- What is asked of the sets: to put an extension in or to take it out; and whether the file could
be written. -/
structure DisabledRequest where
  id : String
  disabled : Bool
  saved : Bool

/-- The set with an extension in it, or without. -/
def Host.marked (disabled : List String) (id : String) (isDisabled : Bool) : List String :=
  if isDisabled then Selector.insertSorted id disabled
  else disabled.filter fun other => other != id

/-- The sets behind a request.  Memory follows every request; the file does when it is written,
which it is not if the set in memory does not change. -/
def DisabledSets.after (s : DisabledSets) (q : DisabledRequest) : DisabledSets :=
  if s.memory.contains q.id = q.disabled then s
  else
    let memory := Host.marked s.memory q.id q.disabled
    { memory, stored := if q.saved then memory else s.stored }

theorem Host.pairwise_marked {disabled : List String} (h : disabled.Pairwise (· < ·)) (id : String)
    (isDisabled : Bool) : (marked disabled id isDisabled).Pairwise (· < ·) := by
  rw [marked]
  split
  · exact Selector.pairwise_insertSorted h
  · exact h.filter _

theorem Host.mark_of_same {h : Host} {disabled : Bool} (hsame : h.isDisabled id = disabled) :
    h.mark id disabled = (false, h) := if_pos hsame

theorem Host.mark_of_ne {h : Host} {disabled : Bool} (hne : h.isDisabled id ≠ disabled) :
    h.mark id disabled = (true, { h with disabled := marked h.disabled id disabled }) := by
  rw [mark, if_neg hne, marked]
  split <;> rfl

/-- What the file of a host needs for that: a plain path through no links. -/
structure World.KeepsDisabled (place : List String) (w : World χ) : Prop where
  file : w.host.layout.disabledFile.Plain place
  slash : w.host.layout.disabledFile.endsInSlash = false
  straight : w.disk.Straight place
  sorted : w.host.disabled.Pairwise (· < ·)

/-- Neither of the sets changes, nor where the file is, and no links are made. -/
structure World.LeavesDisabled (place : List String) (w w' : World χ) : Prop where
  layout : w'.host.layout = w.host.layout
  memory : w'.host.disabled = w.host.disabled
  disk : Disk.Spares place w.disk w'.disk

namespace World

namespace LeavesDisabled

theorem refl (w : World χ) : LeavesDisabled place w w := ⟨rfl, rfl, .refl place w.disk⟩

theorem trans (w w' w'' : World χ) (h : LeavesDisabled place w w')
    (h' : LeavesDisabled place w' w'') : LeavesDisabled place w w'' :=
  ⟨h'.layout.trans h.layout, h'.memory.trans h.memory, h.disk.trans h'.disk⟩

theorem disabledSets (h : LeavesDisabled place w w') (hkeeps : w.KeepsDisabled place) :
    w'.disabledSets = w.disabledSets := by
  rw [World.disabledSets, World.disabledSets, h.memory, h.layout, Host.ofDisk, Host.ofDisk,
    Host.readDisabled_congr (h.disk.readText_eq_ok_iff hkeeps.file hkeeps.slash hkeeps.straight)]

end LeavesDisabled

/-! ## Saving -/

/-- A set that is saved is read back, and one that is not leaves what was there. -/
theorem save_disabled {file : Path} (hfile : file.Plain place) (hslash : file.endsInSlash = false)
    (hstraight : w.disk.Straight place) {content : String} {result : Except Fault Unit}
    (h : (save file content).alone w = some (result, w')) :
    w'.host = w.host ∧
      (∀ other target, w'.disk.faceAt other = some (.link target) →
        w.disk.faceAt other = some (.link target)) ∧
      (result = .ok () ∧ w'.disk.readText file = .ok content ∨
        (∃ fault, result = .error fault) ∧ Disk.Spares place w.disk w'.disk) := by
  simp only [save, Flow.bind_eq, Flow.alone_pause_bind] at h
  obtain ⟨made, w₁, hmade, h⟩ := Flow.alone_bind_eq_some h
  obtain ⟨-, rfl⟩ := Prod.mk.inj (Option.some.inj ((onDisk_alone _ w).symm.trans hmade))
  have hfolders : Disk.MakesFolders (file.folder?.forM Disk.createFolders) := by
    cases file.folder? with
    | none => exact Disk.makesFolders_pure _
    | some folder => exact Disk.makesFolders_createFolders folder
  have hspares := (hfolders w.disk).spares place
  cases made with
  | error fault =>
      obtain ⟨rfl, rfl⟩ := Prod.mk.inj (Option.some.inj h)
      exact ⟨rfl, hspares.links, .inr ⟨⟨fault, rfl⟩, hspares⟩⟩
  | ok _ =>
      simp only [Flow.alone_pause_bind, onDisk_alone, Option.some.injEq, Prod.mk.injEq] at h
      obtain ⟨rfl, rfl⟩ := h
      have hstraight' := hspares.straight hstraight
      refine ⟨rfl, ?_⟩
      dsimp only
      generalize (w.disk.perform (file.folder?.forM Disk.createFolders)).2 = disk
        at hspares hstraight'
      cases hwritten : disk.perform (Disk.writeText file content) with
      | mk written disk' =>
          cases written with
          | ok _ =>
              refine ⟨fun other target hlink => hspares.links other target ?_,
                .inl ⟨rfl, Disk.readText_writeText hfile hslash hstraight' hwritten⟩⟩
              exact Disk.links_of_writeFile hfile hstraight' hwritten other target hlink
          | error e =>
              obtain rfl := Disk.eq_of_writeText_error hfile hstraight' hwritten
              exact ⟨hspares.links, .inr ⟨⟨e.fault, rfl⟩, hspares⟩⟩

/-- Where the file is stays as it is, and no links are made. -/
structure KeepsPlace (w w' : World χ) : Prop where
  layout : w'.host.layout = w.host.layout
  links : ∀ other target, w'.disk.faceAt other = some (.link target) →
    w.disk.faceAt other = some (.link target)

theorem KeepsPlace.straight {own : List String} (h : KeepsPlace w w')
    (hstraight : w.disk.Straight own) : w'.disk.Straight own :=
  fun first hfirst target hlink => hstraight first hfirst target (h.links first target hlink)

theorem LeavesDisabled.keepsPlace (h : LeavesDisabled place w w') : KeepsPlace w w' :=
  ⟨h.layout, h.disk.links⟩

theorem KeepsPlace.keeps (h : KeepsPlace w w') (hkeeps : w.KeepsDisabled place)
    (hsorted : w'.host.disabled.Pairwise (· < ·)) : w'.KeepsDisabled place where
  file := h.layout ▸ hkeeps.file
  slash := h.layout ▸ hkeeps.slash
  straight := h.straight hkeeps.straight
  sorted := hsorted

theorem LeavesDisabled.keeps (h : LeavesDisabled place w w') (hkeeps : w.KeepsDisabled place) :
    w'.KeepsDisabled place :=
  h.keepsPlace.keeps hkeeps (h.memory ▸ hkeeps.sorted)

/-- What a call makes of the two sets.  If the set in memory does not change, nothing does. -/
theorem setDisabled_disabledSets (hkeeps : w.KeepsDisabled place) {disabled : Bool}
    {result : Except Fault Unit} (h : (setDisabled id disabled).alone w = some (result, w')) :
    KeepsPlace w w' ∧ w'.KeepsDisabled place ∧
      w'.disabledSets = w.disabledSets.after ⟨id, disabled, result.isOk⟩ ∧
      (w.host.isDisabled id = disabled → result = .ok () ∧ w' = w) := by
  have hget : hostPart.get w = w.host := rfl
  simp only [setDisabled, Flow.bind_eq, Flow.alone_pause_bind, Flow.alone_sync_bind, Focus.zoom,
    hget] at h
  by_cases hsame : w.host.isDisabled id = disabled
  · rw [Host.mark_of_same hsame] at h
    obtain ⟨rfl, rfl⟩ := Prod.mk.inj (Option.some.inj h)
    exact ⟨⟨rfl, fun _ _ h => h⟩, hkeeps, (if_pos hsame).symm, fun _ => ⟨rfl, rfl⟩⟩
  · rw [Host.mark_of_ne hsame] at h
    have hsorted := Host.pairwise_marked hkeeps.sorted id disabled
    have hafter (saved : Bool) : w.disabledSets.after ⟨id, disabled, saved⟩ =
        { memory := Host.marked w.host.disabled id disabled,
          stored := if saved then Host.marked w.host.disabled id disabled
            else w.disabledSets.stored } := if_neg hsame
    obtain ⟨saved, w₁, hsave, h⟩ := Flow.alone_bind_eq_some h
    obtain ⟨hhost, hlinks, hsaved⟩ := save_disabled
      (w := hostPart.set { w.host with disabled := Host.marked w.host.disabled id disabled } w)
      hkeeps.file hkeeps.slash hkeeps.straight hsave
    -- What is told afterwards is told when the file has been written.
    obtain ⟨rfl, hhost', hdisk'⟩ : result = saved ∧ w'.host = w₁.host ∧ w'.disk = w₁.disk := by
      cases saved <;> obtain ⟨rfl, rfl⟩ := Prod.mk.inj (Option.some.inj h) <;> exact ⟨rfl, rfl, rfl⟩
    have hmemory : w'.host.disabled = Host.marked w.host.disabled id disabled := by
      rw [hhost', hhost]
      rfl
    have hlayout : w'.host.layout = w.host.layout := by
      rw [hhost', hhost]
      rfl
    have hplace : KeepsPlace w w' := ⟨hlayout, hdisk' ▸ hlinks⟩
    refine ⟨hplace, hplace.keeps hkeeps (hmemory ▸ hsorted), ?_, fun heq => absurd heq hsame⟩
    rw [hafter, disabledSets, Host.ofDisk, hmemory, hlayout, hdisk']
    rcases hsaved with ⟨rfl, hread⟩ | ⟨⟨fault, rfl⟩, hspares⟩
    · rw [Host.readDisabled_of_readText hsorted hread]
      rfl
    · rw [Host.readDisabled_congr
        (hspares.readText_eq_ok_iff hkeeps.file hkeeps.slash hkeeps.straight)]
      rfl

end World

/-! ## Activating and deactivating -/

/-- Code that leaves the sets alone when extensions are activated and deactivated. -/
structure Code.LeavesDisabled (code : Code χ) (place : List String) : Prop where
  undo : ∀ callback, Keeps (World.LeavesDisabled place) (code.undo callback)
  activate : ∀ id entry context, code.entry id = some entry →
    (entry.activate context).Within (World.LeavesDisabled place)
  deactivate : ∀ id entry, code.entry id = some entry →
    entry.deactivate.Within (World.LeavesDisabled place)

theorem Code.leavesDisabled_idle : (Code.idle : Code χ).LeavesDisabled place where
  undo _ := .refl
  activate _ _ _ h := nomatch h
  deactivate _ _ h := nomatch h

/-- Contexts are made with new folders. -/
theorem Context.makesFolders_prepare (layout : Layout) (id : String) (path : Path) :
    Disk.MakesFolders (prepare layout id path) := by
  have hget : Disk.MakesFolders (get : Disk.Action Disk) := .refl
  exact (Disk.MakesFolders.forM Disk.makesFolders_createFolders).bind fun _ =>
    hget.bind fun _ => Disk.makesFolders_pure _

namespace World

theorem LeavesDisabled.of_eq (hlayout : w'.host.layout = w.host.layout)
    (hmemory : w'.host.disabled = w.host.disabled) (hdisk : w'.disk = w.disk) :
    LeavesDisabled place w w' :=
  ⟨hlayout, hmemory, hdisk ▸ .refl place w.disk⟩

theorem keeps_makeContext_disabled (path : Path) :
    Keeps (LeavesDisabled place) (makeContext id path : StateM (World χ) _) := by
  intro w
  have hspares := (Context.makesFolders_prepare w.host.layout id path w.disk).spares place
  unfold makeContext
  cases hmade : w.disk.perform (Context.prepare w.host.layout id path) with
  | mk result disk =>
      rw [hmade] at hspares
      cases result <;> exact ⟨rfl, rfl, hspares⟩

section Quiet

variable (hcode : code.LeavesDisabled place)

include hcode

theorem keeps_disposeContext_disabled (context : ContextId) :
    Keeps (LeavesDisabled place) (disposeContext code context) := by
  have hdispose (handle : HandleId) : Keeps (LeavesDisabled place) (dispose code handle) := by
    have hpart : Keeps (LeavesDisabled place)
        (apiPart.zoom fun api => api.dispose handle : StateM (World χ) _) :=
      fun _ => .of_eq rfl rfl rfl
    have hemit (events : List Event) : Keeps (LeavesDisabled place)
        (emit events : StateM (World χ) Unit) := fun _ => .of_eq rfl rfl rfl
    refine hpart.bind LeavesDisabled.trans fun disposal =>
      (hemit disposal.events).bind LeavesDisabled.trans fun _ => ?_
    cases disposal.code with
    | none => exact .pure .refl _
    | some callback =>
        exact (hcode.undo callback).bind LeavesDisabled.trans fun _ => .pure .refl _
  have hdrain : Keeps (LeavesDisabled place)
      (hostPart.zoom ((Host.context context).zoom Context.drain) : StateM (World χ) _) :=
    fun _ => .of_eq rfl rfl rfl
  have hgiveUp : Keeps (LeavesDisabled place) (hostPart.zoom
      ((Host.context context).zoom fun c => ((), c.giveUp)) : StateM (World χ) _) :=
    fun _ => .of_eq rfl rfl rfl
  exact hdrain.bind LeavesDisabled.trans fun handles =>
    .bind LeavesDisabled.trans (.loop .refl LeavesDisabled.trans handles hdispose) fun _ => hgiveUp

theorem within_deactivateInTurn_disabled :
    (deactivateInTurn code id).Within (LeavesDisabled place) := by
  have hbecome : Keeps (LeavesDisabled place)
      (hostPart.zoom (becomeInactive id) :
        StateM (World χ) (Option (Bool × Option ContextId))) := by
    intro w
    simp only [Focus.zoom, becomeInactive]
    split
    · exact .refl w
    · split
      · exact .of_eq rfl rfl rfl
      · exact .refl w
  have hkill : Keeps (LeavesDisabled place) (hostPart.zoom fun h => h.killProcesses fun owner =>
      owner == id : StateM (World χ) Nat) := fun _ => .of_eq rfl rfl rfl
  have hrelease : Keeps (LeavesDisabled place) (release id : StateM (World χ) Unit) :=
    fun _ => .of_eq rfl rfl rfl
  refine within_pause.bind fun _ => (Flow.within_sync hbecome).bind fun result => ?_
  rcases result with _ | ⟨hasModule, context⟩
  · trivial
  · have hleave : (leave code id hasModule).Within (LeavesDisabled place) := by
      unfold leave
      split
      · trivial
      next entry hentry =>
        have hsome : code.entry id = some entry := by
          split at hentry
          · exact hentry
          · cases hentry
        exact (hcode.deactivate id entry hsome).bind fun _ => trivial
    have hrest : (do
        Flow.pause
        let _ ← Flow.sync (hostPart.zoom fun h => h.killProcesses fun owner => owner == id)
        Flow.sync (release id) : Flow (World χ) Unit).Within (LeavesDisabled place) :=
      within_pause.bind fun _ => (Flow.within_sync hkill).bind fun _ => Flow.within_sync hrelease
    refine hleave.bind fun _ => ?_
    cases context with
    | none => exact hrest
    | some context =>
        exact (Flow.within_sync (keeps_disposeContext_disabled hcode context)).bind
          fun _ => hrest

theorem within_activateInTurn_disabled (path : Path) (manifest : Manifest) :
    (activateInTurn code id path manifest).Within (LeavesDisabled place) := by
  refine within_pause.bind fun _ => (Flow.within_read .refl _).bind fun loaded => ?_
  cases loaded with
  | none => trivial
  | some e =>
      dsimp only
      split
      · trivial
      refine (Flow.within_sync (keeps_makeContext_disabled path)).bind fun made => ?_
      cases made with
      | none => trivial
      | some context =>
          have henter : (enter code id manifest context).Within (LeavesDisabled place) := by
            unfold enter
            split
            next entry hbuild =>
              exact (hcode.activate id entry context (entry_of_build hbuild)).bind fun _ => trivial
            · trivial
          have hbecome (exports : Json) (hasModule : Bool) : Keeps (LeavesDisabled place)
              (hostPart.zoom (becomeActive id exports hasModule context) :
                StateM (World χ) Bool) := by
            intro w
            simp only [Focus.zoom, becomeActive]
            split
            · exact .refl w
            · exact .of_eq rfl rfl rfl
          refine henter.bind fun result => within_pause.bind fun _ =>
            (Flow.within_sync (hbecome _ _)).bind fun stillLoaded => ?_
          have hemit : Keeps (LeavesDisabled place)
              (emit [.extensionsChanged] : StateM (World χ) Unit) := fun _ => .of_eq rfl rfl rfl
          split
          · exact (Flow.within_sync hemit).bind fun _ => trivial
          · exact (Flow.within_sync (keeps_disposeContext_disabled hcode context)).bind
              fun _ => trivial

omit hcode in
theorem within_inTurn_disabled {α : Type} {queue : QueueId} {body : Flow (World χ) α}
    (hbody : body.Within (LeavesDisabled place)) :
    (inTurn queue body).Within (LeavesDisabled place) := by
  have htake : Keeps (LeavesDisabled place)
      (hostPart.zoom fun h => h.takeTicket queue : StateM (World χ) Nat) :=
    fun _ => .of_eq rfl rfl rfl
  refine (Flow.within_sync htake).bind fun ticket => ?_
  have hwait : (Flow.untilReady fun w : World χ => w.host.isTurnOf queue ticket).Within
      (LeavesDisabled place) := fun _ => trivial
  have hgive : Keeps (LeavesDisabled place)
      (hostPart.zoom fun h => ((), h.giveBack queue ticket) : StateM (World χ) Unit) :=
    fun _ => .of_eq rfl rfl rfl
  exact hwait.bind fun _ => hbody.bind fun value => (Flow.within_sync hgive).bind fun _ => trivial

theorem within_deactivate_disabled : (deactivate code id).Within (LeavesDisabled place) := by
  refine within_pause.bind fun _ => (Flow.within_read .refl _).bind fun loaded => ?_
  cases loaded with
  | none => trivial
  | some e =>
      exact (within_inTurn_disabled (within_deactivateInTurn_disabled hcode)).bind fun _ => trivial

theorem within_activate_disabled (force : Bool) :
    (activate code id force).Within (LeavesDisabled place) := by
  refine within_pause.bind fun _ => (Flow.within_read .refl _).bind fun ⟨loaded, isDisabled⟩ => ?_
  cases loaded with
  | none => trivial
  | some e =>
      dsimp only
      split
      · trivial
      split
      · trivial
      · exact within_inTurn_disabled (within_activateInTurn_disabled hcode e.path e.manifest)

end Quiet

/-! ## Calls -/

/-- A package that lies below the user's root, and so goes with its extension, lies aside of the
file. -/
def PackageAside (place : List String) (path : Path) (w : World χ) : Prop :=
  path.startsWith w.host.layout.userExtensions = true →
    ∃ own, own ≠ [] ∧ path.Plain own ∧ path.endsInSlash = false ∧ w.disk.Straight own ∧
      ¬ own <+: place ∧ ¬ place <+: own

theorem KeepsPlace.packageAside {path : Path} (h : KeepsPlace w w')
    (haside : PackageAside place path w) : PackageAside place path w' := by
  intro hbelow
  obtain ⟨own, hne, hplain, hslash, hstraight, hapart⟩ := haside (h.layout ▸ hbelow)
  exact ⟨own, hne, hplain, hslash, h.straight hstraight, hapart⟩

theorem deletePackage_disabled {path : Path} (haside : PackageAside place path w)
    {result : Except Fault Unit} (h : (deletePackage path).alone w = some (result, w')) :
    LeavesDisabled place w w' := by
  simp only [deletePackage, Flow.bind_eq, Flow.alone_pause_bind, Flow.alone_read_bind] at h
  split at h
  next hbelow =>
    obtain ⟨-, rfl⟩ := Prod.mk.inj (Option.some.inj ((onDisk_alone _ w).symm.trans h))
    refine ⟨rfl, rfl, ?_⟩
    obtain ⟨own, hne, hplain, hslash, hstraight, hbelow, habove⟩ := haside hbelow
    rcases Disk.removeTree_plain hplain hne hslash hstraight with ⟨e, herror⟩ | ⟨hconfined, -⟩
    · rw [herror]
      exact .refl place w.disk
    · exact hconfined.spares hbelow habove
  · obtain ⟨-, rfl⟩ := Prod.mk.inj (Option.some.inj h)
    exact .refl w

section Calls

variable (hcode : code.LeavesDisabled place)

include hcode

theorem deactivate_disabled (hloaded : (w.host.find? id).isSome = true) {result : Except Fault Unit}
    (h : (deactivate code id).alone w = some (result, w')) :
    result = .ok () ∧ LeavesDisabled place w w' := by
  refine ⟨?_, (within_deactivate_disabled hcode).alone .refl .trans h⟩
  obtain ⟨e, hfind⟩ := Option.isSome_iff_exists.mp hloaded
  simp only [deactivate, Flow.bind_eq, Flow.alone_pause_bind, Flow.alone_read_bind, hfind] at h
  obtain ⟨-, w₁, -, h⟩ := Flow.alone_bind_eq_some h
  exact ((Prod.mk.inj (Option.some.inj h)).1).symm

/-- Disabling an extension puts it into the set in the end, unless it is not there. -/
theorem disable_disabled {result : Except Fault Unit}
    (h : (disable code id).alone w = some (result, w')) :
    (result.isOk = false ∧ w' = w) ∨ ∃ w₁, LeavesDisabled place w w₁ ∧
      (setDisabled id true).alone w₁ = some (result, w') := by
  simp only [disable, Flow.bind_eq, Flow.alone_pause_bind, Flow.alone_read_bind] at h
  split at h
  · obtain ⟨rfl, rfl⟩ := Prod.mk.inj (Option.some.inj h)
    exact .inl ⟨rfl, rfl⟩
  next hloaded =>
    obtain ⟨left, w₁, hdeactivate, h⟩ := Flow.alone_bind_eq_some h
    have hsome : (w.host.find? id).isSome = true := by
      simpa [← Option.isSome_iff_ne_none] using hloaded
    obtain ⟨rfl, hleaves⟩ := deactivate_disabled hcode hsome hdeactivate
    exact .inr ⟨w₁, hleaves, h⟩

/-- Enabling an extension takes it out of the set first. -/
theorem enable_disabled {result : Except Fault Bool}
    (h : (enable code id).alone w = some (result, w')) :
    ∃ enabled w₁, (setDisabled id false).alone w = some (enabled, w₁) ∧
      enabled.isOk = result.isOk ∧ LeavesDisabled place w₁ w' := by
  simp only [enable, Flow.bind_eq] at h
  obtain ⟨enabled, w₁, hset, h⟩ := Flow.alone_bind_eq_some h
  refine ⟨enabled, w₁, hset, ?_⟩
  cases enabled with
  | error fault =>
      obtain ⟨rfl, rfl⟩ := Prod.mk.inj (Option.some.inj h)
      exact ⟨rfl, .refl _⟩
  | ok _ =>
      simp only [Flow.alone_pause_bind, Flow.alone_read_bind] at h
      split at h
      · obtain ⟨rfl, rfl⟩ := Prod.mk.inj (Option.some.inj h)
        exact ⟨rfl, .refl _⟩
      · obtain ⟨active, w₂, hactivate, h⟩ := Flow.alone_bind_eq_some h
        obtain ⟨rfl, rfl⟩ := Prod.mk.inj (Option.some.inj h)
        exact ⟨rfl, (within_activate_disabled hcode true).alone .refl .trans hactivate⟩

/-- Uninstalling an extension takes it out of the set on the way, unless it is refused. -/
theorem uninstall_disabled (hkeeps : w.KeepsDisabled place)
    (haside : ∀ e, w.host.find? id = some e → PackageAside place e.path w)
    {result : Except Fault Unit}
    (h : (uninstall code id).alone w = some (result, w')) :
    (result.isOk = false ∧ w' = w) ∨ ∃ w₁ enabled w₂, LeavesDisabled place w w₁ ∧
      (setDisabled id false).alone w₁ = some (enabled, w₂) ∧
      (result.isOk = true → enabled.isOk = true) ∧ LeavesDisabled place w₂ w' := by
  simp only [uninstall, Flow.bind_eq, Flow.alone_pause_bind, Flow.alone_read_bind] at h
  cases hfind : w.host.find? id with
  | none =>
      rw [hfind] at h
      obtain ⟨rfl, rfl⟩ := Prod.mk.inj (Option.some.inj h)
      exact .inl ⟨rfl, rfl⟩
  | some e =>
      simp only [hfind] at h
      split at h
      · obtain ⟨rfl, rfl⟩ := Prod.mk.inj (Option.some.inj h)
        exact .inl ⟨rfl, rfl⟩
      obtain ⟨left, w₁, hdeactivate, h⟩ := Flow.alone_bind_eq_some h
      obtain ⟨rfl, hleaves⟩ := deactivate_disabled hcode (by rw [hfind]; rfl) hdeactivate
      simp only [Flow.alone_pause_bind, Flow.alone_sync_bind] at h
      obtain ⟨enabled, w₂, henable, h⟩ := Flow.alone_bind_eq_some h
      have hforget : LeavesDisabled place w₁
          (hostPart.zoom (fun h => ((), h.forget id)) w₁).2 := .of_eq rfl rfl rfl
      have hleft := hleaves.trans _ _ _ hforget
      refine .inr ⟨_, enabled, w₂, hleft, henable, ?_⟩
      cases enabled with
      | error fault =>
          obtain ⟨rfl, rfl⟩ := Prod.mk.inj (Option.some.inj h)
          exact ⟨fun hok => hok, .refl _⟩
      | ok _ =>
          refine ⟨fun _ => rfl, ?_⟩
          obtain ⟨deleted, w₃, hdelete, h⟩ := Flow.alone_bind_eq_some h
          have hplace := (setDisabled_disabledSets (hleft.keeps hkeeps) henable).1
          have hdeleted := deletePackage_disabled
            (hplace.packageAside (hleft.keepsPlace.packageAside (haside e hfind))) hdelete
          refine hdeleted.trans _ _ _ ?_
          cases deleted <;> obtain ⟨-, rfl⟩ := Prod.mk.inj (Option.some.inj h) <;>
            exact .of_eq rfl rfl rfl

end Calls

end World

end EditorHost
