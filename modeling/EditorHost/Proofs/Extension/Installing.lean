import EditorHost.Extension.Install
import EditorHost.Proofs.Alone
import EditorHost.Proofs.Disk.Removing
import EditorHost.Proofs.Extension.Containment
import EditorHost.Proofs.Extension.HostCalls

/-!
# Installing an extension

An installation takes the loaded extension out of the host, removes its folder, copies the new one,
and loads it.  Nothing of this is taken back when a later step fails.

So an installation that fails leaves everything as it was only if it cannot read the manifest to
begin with.  Otherwise the extension that was to be replaced is gone from the host, and from the
disk as far as the installation came; what it does not touch is everything else
(`install_error_confined`).

## Contents

* `World.Spares`: the disk and all other extensions are left as they are.
* `World.loaded`: the world when the extension of a folder has been loaded.
* `World.load_alone`, `World.unload_alone`, `World.replaceTree_alone`: the steps.
* `install_error_confined`, and an installation from a folder inside of the one that it replaces.
-/

namespace EditorHost

variable {χ : Type} {code : Code χ} {w w' : World χ} {id : String}

/-! ## Leaving -/

/-- The disk is left as it is, and so are the host's records of all other extensions. -/
structure World.Spares (id : String) (w w' : World χ) : Prop where
  disk : w'.disk = w.disk
  layout : w'.host.layout = w.host.layout
  others : ∀ other, other ≠ id → w'.host.find? other = w.host.find? other

/-- Code that changes neither the disk nor the records of other extensions when an extension is
deactivated. -/
structure Code.LeavesQuietly (code : Code χ) (id : String) : Prop where
  undo : ∀ callback, Keeps (World.Spares id) (code.undo callback)
  deactivate : ∀ entry, code.entry id = some entry → entry.deactivate.Within (World.Spares id)

theorem Code.leavesQuietly_idle (id : String) : (Code.idle : Code χ).LeavesQuietly id where
  undo _ _ := ⟨rfl, rfl, fun _ _ => rfl⟩
  deactivate _ h := nomatch h

namespace World

theorem Spares.refl (id : String) (w : World χ) : Spares id w w := ⟨rfl, rfl, fun _ _ => rfl⟩

theorem Spares.trans (id : String) (w₁ w₂ w₃ : World χ) (h : Spares id w₁ w₂)
    (h' : Spares id w₂ w₃) : Spares id w₁ w₃ :=
  ⟨h'.disk.trans h.disk, h'.layout.trans h.layout,
    fun other hother => (h'.others other hother).trans (h.others other hother)⟩

/-- What is done to the extensions' side leaves the host alone. -/
theorem keeps_apiPart_spares {α : Type} (run : StateM Api α) :
    Keeps (Spares id) (apiPart.zoom run : StateM (World χ) α) :=
  fun _ => ⟨rfl, rfl, fun _ _ => rfl⟩

theorem keeps_emit_spares (events : List Event) :
    Keeps (Spares id) (emit events : StateM (World χ) Unit) :=
  fun _ => ⟨rfl, rfl, fun _ _ => rfl⟩

section Quiet

variable (hcode : code.LeavesQuietly id)

include hcode

theorem keeps_dispose_spares (handle : HandleId) :
    Keeps (Spares id) (World.dispose code handle) := by
  refine (keeps_apiPart_spares fun api => api.dispose handle).bind (Spares.trans id) fun disposal =>
    (keeps_emit_spares disposal.events).bind (Spares.trans id) fun _ => ?_
  cases disposal.code with
  | none => exact .pure (Spares.refl id) _
  | some callback =>
      exact (hcode.undo callback).bind (Spares.trans id) fun _ => .pure (Spares.refl id) _

theorem keeps_disposeContext_spares (context : ContextId) :
    Keeps (Spares id) (disposeContext code context) := by
  have hdrain : Keeps (Spares id) (hostPart.zoom ((Host.context context).zoom Context.drain) :
      StateM (World χ) _) := fun w => ⟨rfl, rfl, fun _ _ => rfl⟩
  have hgiveUp : Keeps (Spares id) (hostPart.zoom ((Host.context context).zoom fun c =>
      ((), c.giveUp)) : StateM (World χ) _) := fun w => ⟨rfl, rfl, fun _ _ => rfl⟩
  exact hdrain.bind (Spares.trans id) fun handles =>
    .bind (Spares.trans id)
      (.loop (Spares.refl id) (Spares.trans id) handles (keeps_dispose_spares hcode))
      fun _ => hgiveUp

theorem within_leave_spares (hasModule : Bool) :
    (leave code id hasModule).Within (Spares id) := by
  unfold leave
  split
  · trivial
  next entry hentry =>
    have hsome : code.entry id = some entry := by
      split at hentry
      · exact hentry
      · cases hentry
    exact (hcode.deactivate entry hsome).bind fun _ => trivial

theorem within_deactivateInTurn_spares : (deactivateInTurn code id).Within (Spares id) := by
  have hpause : (Flow.pause : Flow (World χ) Unit).Within (Spares id) := fun _ => trivial
  have hbecome : Keeps (Spares id)
      (hostPart.zoom (becomeInactive id) : StateM (World χ) (Option (Bool × Option ContextId))) := by
    intro w
    simp only [Focus.zoom, becomeInactive]
    split
    · exact .refl id w
    · split
      · exact ⟨rfl, rfl, fun other hother => (Host.find?_modify _ _ _ _).trans (if_neg hother)⟩
      · exact .refl id w
  have hkill : Keeps (Spares id) (hostPart.zoom fun h => h.killProcesses fun owner => owner == id :
      StateM (World χ) Nat) := fun _ => ⟨rfl, rfl, fun _ _ => rfl⟩
  have hrelease : Keeps (Spares id) (release id : StateM (World χ) Unit) :=
    ((keeps_apiPart_spares _).bind (Spares.trans id) fun events => keeps_emit_spares events).bind
      (Spares.trans id) fun _ => keeps_emit_spares _
  refine hpause.bind fun _ => (Flow.within_sync hbecome).bind fun result => ?_
  cases result with
  | none => trivial
  | some left =>
      obtain ⟨hasModule, context⟩ := left
      refine (within_leave_spares hcode hasModule).bind fun _ => ?_
      have hrest : (do
          Flow.pause
          let _ ← Flow.sync (hostPart.zoom fun h => h.killProcesses fun owner => owner == id)
          Flow.sync (release id) : Flow (World χ) Unit).Within (Spares id) :=
        hpause.bind fun _ => (Flow.within_sync hkill).bind fun _ => Flow.within_sync hrelease
      cases context with
      | none => exact hrest
      | some context =>
          exact (Flow.within_sync (keeps_disposeContext_spares hcode context)).bind fun _ => hrest

end Quiet

/-- An inactive extension stays as it is. -/
theorem zoom_becomeInactive_of_not {e : Extension} (hfind : w.host.find? id = some e)
    (hactive : e.isActive = false) : hostPart.zoom (becomeInactive id) w = (none, w) := by
  have hget : (hostPart.get w).find? id = some e := hfind
  simp only [Focus.zoom, becomeInactive, hget, hactive]
  rfl

/-- A deactivation, in which an extension that is active does what its code does then. -/
theorem deactivate_spares (hcode : ∀ e, w.host.find? id = some e → e.isActive = true →
    code.LeavesQuietly id) {result : Except Fault Unit}
    (h : (deactivate code id).alone w = some (result, w')) :
    Spares id w w' ∧ ((w.host.find? id).isSome = true → result = .ok ()) := by
  simp only [deactivate, Flow.bind_eq, Flow.alone_pause_bind, Flow.alone_read_bind] at h
  cases hfind : w.host.find? id with
  | none =>
      rw [hfind] at h
      obtain ⟨-, rfl⟩ := Prod.mk.inj (Option.some.inj h)
      exact ⟨.refl id w, by simp⟩
  | some e =>
      simp only [hfind, inTurn, Flow.bind_eq, Flow.bind_assoc, Flow.alone_sync_bind] at h
      obtain ⟨_, w₀, hturn, h⟩ := Flow.alone_bind_eq_some h
      obtain ⟨-, rfl⟩ := Flow.alone_untilReady_eq_some hturn
      obtain ⟨_, w₁, hbody, h⟩ := Flow.alone_bind_eq_some h
      obtain ⟨rfl, rfl⟩ := Prod.mk.inj (Option.some.inj h)
      refine ⟨?_, fun _ => rfl⟩
      have hmiddle : Spares id (hostPart.zoom (fun h => h.takeTicket e.queue) w).2 w₁ := by
        cases hactive : e.isActive with
        | true =>
            exact (within_deactivateInTurn_spares (hcode e hfind hactive)).alone (Spares.refl id)
              (Spares.trans id) hbody
        | false =>
            have hqueued : (hostPart.zoom (fun h => h.takeTicket e.queue) w).2.host.find? id =
                some e := hfind
            simp only [deactivateInTurn, Flow.bind_eq, Flow.alone_pause_bind, Flow.alone_sync_bind,
              zoom_becomeInactive_of_not hqueued hactive] at hbody
            obtain ⟨-, rfl⟩ := Prod.mk.inj (Option.some.inj hbody)
            exact .refl id _
      exact ⟨hmiddle.disk, hmiddle.layout, hmiddle.others⟩

/-! ## The steps of an installation -/

/-- What is taken out of the host is not there, whatever becomes of the rest. -/
theorem unload_alone (hcode : ∀ e, w.host.find? id = some e → e.isActive = true →
    code.LeavesQuietly id) {result : Except Fault Unit}
    (h : (unload code id).alone w = some (result, w')) :
    result = .ok () ∧ Spares id w w' ∧ w'.host.find? id = none := by
  simp only [unload, Flow.bind_eq, Flow.alone_pause_bind, Flow.alone_read_bind] at h
  cases hfind : w.host.find? id with
  | none =>
      rw [hfind] at h
      obtain ⟨rfl, rfl⟩ := Prod.mk.inj (Option.some.inj h)
      exact ⟨rfl, .refl id w, hfind⟩
  | some e =>
      rw [hfind] at h
      obtain ⟨left, w₁, hdeactivate, h⟩ := Flow.alone_bind_eq_some h
      obtain ⟨hspares, hleft⟩ := deactivate_spares hcode hdeactivate
      obtain rfl := hleft (by rw [hfind]; rfl)
      simp only [Flow.alone_pause_bind, Flow.alone_sync_bind] at h
      obtain ⟨rfl, rfl⟩ := Prod.mk.inj (Option.some.inj h)
      refine ⟨rfl, ⟨hspares.disk, hspares.layout, fun other hother => ?_⟩, ?_⟩
      · refine Eq.trans ?_ (hspares.others other hother)
        exact (Table.find?_erase _ _ _).trans (if_neg hother)
      · exact (Table.find?_erase _ _ _).trans (if_pos rfl)

/-- What is taken out of the host was deactivated before. -/
theorem unload_eq_ok (h : (unload code id).alone w = some (.ok (), w')) :
    (w.host.find? id = none ∧ w' = w) ∨
      ∃ e u, w.host.find? id = some e ∧ (deactivate code id).alone w = some (.ok (), u) ∧
        w' = { u with host := u.host.forget id } := by
  simp only [unload, Flow.bind_eq, Flow.alone_pause_bind, Flow.alone_read_bind] at h
  cases hfind : w.host.find? id with
  | none =>
      rw [hfind] at h
      obtain ⟨-, rfl⟩ := Prod.mk.inj (Option.some.inj h)
      exact .inl ⟨rfl, rfl⟩
  | some e =>
      rw [hfind] at h
      obtain ⟨left, u, hdeactivate, h⟩ := Flow.alone_bind_eq_some h
      cases left with
      | error fault => cases h
      | ok _ =>
          obtain ⟨-, rfl⟩ := Prod.mk.inj (Option.some.inj h)
          exact .inr ⟨e, u, rfl, hdeactivate, rfl⟩

end World

/-- The host when the extension of a folder has been loaded, unless one of its name is. -/
def Host.loaded (disk : Disk) (path : Path) (h : Host) : Host :=
  match Manifest.ofFolder disk path with
  | .error _ => h
  | .ok m => if (h.find? m.id).isSome then h else h.add m.id path m

@[simp] theorem Host.layout_loaded (disk : Disk) (path : Path) (h : Host) :
    (h.loaded disk path).layout = h.layout := by
  rw [Host.loaded]
  split
  · rfl
  · split <;> rfl

namespace World

/-- Registers an extension, and tells of it. -/
def register (path : Path) (manifest : Manifest) (w : World χ) : World χ :=
  { w with
    host := w.host.add manifest.id path manifest
    events := w.events ++ [.extensionsChanged] }

/-- Fills in the defaults of an extension, and registers it. -/
def take (w : World χ) (copy : Path × Manifest) : World χ :=
  register copy.1 copy.2 { w with api := w.api.seed copy.2.defaults }

/-- The world when the extension of a folder has been loaded, unless one of its name is. -/
def loaded (w : World χ) (path : Path) : World χ :=
  match Manifest.ofFolder w.disk path with
  | .error _ => w
  | .ok m => if (w.host.find? m.id).isSome then w else w.take (path, m)

@[simp] theorem disk_loaded (w : World χ) (path : Path) : (w.loaded path).disk = w.disk := by
  rw [loaded]
  split
  · rfl
  · split <;> rfl

theorem host_loaded (w : World χ) (path : Path) :
    (w.loaded path).host = w.host.loaded w.disk path := by
  rw [loaded, Host.loaded]
  cases Manifest.ofFolder w.disk path with
  | error e => rfl
  | ok m => exact apply_ite World.host _ _ _

/-- What comes of loading the extension of a folder. -/
theorem load_alone_loaded (path : Path) (w : World χ) : ∃ result,
    (load path).alone w = some (result, w.loaded path) ∧
      (∀ fault, result = .error fault ↔ Manifest.ofFolder w.disk path = .error fault) ∧
      result.toOption.map Descriptor.id =
        (Manifest.ofFolder w.disk path).toOption.map Manifest.id := by
  simp only [load, Flow.bind_eq, Flow.alone_read_bind, loaded]
  cases Manifest.ofFolder w.disk path with
  | error fault => exact ⟨_, rfl, fun other => by simp, rfl⟩
  | ok m =>
      simp only [Flow.alone_pause_bind, Flow.alone_read_bind, Host.descriptor?]
      cases w.host.find? m.id with
      | some e => exact ⟨_, rfl, fun other => by simp, rfl⟩
      | none => exact ⟨_, rfl, fun other => by simp, rfl⟩

/-- An extension of which none is loaded is taken up, and shown as it is then. -/
theorem load_eq_ok {path : Path} {descriptor : Descriptor}
    (h : (load path).alone w = some (.ok descriptor, w')) :
    ∃ m, Manifest.ofFolder w.disk path = .ok m ∧ (w.host.find? m.id = none →
      w' = w.take (path, m) ∧ w'.host.descriptor? m.id = some descriptor) := by
  simp only [load, Flow.bind_eq, Flow.alone_read_bind] at h
  cases hmanifest : Manifest.ofFolder w.disk path with
  | error fault =>
      rw [hmanifest] at h
      cases h
  | ok m =>
      refine ⟨m, rfl, fun hnone => ?_⟩
      simp only [hmanifest, Flow.alone_pause_bind, Flow.alone_read_bind, Host.descriptor?, hnone,
        Option.map_none] at h
      obtain ⟨hdescriptor, rfl⟩ := Prod.mk.inj (Option.some.inj h)
      refine ⟨rfl, ?_⟩
      have hshown := w.host.descriptor?_add m.id path m
      have hbuiltin : ((w.host.add m.id path m).find? m.id).any Extension.isBuiltin =
          path.startsWith w.host.layout.bundledExtensions := by
        rw [Host.find?_add, if_pos rfl]
        rfl
      rw [← hbuiltin] at hshown
      exact hshown.trans (congrArg some (Except.ok.inj hdescriptor))

/-- Loading comes to an end, and fails only where there is no manifest. -/
theorem load_alone (path : Path) (w : World χ) : ∃ result w',
    (load path).alone w = some (result, w') ∧ w'.disk = w.disk ∧
      w'.host = w.host.loaded w.disk path ∧
      ∀ fault, result = .error fault ↔ Manifest.ofFolder w.disk path = .error fault := by
  obtain ⟨result, hload, hfault, -⟩ := load_alone_loaded path w
  exact ⟨result, w.loaded path, hload, disk_loaded w path, host_loaded w path, hfault⟩

theorem onDisk_alone (action : Disk.Action Unit) (w : World χ) : (onDisk action).alone w =
    some ((w.disk.perform action).1.mapError DiskError.fault,
      { w with disk := (w.disk.perform action).2 }) := rfl

section Replacing

variable {place : List String} {source target : Path}

/-- Something is cleared away, or it is not found, or it is said what went wrong. -/
theorem clear_leads {parts : List String} {name : String}
    (hleads : (w.disk.without (place ++ [name])).Leads (Disk.startOf target w.disk.here) parts
      place) (hparts : target.parts = parts ++ [name]) (hname : Path.IsName name)
    (hslash : target.endsInSlash = false) {result : Except Fault Unit}
    (h : (clear target).alone w = some (result, w')) :
    w' = { w with disk := w'.disk } ∧
      ((w'.disk = w.disk ∧ (result = .ok () → w.disk.checkExists target = .ok false)) ∨
        Disk.Cleared (place ++ [name]) w.disk w'.disk) := by
  simp only [clear, Flow.bind_eq, Flow.alone_pause_bind, Flow.alone_read_bind] at h
  cases hexists : w.disk.checkExists target with
  | error e =>
      rw [hexists] at h
      obtain ⟨rfl, rfl⟩ := Prod.mk.inj (Option.some.inj h)
      exact ⟨rfl, .inl ⟨rfl, fun hok => by cases hok⟩⟩
  | ok there =>
      rw [hexists] at h
      cases there with
      | false =>
          obtain ⟨-, rfl⟩ := Prod.mk.inj (Option.some.inj h)
          exact ⟨rfl, .inl ⟨rfl, fun _ => rfl⟩⟩
      | true =>
          obtain ⟨hresult, rfl⟩ := Prod.mk.inj (Option.some.inj ((onDisk_alone _ w).symm.trans h))
          refine ⟨rfl, ?_⟩
          rcases Disk.removeTree_leads hleads hparts hname hslash with ⟨e, herror⟩ | hcleared
          · rw [herror] at hresult ⊢
            exact .inl ⟨rfl, fun hok => by cases hresult.trans hok⟩
          · exact .inr hcleared

/-- Where something is cleared away, nothing is left, or it is said what went wrong. -/
theorem clear_alone (htarget : target.Plain place) (hne : place ≠ [])
    (hslash : target.endsInSlash = false) (hstraight : w.disk.Straight place)
    {result : Except Fault Unit} (h : (clear target).alone w = some (result, w')) :
    w' = { w with disk := w'.disk } ∧ Disk.Confined place w.disk w'.disk ∧
      (result = .ok () → w'.disk.Bare place) := by
  obtain ⟨folder, last, rfl⟩ := (List.eq_nil_or_concat place).resolve_left hne
  rw [List.concat_eq_append] at *
  obtain ⟨hw, ⟨hsame, hnone⟩ | hcleared⟩ := clear_leads
    (Disk.leads_of_plain (hstraight.mono (List.prefix_append _ _)) htarget) htarget.parts
    (htarget.names last (by simp)) hslash h
  · exact ⟨hw, hsame ▸ .refl _ _, fun hok =>
      hsame ▸ Disk.bare_of_checkExists htarget hslash hstraight (hnone hok)⟩
  · exact ⟨hw, hcleared.confined, fun _ => hcleared.bare⟩

/-- A folder is replaced, or it is said what went wrong on the way. -/
theorem replaceTree_alone (htarget : target.Plain place) (hne : place ≠ [])
    (hslash : target.endsInSlash = false) (hproper : w.disk.Proper)
    (hstraight : w.disk.Straight place) {result : Except Fault Unit}
    (h : (replaceTree source target).alone w = some (result, w')) :
    w' = { w with disk := w'.disk } ∧ Disk.Confined place w.disk w'.disk ∧
      (result = .ok () → ∃ d₁, Disk.Confined place w.disk d₁ ∧ d₁.Bare place ∧
        d₁.perform (Disk.copyTree source target) = (.ok (), w'.disk)) := by
  obtain ⟨cleared, w₁, hclear, h⟩ := Flow.alone_bind_eq_some h
  obtain ⟨hw₁, hconfined, hbare⟩ := clear_alone htarget hne hslash hstraight hclear
  cases cleared with
  | error fault =>
      obtain ⟨rfl, rfl⟩ := Prod.mk.inj (Option.some.inj h)
      exact ⟨hw₁, hconfined, fun h => (nomatch h)⟩
  | ok _ =>
      have hbare := hbare rfl
      simp only [Flow.bind_eq, Flow.alone_pause_bind, Flow.alone_read_bind] at h
      cases hentry : w₁.disk.entryAt source with
      | error e =>
          rw [hentry] at h
          obtain ⟨rfl, rfl⟩ := Prod.mk.inj (Option.some.inj h)
          exact ⟨hw₁, hconfined, fun h => (nomatch h)⟩
      | ok node =>
          rw [hentry] at h
          obtain ⟨hresult, rfl⟩ := Prod.mk.inj (Option.some.inj ((onDisk_alone _ w₁).symm.trans h))
          have hcopy := Disk.stays_copyTree htarget source w₁.disk (hconfined.proper hproper)
            (hbare.isOpen (hconfined.straight hstraight))
          refine ⟨?_, hconfined.trans hcopy, fun hok => ⟨w₁.disk, hconfined, hbare, ?_⟩⟩
          · rw [hw₁]
          · cases hcopied : w₁.disk.perform (Disk.copyTree source target) with
            | mk copied disk =>
                rw [hcopied, hok] at hresult
                cases copied with
                | ok _ => rfl
                | error e => cases hresult

end Replacing

end World

/-! ## Failing -/

section Failing

variable {source : Path} {place : List String}

/-- What an installation has changed that failed after the manifest was read: the extension is not
loaded any more, and its folder may have changed. -/
structure World.LosesOnly (id : String) (place : List String) (w w' : World χ) : Prop where
  unloaded : w'.host.find? id = none
  others : ∀ other, other ≠ id → w'.host.find? other = w.host.find? other
  disk : Disk.Confined place w.disk w'.disk

/-- An installation that fails changes nothing if it cannot read the manifest.  Otherwise all other
extensions stay as they are, loaded and on the disk; the one with the identifier that the manifest
gives is no longer loaded, and its folder may have changed. -/
theorem install_error_confined (hroot : w.host.layout.userExtensions.Plain place)
    (hproper : w.disk.Proper) {fault : Fault}
    (h : (World.install code source).alone w = some (.error fault, w')) :
    (Manifest.ofFolder w.disk source = .error fault ∧ w' = w) ∨
      ∃ m, Manifest.ofFolder w.disk source = .ok m ∧
        ('/' ∉ m.id.toList → w.disk.Straight (place ++ [m.id]) →
          (∀ e, w.host.find? m.id = some e → e.isActive = true → code.LeavesQuietly m.id) →
          w.LosesOnly m.id (place ++ [m.id]) w') := by
  simp only [World.install, Flow.bind_eq, Flow.alone_read_bind] at h
  cases hmanifest : Manifest.ofFolder w.disk source with
  | error e =>
      rw [hmanifest] at h
      obtain ⟨hfault, rfl⟩ := Prod.mk.inj (Option.some.inj h)
      exact .inl ⟨congrArg _ (Except.error.inj hfault), rfl⟩
  | ok m =>
      refine .inr ⟨m, rfl, fun hslash hstraight hcode => ?_⟩
      have hid := Manifest.isName_id hmanifest hslash
      simp only [hmanifest, Flow.alone_read_bind] at h
      obtain ⟨unloaded, w₁, hunload, h⟩ := Flow.alone_bind_eq_some h
      obtain ⟨rfl, hspares, hgone⟩ := World.unload_alone hcode hunload
      have htarget := hroot.join_name hid
      have hend := hid.endsInSlash_join w.host.layout.userExtensions
      simp only [Flow.alone_pause_bind, Flow.alone_read_bind] at h
      -- Whatever is done to the disk, loading fails only before it loads anything.
      have hload (w₂ : World χ) (hhost : w₂.host = w₁.host)
          (hdisk : Disk.Confined (place ++ [m.id]) w.disk w₂.disk)
          (hloaded : (World.load (w.host.layout.userExtensions.join m.id)).alone w₂ =
            some (.error fault, w')) : w.LosesOnly m.id (place ++ [m.id]) w' := by
        obtain ⟨result, w₃, hload, hsame, hkept, herror⟩ :=
          World.load_alone (w.host.layout.userExtensions.join m.id) w₂
        obtain ⟨rfl, rfl⟩ := Prod.mk.inj (Option.some.inj (hload.symm.trans hloaded))
        rw [Host.loaded, (herror fault).mp rfl, hhost] at hkept
        refine ⟨by rw [hkept]; exact hgone, fun other hother => ?_, by rw [hsame]; exact hdisk⟩
        rw [hkept]
        exact hspares.others other hother
      have hsameDisk : Disk.Confined (place ++ [m.id]) w.disk w₁.disk := hspares.disk ▸ .refl _ _
      split at h
      · exact hload w₁ rfl hsameDisk h
      · obtain ⟨replaced, w₂, hreplace, h⟩ := Flow.alone_bind_eq_some h
        obtain ⟨hw₂, hconfined, -⟩ := World.replaceTree_alone htarget (by simp) hend
          (hspares.disk ▸ hproper) (hspares.disk ▸ hstraight) hreplace
        rw [hspares.disk] at hconfined
        have hhost : w₂.host = w₁.host := by rw [hw₂]
        cases replaced with
        | ok _ => exact hload w₂ hhost hconfined h
        | error e =>
            obtain ⟨-, rfl⟩ := Prod.mk.inj (Option.some.inj h)
            refine ⟨by rw [hhost]; exact hgone, fun other hother => ?_, hconfined⟩
            rw [hhost]
            exact hspares.others other hother

/-! ## A folder inside of the one that is replaced -/

/-- The manifest of an extension. -/
def innerText : String := "\x7b\"publisher\":\"p\",\"name\":\"a\"\x7d"

/-- A disk with an installed extension, in whose folder there is another one of its identifier. -/
def innerDisk : Disk where
  root := .folder [("data", .folder [("extensions", .folder [("p.a", .folder [
    ("package.json", .file (.text innerText)),
    ("sub", .folder [("package.json", .file (.text innerText))])])])])]

/-- A host on this disk, with nothing loaded. -/
def innerWorld : World Unit where
  disk := innerDisk
  api := {}
  host := .ofDisk innerDisk (.ofDataDir ⟨"/data"⟩)
  client := { settings := ⟨30000, []⟩ }
  own := ()

/-- Where the inner folder is. -/
def innerSource : Path := ⟨"/data/extensions/p.a/sub"⟩

theorem proper_innerDisk : innerDisk.Proper := by
  have hfile : (Node.file (.text innerText)).Proper := .file _
  simp only [Disk.Proper, innerDisk, Node.proper_folder_iff, hfile, Table.Sorted, Table.keys,
    List.forall_mem_cons, List.not_mem_nil, false_imp_iff, implies_true, and_true, List.map_cons,
    List.map_nil]
  decide

/-- The extension is lost, and nothing else. -/
theorem install_error_confined_inner : ∃ (loaded : Except Fault Descriptor) (fault : Fault)
    (before after : World Unit),
    (World.load ⟨"/data/extensions/p.a"⟩).alone innerWorld = some (loaded, before) ∧
      (World.install Code.idle innerSource).alone before = some (.error fault, after) ∧
      before.LosesOnly "p.a" ["data", "extensions", "p.a"] after := by
  have hrun : (((World.load ⟨"/data/extensions/p.a"⟩).alone innerWorld).bind fun r =>
      ((World.install Code.idle innerSource).alone r.2).map fun r' => r'.1.isOk) =
      some false := by
    decide +kernel
  obtain ⟨loaded, before, hload, hdisk, hhost, -⟩ :=
    World.load_alone ⟨"/data/extensions/p.a"⟩ innerWorld
  rw [hload] at hrun
  obtain ⟨⟨result, after⟩, hinstall, hfails⟩ := Option.map_eq_some_iff.mp hrun
  have hlayout : before.host.layout = .ofDataDir ⟨"/data"⟩ := by
    rw [hhost, Host.layout_loaded]
    rfl
  have hroot : before.host.layout.userExtensions.Plain ["data", "extensions"] := by
    rw [hlayout]
    exact ⟨by decide, by decide, by decide⟩
  have hmanifest : Manifest.ofFolder innerDisk innerSource =
      .ok { publisher := "p", name := "a" } := by
    have hparse : Manifest.parse innerText = .ok { publisher := "p", name := "a" } := by cbv
    have htext : (innerDisk.readText (innerSource.join Manifest.fileName)).toOption =
        some innerText := by
      decide +kernel
    exact Manifest.ofFolder_eq_of_readText htext hparse
  cases result with
  | ok _ => cases hfails
  | error fault =>
      rcases install_error_confined hroot (hdisk ▸ proper_innerDisk) hinstall with
        ⟨herror, -⟩ | ⟨m, hm, hloses⟩
      · rw [hdisk] at herror
        cases hmanifest.symm.trans herror
      · rw [hdisk] at hm hloses
        obtain rfl := Except.ok.inj (hmanifest.symm.trans hm)
        have hfolder : innerDisk.faceAt ["data", "extensions", "p.a"] = some .folder := by decide
        exact ⟨loaded, fault, before, after, hload, hinstall, hloses (by decide)
          (Disk.straight_of_folder hfolder) fun _ _ _ => Code.leavesQuietly_idle _⟩

/-- Whether the extension is loaded, and what its manifest is. -/
def World.innerState (w : World Unit) : Bool × Option Face :=
  ((w.host.find? "p.a").isSome, w.disk.faceAt ["data", "extensions", "p.a", "package.json"])

/-- What comes of loading the extension, and of installing it from the inner folder then: whether
each succeeds, and what is there behind it. -/
def innerInstall : Option (List (Bool × Bool × Option Face)) := do
  let (loaded, w) ← (World.load ⟨"/data/extensions/p.a"⟩).alone innerWorld
  let (installed, w') ← (World.install Code.idle innerSource).alone w
  return [(loaded.isOk, w.innerState), (installed.isOk, w'.innerState)]

/-- The installation fails, since the folder that it copies is removed with the one that it
replaces; the extension is neither loaded any more nor is its manifest left. -/
theorem install_inner_loses : innerInstall =
    some [(true, true, some (.file (.text innerText))), (false, false, none)] := by
  decide +kernel

end Failing

end EditorHost
