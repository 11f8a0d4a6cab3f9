import EditorHost.Proofs.Extension.Packages
import EditorHost.Proofs.Extension.Replacement

/-!
# Installing and uninstalling with success

What an installation leaves that succeeds is the copy of the package in the folder of its name, and
the record of it in the host.  An uninstallation that succeeds takes the record away, and the folder
if it lies below the user's root.  Nothing else becomes different, as long as no extension is
active.

## Contents

* `World.install_alone` and `World.uninstall_alone`: what the calls leave.
-/

namespace EditorHost

open Disk (Confined)

variable {χ : Type} {code : Code χ} {w w' : World χ} {user : List String}
  {id : String} {m : Manifest}

/-- No loaded extension is active. -/
def Host.Inactive (h : Host) : Prop := ∀ id e, h.find? id = some e → e.isActive = false

theorem Host.inactive_ofDisk (disk : Disk) (layout : Layout) : (ofDisk disk layout).Inactive := by
  intro id e he
  cases he

theorem Host.Inactive.loaded {h : Host} (hinactive : h.Inactive) (disk : Disk) (path : Path) :
    (h.loaded disk path).Inactive := by
  intro id e he
  rw [Host.loaded] at he
  split at he
  · exact hinactive id e he
  next own _ =>
    split at he
    · exact hinactive id e he
    · rw [Host.find?_add] at he
      split at he
      · cases he
        rfl
      · exact hinactive id e he

theorem Host.Inactive.discovered {h : Host} (hinactive : h.Inactive) (disk : Disk) :
    (h.discovered disk).Inactive := by
  rw [Host.discovered]
  generalize Discovery.packages disk h.layout.userExtensions ++
    Discovery.packages disk h.layout.bundledExtensions = paths
  induction paths generalizing h with
  | nil => exact hinactive
  | cons path rest ih => exact ih (hinactive.loaded disk path)

/-- What does not run need not be told to leave. -/
theorem Host.Inactive.leavesQuietly {h : Host} (hinactive : h.Inactive) (e : Extension)
    (he : h.find? id = some e) (hactive : e.isActive = true) : code.LeavesQuietly id := by
  rw [hinactive id e he] at hactive
  cases hactive

namespace World

section Installing

variable {source : Path}

/-- What an installation leaves. -/
structure Installed (user : List String) (m : Manifest) (w w' : World χ) : Prop where
  layout : w'.host.layout = w.host.layout
  inactive : w'.host.Inactive
  disk : Confined (user ++ [m.id]) w.disk w'.disk
  package : Manifest.ofFolder w'.disk (w.host.layout.userExtensions.join m.id) = .ok m
  loaded : w'.host.source? m.id = some (w.host.layout.userExtensions.join m.id, m)
  others : ∀ other, other ≠ m.id → w'.host.source? other = w.host.source? other

/-- What has been installed is there, and nothing else changed.  The manifest of what is installed
can be read while the user's root is away. -/
theorem install_alone (hroot : w.host.layout.userExtensions.Plain user) (hne : user ≠ [])
    (ho : w.disk.Orderly user) (hinactive : w.host.Inactive)
    (hsource : Manifest.ofFolder (w.disk.without user) source = .ok m)
    (hslash : '/' ∉ m.id.toList) {descriptor : Descriptor}
    (h : (install code source).alone w = some (.ok descriptor, w')) :
    Installed user m w w' := by
  have haway : Confined user w.disk (w.disk.without (user ++ [m.id])) :=
    Disk.confined_without (by simp) (List.prefix_append _ _)
  obtain ⟨v, -, hspares, -, hw', -, hpackage, hdisk⟩ :=
    install_eq_ok ho.proper hslash ((Confined.refl user w.disk).ofFolder hne hsource)
      (fun _ => haway.ofFolder hne hsource) ((haway.straight ho.straight).leads_plain hroot)
      hinactive.leavesQuietly h
  have hhost : w'.host = v.host.add m.id (w.ownFolder m.id) m := congrArg World.host hw'
  have hothers (other : String) (hother : other ≠ m.id) :
      w'.host.find? other = w.host.find? other := by
    rw [hhost, Host.find?_add, if_neg hother, hspares.others other hother]
  refine ⟨hhost ▸ hspares.layout, fun other e he => ?_, ?_, hpackage, ?_, fun other hother => ?_⟩
  · by_cases hother : other = m.id
    · rw [hhost, Host.find?_add, if_pos hother] at he
      cases he
      rfl
    · exact hinactive other e (hothers other hother ▸ he)
  · split at hdisk
    · exact hdisk ▸ .refl _ _
    · exact hdisk.confined
  · rw [Host.source?, hhost, Host.find?_add, if_pos rfl]
    rfl
  · rw [Host.source?, hothers other hother, Host.source?]

end Installing

section Uninstalling

variable {disabled : List String}

/-- What is saved reaches no farther than its file. -/
theorem save_alone {file : Path} {content : String} (hfile : file.Plain disabled)
    (hproper : w.disk.Proper) (hopen : w.disk.Open disabled) {result : Except Fault Unit}
    (h : (save file content).alone w = some (result, w')) :
    Confined disabled w.disk w'.disk ∧ w'.host = w.host := by
  have hfolders : Disk.Stays disabled (file.folder?.forM Disk.createFolders) := by
    rcases List.eq_nil_or_concat disabled with rfl | ⟨above, last, rfl⟩
    · rw [hfile.folder?_nil]
      exact Disk.stays_pure _
    · rw [List.concat_eq_append] at hfile ⊢
      obtain ⟨folder, hfolder, hplain⟩ := hfile.exists_folder
      rw [hfolder]
      exact Disk.stays_createFolders hplain (.inl (List.prefix_append _ _))
  have hfirst := hfolders w.disk hproper hopen
  simp only [save, Flow.bind_eq, Flow.alone_pause_bind] at h
  obtain ⟨made, w₁, hmade, h⟩ := Flow.alone_bind_eq_some h
  obtain ⟨-, rfl⟩ := Prod.mk.inj (Option.some.inj ((onDisk_alone _ w).symm.trans hmade))
  cases made with
  | error fault =>
      obtain ⟨-, rfl⟩ := Prod.mk.inj (Option.some.inj h)
      exact ⟨hfirst, rfl⟩
  | ok _ =>
      obtain ⟨-, rfl⟩ := Prod.mk.inj (Option.some.inj ((onDisk_alone _ _).symm.trans h))
      have hwrite := Disk.stays_writeFile hfile (List.prefix_refl _) (.text content) _
        (hfirst.proper hproper) (hfirst.isOpen hopen)
      exact ⟨hfirst.trans hwrite, rfl⟩

/-- What taking an extension out of the set of disabled ones leaves. -/
theorem setDisabled_alone (hfile : w.host.layout.disabledFile.Plain disabled)
    (hproper : w.disk.Proper) (hopen : w.disk.Open disabled) {disable : Bool}
    {result : Except Fault Unit}
    (h : (setDisabled id disable).alone w = some (result, w')) :
    Confined disabled w.disk w'.disk ∧ w'.host.layout = w.host.layout ∧
      w'.host.extensions = w.host.extensions := by
  have hlayout := Host.layout_mark w.host id disable
  have hextensions := Host.extensions_mark w.host id disable
  have hget : hostPart.get w = w.host := rfl
  simp only [setDisabled, Flow.bind_eq, Flow.alone_pause_bind, Flow.alone_sync_bind, Focus.zoom,
    hget] at h
  generalize w.host.mark id disable = marking at h hlayout hextensions
  obtain ⟨changed, marked⟩ := marking
  dsimp only at h hlayout hextensions
  cases changed with
  | false =>
      obtain ⟨-, rfl⟩ := Prod.mk.inj (Option.some.inj h)
      exact ⟨.refl _ _, hlayout, hextensions⟩
  | true =>
      obtain ⟨saved, w₁, hsave, h⟩ := Flow.alone_bind_eq_some h
      obtain ⟨hdisk, hhost⟩ :=
        save_alone (w := hostPart.set marked w) (hlayout ▸ hfile) hproper hopen hsave
      have hend : w'.disk = w₁.disk ∧ w'.host = w₁.host := by
        cases saved <;> obtain ⟨-, rfl⟩ := Prod.mk.inj (Option.some.inj h) <;> exact ⟨rfl, rfl⟩
      rw [hend.1, hend.2, hhost]
      exact ⟨hdisk, hlayout, hextensions⟩

/-- What is deleted lies below the user's root. -/
theorem deletePackage_alone {path : Path} (h : (deletePackage path).alone w = some (.ok (), w')) :
    w'.host = w.host ∧
      if path.startsWith w.host.layout.userExtensions = true then
        w.disk.perform (Disk.removeTree path) = (.ok (), w'.disk)
      else w'.disk = w.disk := by
  simp only [deletePackage, Flow.bind_eq, Flow.alone_pause_bind, Flow.alone_read_bind] at h
  split at h
  next hbelow =>
    obtain ⟨hresult, rfl⟩ := Prod.mk.inj (Option.some.inj ((onDisk_alone _ w).symm.trans h))
    refine ⟨rfl, (if_pos hbelow).mpr ?_⟩
    cases hremoved : w.disk.perform (Disk.removeTree path) with
    | mk removed disk =>
        rw [hremoved] at hresult
        cases removed with
        | ok _ => rfl
        | error e => cases hresult
  next hbelow =>
    obtain ⟨-, rfl⟩ := Prod.mk.inj (Option.some.inj h)
    exact ⟨rfl, (if_neg hbelow).mpr rfl⟩

/-- What is left when an extension has been uninstalled. -/
structure Uninstalled (disabled : List String) (id : String) (w w' : World χ) : Prop where
  layout : w'.host.layout = w.host.layout
  gone : w'.host.find? id = none
  others : ∀ other, other ≠ id → w'.host.find? other = w.host.find? other
  disk : ∃ e d, w.host.find? id = some e ∧ Confined disabled w.disk d ∧
    if e.path.startsWith w.host.layout.userExtensions = true then
      d.perform (Disk.removeTree e.path) = (.ok (), w'.disk)
    else w'.disk = d

theorem uninstall_alone (hfile : w.host.layout.disabledFile.Plain disabled)
    (hproper : w.disk.Proper) (hopen : w.disk.Open disabled) (hinactive : w.host.Inactive)
    (h : (uninstall code id).alone w = some (.ok (), w')) : Uninstalled disabled id w w' := by
  simp only [uninstall, Flow.bind_eq, Flow.alone_pause_bind, Flow.alone_read_bind] at h
  cases hfind : w.host.find? id with
  | none =>
      rw [hfind] at h
      cases h
  | some e =>
      simp only [hfind] at h
      split at h
      · cases h
      obtain ⟨left, w₁, hdeactivate, h⟩ := Flow.alone_bind_eq_some h
      obtain ⟨hspares, hleft⟩ := deactivate_spares hinactive.leavesQuietly hdeactivate
      obtain rfl := hleft (by rw [hfind]; rfl)
      simp only [Flow.alone_pause_bind, Flow.alone_sync_bind] at h
      obtain ⟨enabled, w₂, henable, h⟩ := Flow.alone_bind_eq_some h
      cases enabled with
      | error fault => cases h
      | ok _ =>
          obtain ⟨deleted, w₃, hdelete, h⟩ := Flow.alone_bind_eq_some h
          cases deleted with
          | error fault => cases h
          | ok _ =>
              have hend : w'.disk = w₃.disk ∧ w'.host = w₃.host := by
                obtain ⟨-, rfl⟩ := Prod.mk.inj (Option.some.inj h)
                exact ⟨rfl, rfl⟩
              obtain ⟨hfileOnly, hlayout, hextensions⟩ :=
                setDisabled_alone (w := (hostPart.zoom (fun h => ((), h.forget id)) w₁).2)
                  (hspares.layout ▸ hfile) (hspares.disk ▸ hproper) (hspares.disk ▸ hopen) henable
              obtain ⟨hhost, hremoved⟩ := deletePackage_alone hdelete
              have hfinds (other : String) : w'.host.find? other =
                  if other = id then none else w₁.host.find? other := by
                rw [hend.2, hhost, Host.find?, hextensions]
                exact Table.find?_erase w₁.host.extensions id other
              refine ⟨?_, (hfinds id).trans (if_pos rfl), fun other hother => ?_, ?_⟩
              · rw [hend.2, hhost, hlayout]
                exact hspares.layout
              · rw [hfinds, if_neg hother, hspares.others other hother]
              · refine ⟨e, w₂.disk, hfind, hspares.disk ▸ hfileOnly, ?_⟩
                rw [hend.1, ← hspares.layout]
                rw [hlayout] at hremoved
                exact hremoved

end Uninstalling

end World

end EditorHost
