import EditorHost.Proofs.CommandLine.Sessions
import EditorHost.Proofs.Disk.Replacing

/-!
# What commands leave in a data directory

The set of disabled extensions is a file, which stands beside the folders that installing and
uninstalling change.  A command that does what it was asked to makes of the set what it asks for, and
any other one leaves it as it was (`CommandLine.perform_stored`).

## Contents

* `Disk.Tidy`: a data directory from which no link leads elsewhere.
* `World.install_confined`, `World.setDisabled_stored` and `World.uninstall_error`: what the calls
  leave, and why they fail.
* `World.Opened`: a host that has discovered what there is in a data directory.
* `CommandLine.Command.request?`: what a command asks of the set.
-/

namespace EditorHost

open Disk (Confined)
open EditorHost.Path (IsName)

variable {χ : Type} {code : Code χ} {w w' : World χ} {d d' : Disk} {base : List String}
  {dataDir : Path} {id : String}

/-! ## The data directory -/

/-- A data directory where no link stands on the way to the folder of the installed extensions or to
the file of the disabled ones. -/
structure Disk.Tidy (d : Disk) (base : List String) : Prop where
  proper : d.Proper
  root : d.Straight (base ++ ["extensions"])
  file : d.Open (base ++ ["disabled-extensions.json"])

theorem Disk.Confined.tidy {place : List String} (h : Confined place d d') (ht : d.Tidy base) :
    d'.Tidy base :=
  ⟨h.proper ht.proper, h.straight ht.root, h.isOpen ht.file⟩

namespace Layout

theorem plain_userExtensions (hdata : dataDir.Plain base) :
    (ofDataDir dataDir).userExtensions.Plain (base ++ ["extensions"]) :=
  hdata.join_name (show IsName "extensions" by decide)

theorem plain_disabledFile (hdata : dataDir.Plain base) :
    (ofDataDir dataDir).disabledFile.Plain (base ++ ["disabled-extensions.json"]) :=
  hdata.join_name (show IsName "disabled-extensions.json" by decide)

/-- What lies below the folder of installed extensions lies aside of the file. -/
theorem aside_disabledFile (base rest : List String) :
    ¬ base ++ ["extensions"] ++ rest <+: base ++ ["disabled-extensions.json"] ∧
      ¬ base ++ ["disabled-extensions.json"] <+: base ++ ["extensions"] ++ rest := by
  have hne : "extensions" ≠ "disabled-extensions.json" := by decide
  rw [List.append_assoc, List.singleton_append]
  exact ⟨Disk.not_prefix_of_ne hne rest [], Disk.not_prefix_of_ne hne.symm [] rest⟩

end Layout

/-! ## What the calls leave -/

namespace World

/-- An installation changes nothing but the folder of the name that the manifest gives. -/
theorem install_confined {place : List String} {source : Path}
    (hroot : w.host.layout.userExtensions.Plain place) (hproper : w.disk.Proper)
    (hstraight : w.disk.Straight place) (hinactive : w.host.Inactive)
    (hnamed : ∀ m, Manifest.ofFolder w.disk source = .ok m → '/' ∉ m.id.toList)
    {result : Except Fault Descriptor} (h : (install code source).alone w = some (result, w')) :
    ∃ name, Confined (place ++ [name]) w.disk w'.disk := by
  simp only [install, Flow.bind_eq, Flow.alone_read_bind] at h
  cases hmanifest : Manifest.ofFolder w.disk source with
  | error fault =>
      rw [hmanifest] at h
      obtain ⟨-, rfl⟩ := Prod.mk.inj (Option.some.inj h)
      exact ⟨"", .refl _ _⟩
  | ok m =>
      refine ⟨m.id, ?_⟩
      have hid := Manifest.isName_id hmanifest (hnamed m hmanifest)
      simp only [hmanifest, Flow.alone_read_bind] at h
      obtain ⟨unloaded, w₁, hunload, h⟩ := Flow.alone_bind_eq_some h
      obtain ⟨rfl, hspares, -⟩ := unload_alone hinactive.leavesQuietly hunload
      simp only [Flow.alone_pause_bind, Flow.alone_read_bind] at h
      -- Loading what has been installed does not change the disk.
      have hload {w₂ : World χ} (hdisk : Confined (place ++ [m.id]) w.disk w₂.disk)
          (h : (load (w.host.layout.userExtensions.join m.id)).alone w₂ = some (result, w')) :
          Confined (place ++ [m.id]) w.disk w'.disk := by
        obtain ⟨loaded, w₃, hloaded, hsame, -⟩ :=
          load_alone (w.host.layout.userExtensions.join m.id) w₂
        obtain ⟨-, rfl⟩ := Prod.mk.inj (Option.some.inj (hloaded.symm.trans h))
        rw [hsame]
        exact hdisk
      split at h
      · exact hload (hspares.disk ▸ .refl _ _) h
      · obtain ⟨replaced, w₂, hreplace, h⟩ := Flow.alone_bind_eq_some h
        have hconfined := replaceTree_confined (hroot.join_name hid) (hid.endsInSlash_join _)
          (hspares.disk ▸ hproper) (hspares.disk ▸ hstraight) hreplace
        rw [hspares.disk] at hconfined
        cases replaced with
        | error fault =>
            obtain ⟨-, rfl⟩ := Prod.mk.inj (Option.some.inj h)
            exact hconfined
        | ok _ => exact hload hconfined h

/-- Where the sets agree, what is stored behind a call is what it asked for, if it succeeded. -/
theorem setDisabled_stored {place : List String} (hkeeps : w.KeepsDisabled place)
    (hagree : w.disabledSets.Agree) {disabled : Bool} {result : Except Fault Unit}
    (h : (setDisabled id disabled).alone w = some (result, w')) :
    w'.disabledSets.stored = if result.isOk then Host.marked w.disabledSets.stored id disabled
      else w.disabledSets.stored := by
  obtain ⟨-, -, hafter, hsame⟩ := setDisabled_disabledSets hkeeps h
  by_cases hmember : w.host.isDisabled id = disabled
  · obtain ⟨rfl, rfl⟩ := hsame hmember
    refine Eq.trans ?_ (if_pos rfl).symm
    rw [hagree]
    exact (Host.marked_of_same hkeeps.sorted hmember).symm
  · have hsets : w'.disabledSets =
        { memory := Host.marked w.host.disabled id disabled,
          stored := if result.isOk then Host.marked w.host.disabled id disabled
            else w.disabledSets.stored } := hafter.trans (if_neg hmember)
    rw [hsets, hagree]
    rfl

/-- What fails on the disk is a fault of the disk. -/
theorem error_of_onDisk {result : Except DiskError Unit} {fault : Fault}
    (h : result.mapError DiskError.fault = .error fault) : ∃ reason, fault = .io reason := by
  cases result with
  | ok _ => cases h
  | error e =>
      cases h
      exact ⟨e.message, rfl⟩

/-- Only the disk can keep a call from succeeding. -/
theorem setDisabled_error {disabled : Bool} {fault : Fault}
    (h : (setDisabled id disabled).alone w = some (.error fault, w')) :
    ∃ reason, fault = .io reason := by
  simp only [setDisabled, Flow.bind_eq, Flow.alone_pause_bind, Flow.alone_sync_bind] at h
  split at h
  · cases h
  obtain ⟨saved, w₁, hsave, h⟩ := Flow.alone_bind_eq_some h
  cases saved with
  | ok _ => cases h
  | error other =>
      obtain ⟨heq, -⟩ := Prod.mk.inj (Option.some.inj h)
      obtain rfl := Except.error.inj heq
      simp only [save, Flow.bind_eq, Flow.alone_pause_bind] at hsave
      obtain ⟨made, w₂, hmade, hsave⟩ := Flow.alone_bind_eq_some hsave
      obtain ⟨hmade, -⟩ := Prod.mk.inj (Option.some.inj ((onDisk_alone _ _).symm.trans hmade))
      cases made with
      | error fault =>
          obtain ⟨heq, -⟩ := Prod.mk.inj (Option.some.inj hsave)
          exact error_of_onDisk (hmade.trans heq)
      | ok _ =>
          obtain ⟨hwritten, -⟩ :=
            Prod.mk.inj (Option.some.inj ((onDisk_alone _ _).symm.trans hsave))
          exact error_of_onDisk hwritten

end World

/-! ## Hosts that have discovered what there is -/

namespace Host

variable {l : Layout}

theorem layout_discovered (h : Host) : (h.discovered d).layout = h.layout := by
  rw [discovered, layout_foldl_loaded]

/-- A discovery does not reach the set of disabled extensions. -/
theorem disabled_discovered : ((ofDisk d l).discovered d).disabled =
    readDisabled d l.disabledFile :=
  discovered_induction (P := fun h => h.disabled = readDisabled d l.disabledFile) rfl
    fun _ _ _ hbefore _ _ => hbefore

theorem sorted_discovered : ((ofDisk d l).discovered d).extensions.Sorted :=
  discovered_induction (P := fun h => h.extensions.Sorted) Table.sorted_nil
    fun _ _ _ hbefore _ _ => hbefore.insert _ _

/-- What is listed has been found below one of the roots, and came with the application if that is
where its path leads. -/
theorem find?_discovered {e : Extension} (h : ((ofDisk d l).discovered d).find? id = some e) :
    (e.path ∈ Discovery.packages d l.userExtensions ∨
      e.path ∈ Discovery.packages d l.bundledExtensions) ∧
        e.isBuiltin = e.path.startsWith l.bundledExtensions := by
  have hall : ((ofDisk d l).discovered d).layout = l ∧
      ∀ other e, ((ofDisk d l).discovered d).find? other = some e →
        (e.path ∈ Discovery.packages d l.userExtensions ∨
          e.path ∈ Discovery.packages d l.bundledExtensions) ∧
            e.isBuiltin = e.path.startsWith l.bundledExtensions := by
    refine discovered_induction (P := fun h => h.layout = l ∧ ∀ other e, h.find? other = some e →
      (e.path ∈ Discovery.packages d l.userExtensions ∨
        e.path ∈ Discovery.packages d l.bundledExtensions) ∧
          e.isBuiltin = e.path.startsWith l.bundledExtensions) ⟨rfl, nofun⟩
      fun before path m hbefore hpath _ => ⟨hbefore.1, fun other e he => ?_⟩
    rw [find?_add] at he
    split at he
    · cases he
      exact ⟨List.mem_append.mp hpath, by rw [hbefore.1]⟩
    · exact hbefore.2 other e he
  exact hall.2 id e h

end Host

namespace World

/-- What a session starts from: a host that has discovered what there is in a data directory. -/
structure Opened (l : Layout) (d : Disk) (w : World χ) : Prop where
  disk : w.disk = d
  host : w.host = (Host.ofDisk d l).discovered d

namespace Opened

variable {l : Layout} (h : Opened l d w)

include h

theorem layout : w.host.layout = l := by
  rw [h.host, Host.layout_discovered]
  rfl

theorem inactive : w.host.Inactive := by
  rw [h.host]
  exact (Host.inactive_ofDisk d l).discovered d

theorem disabled : w.host.disabled = Host.readDisabled d l.disabledFile := by
  rw [h.host, Host.disabled_discovered]

theorem stored : w.disabledSets.stored = Host.readDisabled d l.disabledFile := by
  rw [World.disabledSets, h.layout, h.disk]
  rfl

theorem agree : w.disabledSets.Agree := h.stored.trans h.disabled.symm

theorem keepsDisabled {place : List String} (hfile : l.disabledFile.Plain place)
    (hslash : l.disabledFile.endsInSlash = false) (hstraight : d.Straight place) :
    w.KeepsDisabled place where
  file := h.layout ▸ hfile
  slash := h.layout ▸ hslash
  straight := h.disk ▸ hstraight
  sorted := h.disabled ▸ Host.pairwise_readDisabled d l.disabledFile

end Opened

/-- An uninstallation that fails has changed nothing, unless the disk kept it from succeeding. -/
theorem uninstall_error (hinactive : w.host.Inactive) {fault : Fault}
    (h : (uninstall code id).alone w = some (.error fault, w')) :
    (∃ reason, fault = .io reason) ∨ w' = w := by
  simp only [uninstall, Flow.bind_eq, Flow.alone_pause_bind, Flow.alone_read_bind] at h
  cases hfind : w.host.find? id with
  | none =>
      rw [hfind] at h
      obtain ⟨-, rfl⟩ := Prod.mk.inj (Option.some.inj h)
      exact .inr rfl
  | some e =>
      simp only [hfind] at h
      split at h
      · obtain ⟨-, rfl⟩ := Prod.mk.inj (Option.some.inj h)
        exact .inr rfl
      obtain ⟨left, w₁, hdeactivate, h⟩ := Flow.alone_bind_eq_some h
      obtain rfl := (deactivate_spares hinactive.leavesQuietly hdeactivate).2 (by rw [hfind]; rfl)
      simp only [Flow.alone_pause_bind, Flow.alone_sync_bind] at h
      obtain ⟨enabled, w₂, henable, h⟩ := Flow.alone_bind_eq_some h
      cases enabled with
      | error other =>
          obtain ⟨heq, -⟩ := Prod.mk.inj (Option.some.inj h)
          obtain rfl := Except.error.inj heq
          exact .inl (setDisabled_error henable)
      | ok _ =>
          obtain ⟨deleted, w₃, hdelete, h⟩ := Flow.alone_bind_eq_some h
          cases deleted with
          | ok _ => cases h
          | error other =>
              obtain ⟨heq, -⟩ := Prod.mk.inj (Option.some.inj h)
              obtain rfl := Except.error.inj heq
              simp only [deletePackage, Flow.bind_eq, Flow.alone_pause_bind,
                Flow.alone_read_bind] at hdelete
              split at hdelete
              · obtain ⟨hremoved, -⟩ :=
                  Prod.mk.inj (Option.some.inj ((onDisk_alone _ _).symm.trans hdelete))
                exact .inl (error_of_onDisk hremoved)
              · cases hdelete

/-- A bundled extension is not uninstalled. -/
theorem not_isBuiltin_of_uninstall {e : Extension} (hfind : w.host.find? id = some e)
    (h : (uninstall code id).alone w = some (.ok (), w')) : e.isBuiltin = false := by
  rw [Bool.eq_false_iff]
  intro hbuiltin
  simp only [uninstall, Flow.bind_eq, Flow.alone_pause_bind, Flow.alone_read_bind, hfind,
    hbuiltin, if_true] at h
  cases h

namespace Opened

variable {l : Layout} {place disabled : List String} (hopened : Opened l d w)
  (hroot : l.userExtensions.Plain place) (hslash : l.userExtensions.endsInSlash = false)
  (hproper : d.Proper) (hstraight : d.Straight place)

include hopened hroot hslash hproper hstraight

/-- Where an extension lies that did not come with the application. -/
theorem exists_names {e : Extension} (hfind : w.host.find? id = some e)
    (hbuiltin : e.isBuiltin = false) : ∃ names, names ≠ [] ∧ (∀ name ∈ names, IsName name) ∧
      e.path = l.userExtensions.descend names ∧ d.Straight (place ++ names) := by
  rw [hopened.host] at hfind
  obtain ⟨hpath, hstarts⟩ := Host.find?_discovered hfind
  rcases hpath with huser | hbundled
  · obtain ⟨names, hfound, hnames⟩ :=
      (Discovery.mem_packages hproper hroot hslash hstraight).mp huser
    exact ⟨names, hfound.ne, hfound.isName hproper, hnames, Disk.straight_of_folder hfound.folder⟩
  · rw [hstarts, Discovery.startsWith_of_mem_packages hproper hbundled] at hbuiltin
    cases hbuiltin

/-- What is deleted when an extension is uninstalled lies aside of what does not lie below the
user's root. -/
theorem packageAside (hbeside : ∀ rest, ¬ place ++ rest <+: disabled ∧ ¬ disabled <+: place ++ rest)
    {e : Extension} (hfind : w.host.find? id = some e) (hbuiltin : e.isBuiltin = false) :
    PackageAside disabled e.path w := by
  obtain ⟨names, hne, hnames, hpath, hway⟩ :=
    hopened.exists_names hroot hslash hproper hstraight hfind hbuiltin
  exact fun _ => ⟨place ++ names, by simp [hne], hpath ▸ hroot.descend hnames,
    hpath ▸ Path.endsInSlash_descend hne hnames, hopened.disk ▸ hway, hbeside names⟩

end Opened

end World

/-! ## One run -/

namespace CommandLine

/-- What a command asks of the set of disabled extensions: to put one in, or to take one out. -/
def Command.request? : Command → Option (String × Bool)
  | .disable id => some (id, true)
  | .enable id | .uninstall id => some (id, false)
  | .list | .install _ => none

/-- The set with some requests met, one after another. -/
def met (disabled : List String) (requests : List (String × Bool)) : List String :=
  requests.foldl (fun set request => Host.marked set request.1 request.2) disabled

variable {s : Surroundings} {options : Options} {l : Layout} {command : Command}

/-- Whatever options there are, the layout is that of its data directory, but for the bundled
extensions. -/
theorem Options.exists_withBundled (h : options.layout s = .ok l) :
    ∃ bundled, l = (Layout.ofDataDir l.dataDir).withBundled bundled := by
  cases hbundled : options.bundledDir <;> rw [Options.layout, hbundled] at h <;> split at h
  case h_3 | h_3 => cases h
  all_goals
    obtain rfl := Except.ok.inj h
    exact ⟨_, rfl⟩

section Performing

variable (hdata : l.dataDir.Plain base)
  (hl : ∃ bundled, l = (Layout.ofDataDir l.dataDir).withBundled bundled) (ht : d.Tidy base)
  (hopened : World.Opened l d w)

include hdata hl ht hopened

omit ht hopened in
theorem plain_disabledFile : l.disabledFile.Plain (base ++ ["disabled-extensions.json"]) ∧
    l.disabledFile.endsInSlash = false := by
  obtain ⟨bundled, hl⟩ := hl
  rw [hl]
  exact ⟨Layout.plain_disabledFile hdata,
    (show IsName "disabled-extensions.json" by decide).endsInSlash_join _⟩

omit ht hopened in
theorem plain_userExtensions : l.userExtensions.Plain (base ++ ["extensions"]) ∧
    l.userExtensions.endsInSlash = false := by
  obtain ⟨bundled, hl⟩ := hl
  rw [hl]
  exact ⟨Layout.plain_userExtensions hdata,
    (show IsName "extensions" by decide).endsInSlash_join _⟩

theorem keepsDisabled_opened : w.KeepsDisabled (base ++ ["disabled-extensions.json"]) := by
  obtain ⟨hfile, hslash⟩ := plain_disabledFile hdata hl
  exact hopened.keepsDisabled hfile hslash (ht.file.straight (.inl (List.prefix_refl _)))

/-- An installation leaves the set as it was. -/
theorem install_stored {source : Path}
    (hnamed : ∀ m, Manifest.ofFolder d source = .ok m → '/' ∉ m.id.toList)
    {result : Except Fault Descriptor}
    (h : (World.install code source).alone w = some (result, w')) :
    w'.disk.Tidy base ∧
      Host.readDisabled w'.disk l.disabledFile = Host.readDisabled d l.disabledFile := by
  obtain ⟨hfile, hslash⟩ := plain_disabledFile hdata hl
  obtain ⟨name, hconfined⟩ := World.install_confined
    (hopened.layout ▸ (plain_userExtensions hdata hl).1) (hopened.disk ▸ ht.proper)
    (hopened.disk ▸ ht.root) hopened.inactive (hopened.disk ▸ hnamed) h
  rw [hopened.disk] at hconfined
  obtain ⟨hbelow, habove⟩ := Layout.aside_disabledFile base [name]
  exact ⟨hconfined.tidy ht, Host.readDisabled_congr
    ((hconfined.spares hbelow habove).readText_eq_ok_iff hfile hslash
      (ht.file.straight (.inl (List.prefix_refl _))))⟩

/-- Disabling and enabling change the set as they are to, unless they fail. -/
theorem setDisabled_stored {disabled : Bool} {result : Except Fault Unit}
    (h : (World.setDisabled id disabled).alone w = some (result, w')) :
    w'.disk.Tidy base ∧ Host.readDisabled w'.disk l.disabledFile =
      if result.isOk then Host.marked (Host.readDisabled d l.disabledFile) id disabled
      else Host.readDisabled d l.disabledFile := by
  obtain ⟨hconfined, hlayout, -⟩ := World.setDisabled_alone
    (hopened.layout ▸ (plain_disabledFile hdata hl).1) (hopened.disk ▸ ht.proper)
    (hopened.disk ▸ ht.file) h
  have hstored := World.setDisabled_stored (keepsDisabled_opened hdata hl ht hopened)
    hopened.agree h
  rw [hopened.stored, World.disabledSets, hlayout, hopened.layout] at hstored
  rw [hopened.disk] at hconfined
  exact ⟨hconfined.tidy ht, hstored⟩

/-- So does uninstalling. -/
theorem uninstall_stored (h : (World.uninstall Code.idle id).alone w = some (.ok (), w')) :
    w'.disk.Tidy base ∧ Host.readDisabled w'.disk l.disabledFile =
      Host.marked (Host.readDisabled d l.disabledFile) id false := by
  obtain ⟨hroot, hslash⟩ := plain_userExtensions hdata hl
  have hfile := hopened.layout ▸ (plain_disabledFile hdata hl).1
  have hkeeps := keepsDisabled_opened hdata hl ht hopened
  have hbuiltin (e : Extension) (hfind : w.host.find? id = some e) : e.isBuiltin = false :=
    World.not_isBuiltin_of_uninstall hfind h
  constructor
  · obtain ⟨-, -, -, e, d₁, hfind, hfirst, hremoved⟩ := World.uninstall_alone hfile
      (hopened.disk ▸ ht.proper) (hopened.disk ▸ ht.file) hopened.inactive h
    rw [hopened.disk] at hfirst
    have ht₁ := hfirst.tidy ht
    split at hremoved
    · obtain ⟨names, hne, hnames, hpath, hway⟩ := hopened.exists_names hroot hslash ht.proper
        ht.root hfind (hbuiltin e hfind)
      rcases Disk.removeTree_plain (hpath ▸ hroot.descend hnames) (by simp)
          (hpath ▸ Path.endsInSlash_descend hne hnames) (hfirst.straight hway) with
        ⟨error, hfailed⟩ | ⟨hconfined, -⟩
      · rw [hfailed] at hremoved
        cases hremoved
      · rw [hremoved] at hconfined
        exact hconfined.tidy ht₁
    · exact hremoved ▸ ht₁
  · rcases World.uninstall_disabled Code.leavesDisabled_idle hkeeps (fun e hfind =>
        hopened.packageAside hroot hslash ht.proper ht.root (Layout.aside_disabledFile base)
          hfind (hbuiltin e hfind)) h with ⟨hfailed, -⟩ | ⟨w₁, enabled, w₂, hbefore, hset, hok, hafter⟩
    · cases hfailed
    · have hkeeps₁ := hbefore.keeps hkeeps
      have hsets₁ := hbefore.disabledSets hkeeps
      obtain ⟨hplace, hkeeps₂, -⟩ := World.setDisabled_disabledSets hkeeps₁ hset
      have hstored := World.setDisabled_stored hkeeps₁ (hsets₁ ▸ hopened.agree) hset
      rw [hok rfl, if_pos rfl, hsets₁, hopened.stored, ← hafter.disabledSets hkeeps₂,
        World.disabledSets, hafter.layout, hplace.layout, hbefore.layout, hopened.layout] at hstored
      exact hstored

/-- What comes of a command that is told what is to be disabled: if it succeeds, it is. -/
theorem perform_stored (hnamed : ∀ source m, command = .install source →
      Manifest.ofFolder d source = .ok m → '/' ∉ m.id.toList)
    {result : Except Fault (List String)} (h : (perform command).alone w = some (result, w'))
    (hremoves : ∀ id reason, command = .uninstall id → result ≠ .error (.io reason)) :
    w'.disk.Tidy base ∧ Host.readDisabled w'.disk l.disabledFile =
      met (Host.readDisabled d l.disabledFile)
        (if result.isOk then command.request?.toList else []) := by
  have hmap {α : Type} {lines : α → List String} {done : Except Fault α} :
      (done.map lines).isOk = done.isOk := by
    cases done <;> rfl
  cases command with
  | list =>
      obtain ⟨rfl, hsame⟩ := Prod.mk.inj (Option.some.inj h)
      obtain rfl : w = w' := hsame
      rw [hopened.disk]
      exact ⟨ht, rfl⟩
  | install source =>
      obtain ⟨installed, w₁, hinstall, h⟩ := Flow.alone_bind_eq_some h
      obtain ⟨-, rfl⟩ := Prod.mk.inj (Option.some.inj h)
      have hnone : (if result.isOk then (Command.install source).request?.toList else []) = [] :=
        ite_self _
      rw [hnone]
      exact install_stored hdata hl ht hopened (hnamed source · rfl) hinstall
  | uninstall id =>
      obtain ⟨removed, w₁, huninstall, h⟩ := Flow.alone_bind_eq_some h
      obtain ⟨rfl, rfl⟩ := Prod.mk.inj (Option.some.inj h)
      rw [hmap]
      cases removed with
      | ok _ => exact uninstall_stored hdata hl ht hopened huninstall
      | error fault =>
          rcases World.uninstall_error hopened.inactive huninstall with ⟨reason, rfl⟩ | rfl
          · exact absurd rfl (hremoves id reason rfl)
          · rw [hopened.disk]
            exact ⟨ht, rfl⟩
  | enable id =>
      obtain ⟨enabled, w₁, henable, h⟩ := Flow.alone_bind_eq_some h
      obtain ⟨rfl, rfl⟩ := Prod.mk.inj (Option.some.inj h)
      obtain ⟨htidy, hstored⟩ := setDisabled_stored hdata hl ht hopened henable
      rw [hmap, hstored]
      refine ⟨htidy, ?_⟩
      cases enabled <;> rfl
  | disable id =>
      obtain ⟨disabled, w₁, hdisable, h⟩ := Flow.alone_bind_eq_some h
      obtain ⟨rfl, rfl⟩ := Prod.mk.inj (Option.some.inj h)
      obtain ⟨htidy, hstored⟩ := setDisabled_stored hdata hl ht hopened hdisable
      rw [hmap, hstored]
      refine ⟨htidy, ?_⟩
      cases disabled <;> rfl

end Performing

end CommandLine

end EditorHost
