import EditorHost.CommandLine.Run
import EditorHost.Proofs.Extension.Agreement
import EditorHost.Proofs.Extension.Reactivation
import EditorHost.Proofs.OneTurn

/-!
# Sessions of the command line

A session discovers what is installed, and then does what it was asked for.  Nothing runs beside it,
and it never has to wait: no extension is active, so that nobody is in line for one.  What comes of
a run is therefore what the two calls come to, one after the other (`CommandLine.execute_eq`).

## Contents

* The calls of a session start nothing on the side (`CommandLine.unbranched_session`).
* `Host.discovered_induction`: what holds of a host that has discovered what there is.
* `CommandLine.perform_returns`: a session comes to its end.
-/

namespace EditorHost

variable {χ : Type} {code : Code χ} {w : World χ} {d : Disk} {id : String}

namespace World

open Flow (unbranched_mapEach unbranched_pause unbranched_read unbranched_sync
  unbranched_untilReady)

/-! ## Nothing is started on the side -/

theorem unbranched_load (path : Path) : (load path : Flow (World χ) _).Unbranched := by
  refine (unbranched_read _).bind fun found => ?_
  cases found with
  | error fault => trivial
  | ok manifest =>
      refine unbranched_pause.bind fun _ => (unbranched_read _).bind fun known => ?_
      cases known with
      | some descriptor => trivial
      | none =>
          exact (unbranched_sync _).bind fun _ => unbranched_pause.bind fun _ =>
            (unbranched_read _).bind fun _ => unbranched_pause.bind fun _ =>
            (unbranched_sync _).bind fun _ => (unbranched_sync _).bind fun _ => trivial

theorem unbranched_loadAll (paths : List Path) : (loadAll paths : Flow (World χ) _).Unbranched :=
  (unbranched_mapEach unbranched_load).bind fun _ => trivial

theorem unbranched_discover : (discover : Flow (World χ) _).Unbranched :=
  (unbranched_read _).bind fun _ => (unbranched_loadAll _).bind fun _ =>
    (unbranched_read _).bind fun _ => (unbranched_loadAll _).bind fun _ => trivial

theorem unbranched_onDisk (action : Disk.Action Unit) :
    (onDisk action : Flow (World χ) _).Unbranched :=
  unbranched_sync _

theorem unbranched_save (file : Path) (content : String) :
    (save file content : Flow (World χ) _).Unbranched := by
  refine unbranched_pause.bind fun _ => (unbranched_onDisk _).bind fun made => ?_
  cases made with
  | error fault => trivial
  | ok _ => exact unbranched_pause.bind fun _ => unbranched_onDisk _

theorem unbranched_setDisabled (id : String) (disabled : Bool) :
    (setDisabled id disabled : Flow (World χ) _).Unbranched := by
  refine unbranched_pause.bind fun _ => (unbranched_sync _).bind fun ⟨changed, h⟩ => ?_
  dsimp only
  split
  · trivial
  · refine (unbranched_save _ _).bind fun saved => ?_
    cases saved with
    | error fault => trivial
    | ok _ => exact (unbranched_sync _).bind fun _ => trivial

/-- Code that has no modules is not told of a deactivation. -/
theorem unbranched_deactivate_idle (id : String) :
    (deactivate (Code.idle : Code χ) id).Unbranched := by
  have hinTurn : (deactivateInTurn (Code.idle : Code χ) id).Unbranched := by
    refine unbranched_pause.bind fun _ => (unbranched_sync _).bind fun left => ?_
    rcases left with _ | ⟨hasModule, context⟩
    · trivial
    · have hleave : (leave (Code.idle : Code χ) id hasModule).Unbranched := by
        cases hasModule <;> trivial
      refine hleave.bind fun _ => ?_
      cases context with
      | none => exact unbranched_pause.bind fun _ => (unbranched_sync _).bind fun _ =>
          unbranched_sync _
      | some context => exact (unbranched_sync _).bind fun _ => unbranched_pause.bind fun _ =>
          (unbranched_sync _).bind fun _ => unbranched_sync _
  refine unbranched_pause.bind fun _ => (unbranched_read _).bind fun found => ?_
  cases found with
  | none => trivial
  | some e =>
      refine Flow.Unbranched.bind ?_ fun _ => trivial
      exact (unbranched_sync _).bind fun _ => (unbranched_untilReady _).bind fun _ =>
        hinTurn.bind fun _ => (unbranched_sync _).bind fun _ => trivial

theorem unbranched_unload_idle (id : String) : (unload (Code.idle : Code χ) id).Unbranched := by
  refine unbranched_pause.bind fun _ => (unbranched_read _).bind fun found => ?_
  split
  · trivial
  · refine (unbranched_deactivate_idle id).bind fun left => ?_
    cases left with
    | error fault => trivial
    | ok _ => exact unbranched_pause.bind fun _ => (unbranched_sync _).bind fun _ => trivial

theorem unbranched_replaceTree (source target : Path) :
    (replaceTree source target : Flow (World χ) _).Unbranched := by
  have hclear : (clear target : Flow (World χ) _).Unbranched := by
    refine unbranched_pause.bind fun _ => (unbranched_read _).bind fun there => ?_
    rcases there with fault | _ | _
    · trivial
    · trivial
    · exact unbranched_onDisk _
  refine hclear.bind fun cleared => ?_
  cases cleared with
  | error fault => trivial
  | ok _ =>
      refine unbranched_pause.bind fun _ => (unbranched_read _).bind fun entry => ?_
      cases entry with
      | error e => trivial
      | ok node => exact unbranched_onDisk _

theorem unbranched_install_idle (source : Path) :
    (install (Code.idle : Code χ) source).Unbranched := by
  refine (unbranched_read _).bind fun found => ?_
  cases found with
  | error fault => trivial
  | ok manifest =>
      refine (unbranched_read _).bind fun target =>
        (unbranched_unload_idle _).bind fun unloaded => ?_
      cases unloaded with
      | error fault => trivial
      | ok _ =>
          refine unbranched_pause.bind fun _ => (unbranched_read _).bind fun same => ?_
          split
          · exact unbranched_load _
          · refine (unbranched_replaceTree _ _).bind fun replaced => ?_
            cases replaced with
            | error fault => trivial
            | ok _ => exact unbranched_load _

theorem unbranched_uninstall_idle (id : String) :
    (uninstall (Code.idle : Code χ) id).Unbranched := by
  have hdelete (path : Path) : (deletePackage path : Flow (World χ) _).Unbranched := by
    refine unbranched_pause.bind fun _ => (unbranched_read _).bind fun below => ?_
    split
    · exact unbranched_onDisk _
    · trivial
  refine unbranched_pause.bind fun _ => (unbranched_read _).bind fun found => ?_
  cases found with
  | none => trivial
  | some e =>
      dsimp only
      split
      · trivial
      refine (unbranched_deactivate_idle id).bind fun left => ?_
      cases left with
      | error fault => trivial
      | ok _ =>
          refine unbranched_pause.bind fun _ => (unbranched_sync _).bind fun _ =>
            (unbranched_setDisabled id false).bind fun enabled => ?_
          cases enabled with
          | error fault => trivial
          | ok _ =>
              refine (hdelete e.path).bind fun deleted => ?_
              cases deleted with
              | error fault => trivial
              | ok _ => exact (unbranched_sync _).bind fun _ => trivial

end World

/-! ## A host that has discovered what there is -/

/-- What holds of a host, and is kept when the extension of a package that is found below one of the
roots is loaded, holds behind a discovery. -/
theorem Host.discovered_induction {P : Host → Prop} {h : Host} (hstart : P h)
    (hadd : ∀ (before : Host) (path : Path) (m : Manifest), P before →
      path ∈ Discovery.packages d h.layout.userExtensions ++
        Discovery.packages d h.layout.bundledExtensions →
      Manifest.ofFolder d path = .ok m → P (before.add m.id path m)) : P (h.discovered d) := by
  rw [discovered]
  generalize Discovery.packages d h.layout.userExtensions ++
    Discovery.packages d h.layout.bundledExtensions = paths at hadd ⊢
  induction paths generalizing h with
  | nil => exact hstart
  | cons path rest ih =>
      have hloaded : P (h.loaded d path) := by
        rw [Host.loaded]
        split
        · exact hstart
        next m hm =>
          split
          · exact hstart
          · exact hadd h path m hstart List.mem_cons_self hm
      exact ih hloaded fun before other m hbefore hother =>
        hadd before other m hbefore (List.mem_cons_of_mem _ hother)

theorem Host.Idle.discovered {h : Host} (hidle : h.Idle code) : (h.discovered d).Idle code :=
  Host.discovered_induction hidle fun _ path m hbefore _ _ => hbefore.add m.id path m

/-! ## A session comes to its end -/

namespace World

/-- Nobody is in line for an extension that is not active, so there is nothing to wait for. -/
theorem deactivate_returns (hidle : w.host.Idle code) (hinactive : w.host.Inactive) (id : String) :
    ∃ result w', (deactivate code id).alone w = some (result, w') := by
  simp only [deactivate, Flow.bind_eq, Flow.alone_pause_bind, Flow.alone_read_bind]
  cases hfind : w.host.find? id with
  | none => exact ⟨_, _, rfl⟩
  | some e =>
      have hfree : w.host.queues[e.queue]? = some [] := by
        have hroom := hidle.room id e hfind
        rw [List.getElem?_eq_getElem hroom, hidle.queues _ (List.getElem_mem hroom)]
      have hqueued : (w.ticketed e.queue).host.find? id = some e := hfind
      have hbody : (deactivateInTurn code id).alone (w.ticketed e.queue) =
          some ((), w.ticketed e.queue) := by
        simp only [deactivateInTurn, Flow.bind_eq, Flow.alone_pause_bind, Flow.alone_sync_bind,
          zoom_becomeInactive_of_not hqueued (hinactive id e hfind)]
        rfl
      exact bind_returns ⟨_, inTurn_alone hfree hbody⟩ fun _ _ => ⟨_, _, rfl⟩

theorem replaceTree_returns (source target : Path) (w : World χ) :
    ∃ result w', (replaceTree source target).alone w = some (result, w') := by
  have hclear : ∃ result, (clear target).alone w = some result := by
    simp only [clear, Flow.bind_eq, Flow.alone_pause_bind, Flow.alone_read_bind]
    split <;> exact ⟨_, rfl⟩
  refine bind_returns hclear fun cleared w₁ => ?_
  cases cleared with
  | error fault => exact ⟨_, _, rfl⟩
  | ok _ =>
      simp only [Flow.bind_eq, Flow.alone_pause_bind, Flow.alone_read_bind]
      split <;> exact ⟨_, _, rfl⟩

theorem install_returns (hidle : w.host.Idle code) (hinactive : w.host.Inactive) (source : Path) :
    ∃ result w', (install code source).alone w = some (result, w') := by
  have hload (target : Path) (w : World χ) :
      ∃ result w', (load target).alone w = some (result, w') := by
    obtain ⟨result, w', hload, -⟩ := load_alone target w
    exact ⟨result, w', hload⟩
  simp only [install, Flow.bind_eq, Flow.alone_read_bind]
  split
  · exact ⟨_, _, rfl⟩
  next m _ =>
    have hunload : ∃ result, (unload code m.id).alone w = some result := by
      obtain ⟨left, w₁, hdeactivate⟩ := deactivate_returns hidle hinactive m.id
      simp only [unload, Flow.bind_eq, Flow.alone_pause_bind, Flow.alone_read_bind]
      split
      · exact ⟨_, rfl⟩
      · rw [Flow.alone_bind, hdeactivate]
        cases left <;> exact ⟨_, rfl⟩
    simp only [Flow.alone_read_bind]
    refine bind_returns hunload fun unloaded w₁ => ?_
    cases unloaded with
    | error fault => exact ⟨_, _, rfl⟩
    | ok _ =>
        simp only [Flow.alone_pause_bind, Flow.alone_read_bind]
        split
        · exact hload _ _
        · obtain ⟨replaced, w₂, hreplace⟩ := replaceTree_returns source _ w₁
          refine bind_returns ⟨_, hreplace⟩ fun replaced _ => ?_
          cases replaced with
          | error fault => exact ⟨_, _, rfl⟩
          | ok _ => exact hload _ _

theorem uninstall_returns (hidle : w.host.Idle code) (hinactive : w.host.Inactive) (id : String) :
    ∃ result w', (uninstall code id).alone w = some (result, w') := by
  have hdelete (path : Path) (w : World χ) :
      ∃ result, (deletePackage path).alone w = some result := by
    simp only [deletePackage, Flow.bind_eq, Flow.alone_pause_bind, Flow.alone_read_bind]
    split <;> exact ⟨_, rfl⟩
  simp only [uninstall, Flow.bind_eq, Flow.alone_pause_bind, Flow.alone_read_bind]
  split
  · exact ⟨_, _, rfl⟩
  next e _ =>
    split
    · exact ⟨_, _, rfl⟩
    obtain ⟨left, w₁, hdeactivate⟩ := deactivate_returns hidle hinactive id
    refine bind_returns ⟨_, hdeactivate⟩ fun left w₁ => ?_
    cases left with
    | error fault => exact ⟨_, _, rfl⟩
    | ok _ =>
        simp only [Flow.alone_pause_bind, Flow.alone_sync_bind]
        obtain ⟨enabled, w₂, hset⟩ := setDisabled_returns
          (hostPart.zoom (fun h => ((), h.forget id)) w₁).2 id false
        refine bind_returns ⟨_, hset⟩ fun enabled _ => ?_
        cases enabled with
        | error fault => exact ⟨_, _, rfl⟩
        | ok _ =>
            refine bind_returns (hdelete e.path _) fun deleted _ => ?_
            cases deleted <;> exact ⟨_, _, rfl⟩

end World

/-- The settings are those of the layout for which they were loaded. -/
theorem Settings.layout_of_load {layout : Layout} {settings : Settings}
    (h : load d layout = .ok settings) : settings.layout = layout := by
  rw [load] at h
  cases htree : readTree d layout.settingsFile with
  | error fault => rw [htree] at h; cases h
  | ok tree =>
      rw [htree] at h
      simp only [bind, Except.bind] at h
      split at h
      · cases h
        rfl
      · split at h
        · cases h
          rfl
        · cases h

namespace CommandLine

theorem unbranched_perform (command : Command) :
    (perform command : Flow (World χ) _).Unbranched := by
  cases command with
  | list => exact (Flow.unbranched_read _).bind fun _ => trivial
  | install source => exact (World.unbranched_install_idle source).bind fun _ => trivial
  | uninstall id => exact (World.unbranched_uninstall_idle id).bind fun _ => trivial
  | enable id => exact (World.unbranched_setDisabled id false).bind fun _ => trivial
  | disable id => exact (World.unbranched_setDisabled id true).bind fun _ => trivial

theorem unbranched_session (command : Command) : (session command).Unbranched :=
  World.unbranched_discover.bind fun _ => (unbranched_perform command).bind fun _ =>
    Flow.unbranched_sync _

/-- Whatever is asked for is done or refused, when nobody is in line for an extension. -/
theorem perform_returns (hidle : w.host.Idle (Code.idle : Code χ)) (hinactive : w.host.Inactive)
    (command : Command) : ∃ result w', (perform command).alone w = some (result, w') := by
  have hmap {α : Type} {flow : Flow (World χ) (Except Fault α)} (lines : α → List String)
      (h : ∃ result w', flow.alone w = some (result, w')) : ∃ result w',
      (flow.bind fun result => .done (result.map lines)).alone w = some (result, w') := by
    obtain ⟨result, w', hflow⟩ := h
    exact World.bind_returns ⟨_, hflow⟩ fun _ _ => ⟨_, _, rfl⟩
  cases command with
  | list => exact ⟨_, _, rfl⟩
  | install source => exact hmap _ (World.install_returns hidle hinactive source)
  | uninstall id => exact hmap _ (World.uninstall_returns hidle hinactive id)
  | enable id => exact hmap _ (World.setDisabled_returns w id false)
  | disable id => exact hmap _ (World.setDisabled_returns w id true)

/-- What comes of a run: the extensions are discovered, and then what was asked for is done. -/
theorem execute_eq {s : Surroundings} {options : Options} {l : Layout} {settings : Settings}
    (hlayout : options.layout s = .ok l) (hsettings : Settings.load d l = .ok settings)
    (command : Command) : ∃ (w₁ w₂ : World (Except Fault (List String)))
      (result : Except Fault (List String)),
      w₁.disk = d ∧ w₁.host = (Host.ofDisk d l).discovered d ∧
        (perform command).alone w₁ = some (result, w₂) ∧
        execute s d options command = (result, w₂.disk) := by
  obtain ⟨ids, w₁, hdiscover, hdisk, hhost⟩ := World.discover_alone (world d settings)
  have hdisk₁ : w₁.disk = d := hdisk
  have hhost₁ : w₁.host = (Host.ofDisk d l).discovered d := by
    rw [hhost]
    show (Host.ofDisk d settings.layout).discovered d = _
    rw [Settings.layout_of_load hsettings]
  have hidle : w₁.host.Idle (Code.idle : Code (Except Fault (List String))) :=
    hhost₁ ▸ (Host.idle_ofDisk _ d l).discovered
  have hinactive : w₁.host.Inactive := hhost₁ ▸ (Host.inactive_ofDisk d l).discovered d
  obtain ⟨result, w₂, hperform⟩ := perform_returns hidle hinactive command
  refine ⟨w₁, w₂, result, hdisk₁, hhost₁, hperform, ?_⟩
  have hsession : (session command).alone (world d settings) =
      some ((), { w₂ with own := result }) := by
    rw [session, Flow.bind_eq, Flow.alone_bind, hdiscover, Option.bind_some, Flow.bind_eq,
      Flow.alone_bind, hperform, Option.bind_some]
    rfl
  rw [execute, hlayout]
  simp only [hsettings, Schedule.runFlow_of_alone (unbranched_session command) hsession]

end CommandLine

end EditorHost
