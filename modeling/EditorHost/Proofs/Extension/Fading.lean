import EditorHost.Proofs.Extension.HostCalls
import EditorHost.Proofs.Providers.Lookup

/-!
# What extensions contribute

Providers, status bar items and processes come into the world by the code of extensions only, and
so do the handles and the background work that a context is to undo.  Whatever the host does of
itself only takes such things away.
-/

namespace EditorHost

variable {χ : Type}

/-- Whether something is to be undone with a context. -/
def Context.isOpen (c : Context) : Bool := !c.subscriptions.isEmpty || c.givenUp != c.started

namespace Context

/-- Nothing is to be undone with a new context. -/
theorem isOpen_prepare {layout : Layout} {id : String} {path : Path} {d d' : Disk} {c : Context}
    (h : d.perform (prepare layout id path) = (.ok c, d')) : c.isOpen = false := by
  unfold Disk.perform prepare at h
  simp only [ExceptT.run_bind, StateT.run_bind] at h
  generalize hmade : StateT.run (ExceptT.run (List.forM _ Disk.createFolders)) d = made at h
  obtain ⟨result, disk⟩ := made
  cases result with
  | error e => cases h
  | ok value =>
      cases h
      rfl

theorem isOpen_eq_false {c : Context} :
    c.isOpen = false ↔ c.subscriptions = [] ∧ c.givenUp = c.started := by
  simp [isOpen]

/-- Nothing more is to be undone with a context. -/
structure Fades (c c' : Context) : Prop where
  extension : c'.extension = c.extension
  handles : c.subscriptions = [] → c'.subscriptions = []
  work : c.givenUp = c.started → c'.givenUp = c'.started

theorem Fades.refl (c : Context) : c.Fades c := ⟨rfl, fun h => h, fun h => h⟩

theorem Fades.isOpen {c c' : Context} (h : c.Fades c') (hopen : c'.isOpen = true) :
    c.isOpen = true := by
  refine Bool.of_not_eq_false fun hclosed => ?_
  obtain ⟨hhandles, hwork⟩ := isOpen_eq_false.mp hclosed
  exact absurd hopen (by simp [isOpen_eq_false.mpr ⟨h.handles hhandles, h.work hwork⟩])

theorem fades_drain (c : Context) : c.Fades c.drain.2 := ⟨rfl, fun _ => rfl, fun h => h⟩

theorem fades_giveUp (c : Context) : c.Fades c.giveUp := ⟨rfl, fun h => h, fun _ => rfl⟩

end Context

/-- Providers and status bar items only go away. -/
structure Api.Fades (api api' : Api) : Prop where
  registrations : ∀ r ∈ api'.registry.live, r ∈ api.registry.live
  items : ∀ entry ∈ api'.statusBar.entries, entry ∈ api.statusBar.entries

/-- Processes only go away, and nothing more is to be undone with a context. -/
structure Host.Fades (h h' : Host) : Prop where
  processes : ∀ p ∈ h'.processes, p ∈ h.processes
  contexts : ∀ (n : Nat) (c' : Context), h'.contexts[n]? = some c' → c'.isOpen = true →
    ∃ c, h.contexts[n]? = some c ∧ c.Fades c'

/-- Contributions only go away, and the code of extensions keeps what it kept for itself. -/
structure World.Fades (w w' : World χ) : Prop where
  own : w'.own = w.own
  api : w.api.Fades w'.api
  host : w.host.Fades w'.host

namespace Api

theorem Fades.refl (api : Api) : api.Fades api := ⟨fun _ h => h, fun _ h => h⟩

theorem Fades.trans {api api' api'' : Api} (h : api.Fades api') (h' : api'.Fades api'') :
    api.Fades api'' :=
  ⟨fun r hr => h.registrations r (h'.registrations r hr), fun e he => h.items e (h'.items e he)⟩

theorem fades_removeAll (api : Api) (goes : StatusItem → Bool) :
    api.Fades (api.changeStatusBar fun bar => bar.removeAll goes).2 :=
  ⟨fun _ h => h, fun _ h => (List.mem_filter.mp h).1⟩

theorem fades_unregisterAll (api : Api) (ids : List RegistrationId) :
    api.Fades { api with registry := api.registry.unregisterAll ids } := by
  refine ⟨fun r hr => ?_, fun _ h => h⟩
  rw [Registry.live_unregisterAll] at hr
  exact (List.mem_filter.mp hr).1

theorem fades_changeCollection (api : Api) (id : Nat)
    (change : DiagnosticCollection → List Event × DiagnosticCollection) :
    api.Fades (api.changeCollection id change).2 := by
  unfold changeCollection
  split
  · exact .refl api
  · exact ⟨fun _ h => h, fun _ h => h⟩

theorem fades_undo (api : Api) (action : Undo) : api.Fades (api.undo action).2 := by
  cases action with
  | code callback => exact .refl api
  | listener id => exact ⟨fun _ h => h, fun _ h => h⟩
  | command name token => exact ⟨fun _ h => h, fun _ h => h⟩
  | registration id => exact api.fades_unregisterAll [id]
  | statusItem id => exact api.fades_removeAll fun item => item.id == id
  | collection id => exact api.fades_changeCollection id _

theorem fades_dispose (api : Api) (handle : HandleId) : api.Fades (api.dispose handle).2 := by
  have htaken (handles : List (Option Undo)) : api.Fades { api with handles } :=
    ⟨fun _ h => h, fun _ h => h⟩
  unfold dispose
  split
  · exact .refl api
  next action h =>
    cases action with
    | code callback => exact htaken _
    | _ => exact (htaken _).trans (fades_undo _ _)

theorem fades_release (api : Api) (extension : String) :
    api.Fades (api.release extension).2 := by
  have hregistry := api.fades_unregisterAll
    ((api.registry.live.filter fun e => e.extension == extension).map Registration.id)
  rw [← Registry.unregisterExtension_eq] at hregistry
  exact hregistry.trans (fades_removeAll _ _)

/-- Nothing that an extension registered is left when it is released. -/
theorem mem_release (api : Api) (extension : String) :
    (∀ r ∈ (api.release extension).2.registry.live, r.extension ≠ extension) ∧
      ∀ entry ∈ (api.release extension).2.statusBar.entries, entry.item.extension ≠ extension := by
  constructor
  · intro r hr hextension
    have hlive : (api.release extension).2.registry.live =
        (api.registry.unregisterExtension extension).2.live := rfl
    rw [hlive, Registry.unregisterExtension_eq, Registry.live_unregisterAll, List.mem_filter] at hr
    have hid : r.id ∈ ((api.registry.live.filter fun e => e.extension == extension).map
        Registration.id) :=
      List.mem_map_of_mem (List.mem_filter.mpr ⟨hr.1, by simp [hextension]⟩)
    simp [hid] at hr
  · intro entry hentry hextension
    have hkept := (List.mem_filter.mp hentry).2
    simp [hextension] at hkept

end Api

namespace Host

theorem Fades.refl (h : Host) : h.Fades h :=
  ⟨fun _ hp => hp, fun _ c hc _ => ⟨c, hc, .refl c⟩⟩

/-- A change of a host that concerns neither processes nor contexts. -/
theorem fades_of_eq {h h' : Host} (hprocesses : h'.processes = h.processes)
    (hcontexts : h'.contexts = h.contexts) : h.Fades h' :=
  ⟨fun _ hp => hprocesses ▸ hp, fun _ c hc _ => ⟨c, hcontexts ▸ hc, .refl c⟩⟩

theorem fades_killProcesses (h : Host) (goes : String → Bool) : h.Fades (h.killProcesses goes).2 :=
  ⟨fun _ hp => (List.mem_filter.mp hp).1, fun _ c hc _ => ⟨c, hc, .refl c⟩⟩

theorem fades_addContext (h : Host) {c : Context} (hc : c.isOpen = false) :
    h.Fades (h.addContext c).2 := by
  refine ⟨fun _ hp => hp, fun n c' hc' hopen => ⟨c', ?_, .refl c'⟩⟩
  simp only [addContext] at hc'
  rw [List.getElem?_append] at hc'
  split at hc'
  · exact hc'
  · obtain rfl : c' = c := List.mem_singleton.mp (List.mem_of_getElem? hc')
    rw [hc] at hopen
    cases hopen

/-- A changed context, and all others as they were. -/
theorem contexts_modify {h : Host} {id n : ContextId} {change : Context → Context} {c' : Context}
    (hc' : ((context id).modify change h).contexts[n]? = some c') :
    ∃ c, h.contexts[n]? = some c ∧ c' = if n = id then change c else c := by
  simp only [Focus.modify, context] at hc'
  rw [List.getElem?_set] at hc'
  split at hc'
  next heq =>
    subst heq
    split at hc'
    next hlt =>
      rw [List.getElem?_eq_getElem hlt, Option.getD_some] at hc'
      cases hc'
      exact ⟨_, List.getElem?_eq_getElem hlt, (if_pos rfl).symm⟩
    · cases hc'
  next hne => exact ⟨c', hc', (if_neg (Ne.symm hne)).symm⟩

/-- Something is done to a context by which nothing more is to be undone with it. -/
theorem fades_context (h : Host) (id : ContextId) {change : Context → Context}
    (hchange : ∀ c : Context, c.Fades (change c)) : h.Fades ((context id).modify change h) := by
  refine ⟨fun _ hp => hp, fun n c' hc' _ => ?_⟩
  obtain ⟨c, hc, rfl⟩ := contexts_modify hc'
  refine ⟨c, hc, ?_⟩
  split
  · exact hchange c
  · exact .refl c

end Host

end EditorHost
