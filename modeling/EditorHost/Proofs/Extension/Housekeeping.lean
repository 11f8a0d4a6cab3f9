import EditorHost.Proofs.Extension.Fading
import EditorHost.Proofs.Extension.HostCalls

/-!
# The host's housekeeping

Much of what the host does concerns neither the states of extensions nor anybody's place in line:
it makes contexts, calls listeners, undoes handles, and tells the user interface.  What is
guaranteed of such work, of the code of extensions, and of every change of a record or of a queue is
then guaranteed of all that the host's calls do (`HouseRules`).
-/

namespace EditorHost

variable {χ : Type}

namespace World

/-- Extensions and their queues stay as they are, contributions only go away, and nothing is done to
language servers. -/
structure Tends (w w' : World χ) : Prop where
  extensions : w'.host.extensions = w.host.extensions
  disabled : w'.host.disabled = w.host.disabled
  queues : w'.host.queues = w.host.queues
  tickets : w'.host.tickets = w.host.tickets
  client : w'.client = w.client
  fades : w.Fades w'

end World

/-- Changes of a kind cover the host's housekeeping, the code of extensions, changes of the records
of some extensions, and moves in some queues. -/
structure HouseRules (code : Code χ) (R : World χ → World χ → Prop) (IsFree : String → Prop)
    (IsFreeQueue : QueueId → Prop) : Prop where
  refl : ∀ w, R w w
  trans : ∀ w₁ w₂ w₃, R w₁ w₂ → R w₂ w₃ → R w₁ w₃
  listener : ∀ callback notice, Keeps R (code.listener callback notice)
  undo : ∀ callback, Keeps R (code.undo callback)
  activate : ∀ id entry, IsFree id → code.entry id = some entry →
    ∀ context, (entry.activate context).Within R
  deactivate : ∀ id entry, IsFree id → code.entry id = some entry → entry.deactivate.Within R
  tends : ∀ w w' : World χ, w.Tends w' → R w w'
  modify : ∀ id change w, IsFree id → (∀ e : Extension, (change e).queue = e.queue) →
    R w (World.hostPart.modify (fun h => h.modify id change) w)
  move : ∀ queue change tickets w, IsFreeQueue queue → w.host.tickets ≤ tickets →
    R w { w with host := { w.host with tickets, queues := w.host.queues.modify queue change } }

/-- What is built for an extension is what the code gives as its entry module. -/
theorem World.entry_of_build {code : Code χ} {id : String} {main : Option String}
    {entry : Module χ} (h : main.map (World.build code id) = some (.ok entry)) :
    code.entry id = some entry := by
  obtain ⟨name, -, hmain⟩ := Option.map_eq_some_iff.mp h
  unfold World.build at hmain
  split at hmain
  · cases hmain
  next hsome =>
    split at hmain <;> cases hmain
    exact hsome

namespace HouseRules

open World

variable {code : Code χ} {R : World χ → World χ → Prop} {IsFree : String → Prop}
  {IsFreeQueue : QueueId → Prop} (hrules : HouseRules code R IsFree IsFreeQueue)

include hrules

/-! ## Work in one stretch -/

theorem keeps_apiPart {α : Type} {run : StateM Api α}
    (h : ∀ api : Api, api.Fades (run api).2) : Keeps R (apiPart.zoom run) :=
  fun w => hrules.tends _ _ ⟨rfl, rfl, rfl, rfl, rfl, ⟨rfl, h w.api, .refl w.host⟩⟩

/-- Something is done to processes, contexts, or the results of activations. -/
theorem keeps_hostPart {α : Type} {run : StateM Host α}
    (hextensions : ∀ h : Host, (run h).2.extensions = h.extensions)
    (hdisabled : ∀ h : Host, (run h).2.disabled = h.disabled)
    (hqueues : ∀ h : Host, (run h).2.queues = h.queues)
    (htickets : ∀ h : Host, (run h).2.tickets = h.tickets)
    (h : ∀ h : Host, h.Fades (run h).2) : Keeps R (hostPart.zoom run) :=
  fun w => hrules.tends _ _ ⟨hextensions w.host, hdisabled w.host, hqueues w.host,
    htickets w.host, rfl, ⟨rfl, .refl w.api, h w.host⟩⟩

theorem keeps_emit (events : List Event) : Keeps R (emit events : StateM (World χ) Unit) :=
  fun w => hrules.tends _ _ ⟨rfl, rfl, rfl, rfl, rfl, ⟨rfl, .refl w.api, .refl w.host⟩⟩

theorem keeps_makeContext (id : String) (path : Path) :
    Keeps R (makeContext id path : StateM (World χ) (Option ContextId)) := by
  intro w
  unfold makeContext
  cases hmade : w.disk.perform (Context.prepare w.host.layout id path) with
  | mk result disk =>
      cases result with
      | error e =>
          exact hrules.tends _ _ ⟨rfl, rfl, rfl, rfl, rfl, ⟨rfl, .refl w.api, .refl w.host⟩⟩
      | ok context =>
          have hfades := w.host.fades_addContext (Context.isOpen_prepare hmade)
          exact hrules.tends _ _ ⟨rfl, rfl, rfl, rfl, rfl, ⟨rfl, .refl w.api, hfades⟩⟩

theorem keeps_tell (notice : Notice) : Keeps R (tell code notice) := fun w =>
  Keeps.loop hrules.refl hrules.trans (w.api.listeners.callbacks notice.topic)
    (fun callback => hrules.listener callback notice) w

theorem keeps_dispose (handle : HandleId) : Keeps R (dispose code handle) := by
  refine (hrules.keeps_apiPart fun api => api.fades_dispose handle).bind hrules.trans
    fun disposal => (hrules.keeps_emit disposal.events).bind hrules.trans fun _ => ?_
  cases disposal.code with
  | none => exact .pure hrules.refl _
  | some callback =>
      exact (hrules.undo callback).bind hrules.trans fun _ => .pure hrules.refl _

theorem keeps_drain (context : ContextId) :
    Keeps R (hostPart.zoom ((Host.context context).zoom Context.drain)) :=
  hrules.keeps_hostPart (fun _ => rfl) (fun _ => rfl) (fun _ => rfl) (fun _ => rfl) fun h =>
    h.fades_context context Context.fades_drain

theorem keeps_disposeContext (context : ContextId) : Keeps R (disposeContext code context) := by
  have hgiveUp : Keeps R (hostPart.zoom ((Host.context context).zoom fun c => ((), c.giveUp))) :=
    hrules.keeps_hostPart (fun _ => rfl) (fun _ => rfl) (fun _ => rfl) (fun _ => rfl) fun h =>
      h.fades_context context Context.fades_giveUp
  exact (hrules.keeps_drain context).bind hrules.trans fun handles =>
    .bind hrules.trans (.loop hrules.refl hrules.trans handles hrules.keeps_dispose)
      fun _ => hgiveUp

theorem keeps_release (id : String) : Keeps R (release id : StateM (World χ) Unit) :=
  ((hrules.keeps_apiPart fun api => api.fades_release id).bind hrules.trans
    fun events => hrules.keeps_emit events).bind hrules.trans fun _ => hrules.keeps_emit _

theorem keeps_kill (goes : String → Bool) :
    Keeps R (hostPart.zoom fun h => h.killProcesses goes : StateM (World χ) Nat) :=
  hrules.keeps_hostPart (fun _ => rfl) (fun _ => rfl) (fun _ => rfl) (fun _ => rfl) fun h =>
    h.fades_killProcesses goes

theorem keeps_openDocument (uri language text : String) (version : Int) :
    Keeps R (openDocument code uri language text version) := by
  refine (hrules.keeps_apiPart fun api => ⟨fun _ h => h, fun _ h => h⟩).bind hrules.trans
    fun opened => ?_
  obtain ⟨id, notice⟩ := opened
  cases notice with
  | none => exact .pure hrules.refl _
  | some notice =>
      exact (hrules.keeps_tell notice).bind hrules.trans fun _ => .pure hrules.refl _

theorem keeps_openJoin : Keeps R (hostPart.zoom openJoin : StateM (World χ) Nat) :=
  hrules.keeps_hostPart (fun _ => rfl) (fun _ => rfl) (fun _ => rfl) (fun _ => rfl) fun _ =>
    Host.fades_of_eq rfl rfl

theorem keeps_noteJoined (join : Nat) (id : String) (active : Bool) :
    Keeps R (hostPart.zoom (noteJoined join id active) : StateM (World χ) Unit) :=
  hrules.keeps_hostPart (fun _ => rfl) (fun _ => rfl) (fun _ => rfl) (fun _ => rfl) fun _ =>
    Host.fades_of_eq rfl rfl

/-! ## Work that waits -/

omit hrules in
theorem within_pause : (Flow.pause : Flow (World χ) Unit).Within R := fun _ => trivial

theorem within_readWorld {α : Type} (view : World χ → α) : (Flow.read view).Within R :=
  Flow.within_read hrules.refl view

theorem within_inTurn {α : Type} {queue : QueueId} (hqueue : IsFreeQueue queue)
    {body : Flow (World χ) α} (hbody : body.Within R) : (inTurn queue body).Within R := by
  refine (Flow.within_sync fun w => hrules.move queue _ _ w hqueue (Nat.le_succ _)).bind
    fun ticket => ?_
  have hwait : (Flow.untilReady fun w : World χ => w.host.isTurnOf queue ticket).Within R :=
    fun _ => trivial
  refine hwait.bind fun _ => hbody.bind fun value => ?_
  exact (Flow.within_sync fun w => hrules.move queue _ _ w hqueue (Nat.le_refl _)).bind
    fun _ => trivial

/-- Housekeeping that only looks at what is on the disk, and changes it. -/
theorem within_onDisk (action : Disk.Action Unit) :
    (onDisk action : Flow (World χ) _).Within R :=
  Flow.within_sync fun w =>
    hrules.tends _ _ ⟨rfl, rfl, rfl, rfl, rfl, ⟨rfl, .refl w.api, .refl w.host⟩⟩

theorem within_save (file : Path) (content : String) :
    (save file content : Flow (World χ) _).Within R := by
  refine within_pause.bind fun _ => (hrules.within_onDisk _).bind fun made => ?_
  cases made with
  | error fault => trivial
  | ok _ => exact within_pause.bind fun _ => hrules.within_onDisk _

/-- The set of disabled extensions is written when it has changed. -/
theorem within_saveDisabled (changed : Bool) (h : Host) : (do
    if !changed then return .ok ()
    match ← save h.layout.disabledFile (Host.disabledContent h.disabled) with
    | .error fault => return .error fault
    | .ok () =>
      Flow.sync (emit [.extensionsChanged])
      return .ok () : Flow (World χ) (Except Fault Unit)).Within R := by
  cases changed with
  | false => trivial
  | true =>
      refine (hrules.within_save _ _).bind fun saved => ?_
      cases saved with
      | error fault => trivial
      | ok _ => exact (Flow.within_sync (hrules.keeps_emit _)).bind fun _ => trivial

theorem within_setDisabled {id : String} {disabled : Bool}
    (hmark : ∀ w : World χ, R w { w with host := (w.host.mark id disabled).2 }) :
    (setDisabled id disabled : Flow (World χ) _).Within R :=
  within_pause.bind fun _ => (Flow.within_sync fun w => hmark w).bind fun (changed, h) =>
    hrules.within_saveDisabled changed h

section Free

variable {id : String} (hid : IsFree id)

include hid

theorem keeps_becomeActive (exports : Json) (hasModule : Bool) (context : ContextId) :
    Keeps R (hostPart.zoom (becomeActive id exports hasModule context)) := by
  intro w
  simp only [Focus.zoom, becomeActive]
  split
  · exact hrules.refl w
  · refine hrules.modify id _ w hid ?_
    exact fun _ => rfl

theorem keeps_becomeInactive : Keeps R
    (hostPart.zoom (becomeInactive id) : StateM (World χ) (Option (Bool × Option ContextId))) := by
  intro w
  simp only [Focus.zoom, becomeInactive]
  split
  · exact hrules.refl w
  · split
    · refine hrules.modify id _ w hid ?_
      exact fun _ => rfl
    · exact hrules.refl w

theorem within_enter (manifest : Manifest) (context : ContextId) :
    (enter code id manifest context).Within R := by
  unfold enter
  split
  next entry hbuild =>
    exact (hrules.activate id entry hid (entry_of_build hbuild) context).bind fun _ => trivial
  · trivial

theorem within_activateInTurn (path : Path) (manifest : Manifest) :
    (activateInTurn code id path manifest).Within R := by
  refine within_pause.bind fun _ => (hrules.within_readWorld _).bind fun loaded => ?_
  cases loaded with
  | none => trivial
  | some e =>
      dsimp only
      split
      · trivial
      · refine (Flow.within_sync (hrules.keeps_makeContext id path)).bind fun made => ?_
        cases made with
        | none => trivial
        | some context =>
            refine (hrules.within_enter hid manifest context).bind fun result => ?_
            refine within_pause.bind fun _ => (Flow.within_sync
              (hrules.keeps_becomeActive hid _ _ context)).bind fun stillLoaded => ?_
            split
            · exact (Flow.within_sync (hrules.keeps_emit _)).bind fun _ => trivial
            · exact (Flow.within_sync (hrules.keeps_disposeContext context)).bind fun _ => trivial

theorem within_leave (hasModule : Bool) : (leave code id hasModule).Within R := by
  unfold leave
  split
  · trivial
  next entry hentry =>
    have hsome : code.entry id = some entry := by
      split at hentry
      · exact hentry
      · cases hentry
    exact (hrules.deactivate id entry hid hsome).bind fun _ => trivial

theorem within_deactivateInTurn : (deactivateInTurn code id).Within R := by
  refine within_pause.bind fun _ =>
    (Flow.within_sync (hrules.keeps_becomeInactive hid)).bind fun result => ?_
  match result with
  | none => trivial
  | some (hasModule, context) =>
      refine (hrules.within_leave hid hasModule).bind fun _ => ?_
      have hrest : (do
          Flow.pause
          let _ ← Flow.sync (hostPart.zoom fun h => h.killProcesses fun owner => owner == id)
          Flow.sync (release id) : Flow (World χ) Unit).Within R :=
        within_pause.bind fun _ => (Flow.within_sync (hrules.keeps_kill _)).bind fun _ =>
          Flow.within_sync (hrules.keeps_release id)
      cases context with
      | none => exact hrest
      | some context =>
          exact (Flow.within_sync (hrules.keeps_disposeContext context)).bind fun _ => hrest

theorem within_activate (hqueues : ∀ queue, IsFreeQueue queue) (force : Bool) :
    (World.activate code id force).Within R := by
  refine within_pause.bind fun _ => (hrules.within_readWorld _).bind fun ⟨loaded, isDisabled⟩ => ?_
  cases loaded with
  | none => trivial
  | some e =>
      dsimp only
      split
      · trivial
      split
      · trivial
      · exact hrules.within_inTurn (hqueues e.queue)
          (hrules.within_activateInTurn hid e.path e.manifest)

theorem within_deactivate (hqueues : ∀ queue, IsFreeQueue queue) :
    (World.deactivate code id).Within R := by
  refine within_pause.bind fun _ => (hrules.within_readWorld _).bind fun loaded => ?_
  cases loaded with
  | none => trivial
  | some e =>
      exact (hrules.within_inTurn (hqueues e.queue)
        (hrules.within_deactivateInTurn hid)).bind fun _ => trivial

end Free

theorem within_ensureServer {language : String}
    (hstart : ((Rpc.Client.startServer language).focus clientPart : Flow (World χ) _).Within R) :
    (ensureServer language : Flow (World χ) Unit).Within R := by
  refine within_pause.bind fun _ => (hrules.within_readWorld _).bind fun needed => ?_
  split
  · exact hstart.start .background
  · trivial

omit hrules in
/-- Whatever is done to the language servers' side is of a kind. -/
theorem within_clientPart (hclient : ∀ (w : World χ) client, R w { w with client }) {α : Type}
    (flow : Flow Rpc.Client α) : (flow.focus clientPart : Flow (World χ) α).Within R :=
  flow.within_true.focus fun w client _ => hclient w client

/-! ## Whole calls -/

section All

variable (hids : ∀ id, IsFree id) (hqueues : ∀ queue, IsFreeQueue queue)

include hids hqueues

theorem within_activateByEvent (event : String) : (activateByEvent code event).Within R := by
  refine within_pause.bind fun _ => (hrules.within_readWorld _).bind fun ids => ?_
  split
  · trivial
  · refine (Flow.within_sync hrules.keeps_openJoin).bind fun join => ?_
    have hone (id : String) : (Flow.start .joined do
        let active ← World.activate code id false
        Flow.sync (hostPart.zoom (noteJoined join id active))).Within R := by
      apply Flow.Within.start
      exact (hrules.within_activate (hids id) hqueues false).bind fun active =>
        Flow.within_sync (hrules.keeps_noteJoined join id active)
    refine (Flow.Within.each fun id _ => hone id).bind fun _ => ?_
    have hwait : (Flow.untilReady fun w : World χ =>
        (joinedResults join w).length == ids.length).Within R := fun _ => trivial
    exact hwait.bind fun _ => (hrules.within_readWorld _).bind fun _ => trivial

theorem within_teardownHost : (teardownHost code).Within R := by
  refine within_pause.bind fun _ => (hrules.within_readWorld _).bind fun ids => ?_
  have hone (id : String) : (do let _ ← World.deactivate code id : Flow (World χ) Unit).Within R :=
    (hrules.within_deactivate (hids id) hqueues).bind fun _ => trivial
  refine (Flow.Within.each fun id _ => hone id).bind fun _ => within_pause.bind fun _ => ?_
  exact (Flow.within_sync (hrules.keeps_kill _)).bind fun _ => trivial

theorem within_disable {id : String}
    (hmark : ∀ w : World χ, R w { w with host := (w.host.mark id true).2 }) :
    (disable code id).Within R := by
  refine within_pause.bind fun _ => (hrules.within_readWorld _).bind fun loaded => ?_
  split
  · trivial
  · refine (hrules.within_deactivate (hids id) hqueues).bind fun result => ?_
    cases result with
    | error fault => trivial
    | ok _ => exact hrules.within_setDisabled hmark

theorem within_enable {id : String}
    (hmark : ∀ w : World χ, R w { w with host := (w.host.mark id false).2 }) :
    (enable code id).Within R := by
  refine (hrules.within_setDisabled hmark).bind fun result => ?_
  cases result with
  | error fault => trivial
  | ok _ =>
      refine within_pause.bind fun _ => (hrules.within_readWorld _).bind fun loaded => ?_
      split
      · trivial
      · exact (hrules.within_activate (hids id) hqueues true).bind fun _ => trivial

theorem within_didOpen {uri language text : String} (version : Int)
    (hopen : ((Rpc.Client.didOpen uri language text).focus clientPart : Flow (World χ) Unit).Within
      R)
    (hstart : (ensureServer language : Flow (World χ) Unit).Within R) :
    (didOpen code uri language text version).Within R := by
  refine (Flow.within_sync (hrules.keeps_openDocument uri language text version)).bind fun id => ?_
  refine (hrules.within_activateByEvent hids hqueues _).bind fun _ => hopen.bind fun _ => ?_
  exact hstart.bind fun _ => trivial

/-- A call does what the host does of itself, and besides marks an extension as disabled or not, or
has to do with language servers. -/
theorem within_flow {call : HostCall}
    (hdisable : ∀ id, call = .disable id →
      ∀ w : World χ, R w { w with host := (w.host.mark id true).2 })
    (henable : ∀ id, call = .enable id →
      ∀ w : World χ, R w { w with host := (w.host.mark id false).2 })
    (hopen : ∀ uri language text,
      ((Rpc.Client.didOpen uri language text).focus clientPart : Flow (World χ) Unit).Within R)
    (hstart : ∀ language,
      ((Rpc.Client.startServer language).focus clientPart : Flow (World χ) _).Within R)
    (hshutdown : (Rpc.Client.forceShutdown.focus clientPart : Flow (World χ) Unit).Within R) :
    (call.flow code).Within R := by
  cases call with
  | activate id force =>
      exact (hrules.within_activate (hids id) hqueues force).bind fun _ => trivial
  | activateByEvent event =>
      exact (hrules.within_activateByEvent hids hqueues event).bind fun _ => trivial
  | deactivate id => exact (hrules.within_deactivate (hids id) hqueues).bind fun _ => trivial
  | disable id =>
      exact (hrules.within_disable hids hqueues (hdisable id rfl)).bind fun _ => trivial
  | enable id => exact (hrules.within_enable hids hqueues (henable id rfl)).bind fun _ => trivial
  | teardownHost => exact hrules.within_teardownHost hids hqueues
  | didOpen uri language text version =>
      exact (hrules.within_didOpen hids hqueues version (hopen uri language text)
        (hrules.within_ensureServer (hstart language))).bind fun _ => trivial
  | teardown => exact (hrules.within_teardownHost hids hqueues).bind fun _ => hshutdown

end All

end HouseRules

end EditorHost
