import EditorHost.Proofs.Disk.Remaking
import EditorHost.Proofs.Extension.Cleanup
import EditorHost.Proofs.Extension.Offers

/-!
# Extensions that are activated again

An extension offers a fixed list of things whenever it is activated, and gives up at the first one
that cannot be registered.  It is activated, deactivated and activated again while nothing else
runs.  On the deactivation its providers and status bar items go, whether their handles were handed
over or not; a command goes with its handle only.  So the second activation comes to the same as the
first one if all handles of commands were handed over, and otherwise stops at the first command that
was left behind, whose name is still taken.

## Contents

* `Module.Offers` is an entry module of that kind, and `World.Ready` says that an extension can be
  activated.
* `World.activate_offers` and `World.deactivate_offers`: what comes of the two calls.
* `World.makeContext_again`: where a context has been made, another one can be made.
* `World.deactivate_activated`: what has been activated can be deactivated and activated again.
* `World.reactivate_offers` is the result on three calls in a row.
-/

namespace EditorHost

open World (hostPart apiPart)

variable {χ : Type} {code : Code χ} {w w' : World χ} {id : String} {e : Extension}
  {n : ContextId} {os : List Offering} {handles : List HandleId}

/-! ## The host's books -/

/-- The host's books are as they were, but for contexts, and so is the disk. -/
structure World.SameBooks (w w' : World χ) : Prop extends World.SameHost w w' where
  layout : w'.host.layout = w.host.layout
  disk : w'.disk = w.disk

theorem World.SameBooks.refl (w : World χ) : w.SameBooks w := ⟨.refl w, rfl, rfl⟩

theorem World.SameBooks.trans {w'' : World χ} (h : w.SameBooks w') (h' : w'.SameBooks w'') :
    w.SameBooks w'' where
  extensions := h'.extensions.trans h.extensions
  disabled := h'.disabled.trans h.disabled
  queues := h'.queues.trans h.queues
  tickets := h'.tickets.trans h.tickets
  layout := h'.layout.trans h.layout
  disk := h'.disk.trans h.disk

namespace World

/-! ## Turns -/

/-- The world in which a ticket has been taken. -/
def ticketed (queue : QueueId) (w : World χ) : World χ :=
  hostPart.modify (fun h => (h.takeTicket queue).2) w

/-- The world in which a ticket has been given back. -/
def released (queue : QueueId) (ticket : Nat) (w : World χ) : World χ :=
  hostPart.modify (fun h => h.giveBack queue ticket) w

/-- In a queue in which nobody waits it is one's turn at once. -/
theorem inTurn_alone {α : Type} {queue : QueueId} {body : Flow (World χ) α} {value : α}
    (hfree : w.host.queues[queue]? = some [])
    (hbody : body.alone (w.ticketed queue) = some (value, w')) :
    (inTurn queue body).alone w = some (value, w'.released queue w.host.tickets) := by
  have hturn : (w.ticketed queue).host.isTurnOf queue w.host.tickets = true := by
    simp [ticketed, Focus.modify, hostPart, Host.takeTicket, Host.isTurnOf, hfree]
  have hzoom : hostPart.zoom (fun h => h.takeTicket queue) w =
      (w.host.tickets, w.ticketed queue) := rfl
  simp only [inTurn, Flow.bind_eq, Flow.alone_sync_bind, hzoom]
  rw [Flow.alone_bind, Flow.alone_untilReady, if_pos hturn, Option.bind_some, Flow.alone_bind,
    hbody, Option.bind_some]
  rfl

/-- Behind a turn nobody waits in the queue. -/
theorem queues_released {queue : QueueId} (hfree : w.host.queues[queue]? = some [])
    (hqueues : w'.host.queues = (w.ticketed queue).host.queues) :
    (w'.released queue w.host.tickets).host.queues = w.host.queues := by
  refine List.ext_getElem? fun k => ?_
  have hrelease : (w'.released queue w.host.tickets).host.queues =
      w'.host.queues.modify queue fun waiting => waiting.erase w.host.tickets := rfl
  have htake : (w.ticketed queue).host.queues =
      w.host.queues.modify queue fun waiting => waiting ++ [w.host.tickets] := rfl
  rw [hrelease, hqueues, htake, List.getElem?_modify, List.getElem?_modify]
  by_cases hk : queue = k
  · subst hk
    simp [hfree]
  · simp [hk]

/-! ## Contexts -/

theorem makeContext_fst (id : String) (path : Path) (w : World χ) :
    (makeContext id path w).1.isSome = true ↔
      (w.disk.perform (Context.prepare w.host.layout id path)).1.isOk = true := by
  unfold makeContext
  cases w.disk.perform (Context.prepare w.host.layout id path) with
  | mk result disk => cases result <;> simp [Except.isOk, Except.toBool]

/-- What a context is made in leaves the host's books alone, but for the context. -/
theorem sameHost_makeContext (id : String) (path : Path) (w : World χ) :
    w.SameHost (makeContext id path w).2 ∧
      (makeContext id path w).2.host.layout = w.host.layout := by
  unfold makeContext
  split <;> exact ⟨⟨rfl, rfl, rfl, rfl⟩, rfl⟩

/-- Where a context has been made, another one can be made. -/
theorem makeContext_again {path : Path} (h : (makeContext id path w).1.isSome = true)
    (hdisk : w'.disk = (makeContext id path w).2.disk)
    (hlayout : w'.host.layout = w.host.layout) : (makeContext id path w').1.isSome = true := by
  rw [makeContext_fst, hdisk, hlayout]
  unfold makeContext at h ⊢
  cases hprepare : w.disk.perform (Context.prepare w.host.layout id path) with
  | mk result disk =>
      rw [hprepare] at h
      cases result with
      | error e => cases h
      | ok context =>
          unfold Context.prepare at hprepare ⊢
          obtain ⟨_, d₁, hfolders, hrest⟩ := Disk.perform_bind_eq_ok hprepare
          obtain ⟨_, d₂, hget, hend⟩ := Disk.perform_bind_eq_ok hrest
          cases hget
          cases hend
          dsimp only
          rw [Disk.perform_bind, Disk.forM_createFolders_again hfolders (.refl _)]
          rfl

/-! ## Offering -/

/-- Registers one thing after another for an extension, and hands handles over to a context. -/
def offer (id : String) (n : ContextId) : List Offering → StateM (World χ) (Except Fault Unit)
  | [] => return .ok ()
  | o :: os => do
    match ← apiPart.zoom (o.offer.register id) with
    | .error fault => return .error fault
    | .ok handle =>
      if o.isHandedOver then modify (hand n handle)
      offer id n os

theorem offer_cons (o : Offering) (os : List Offering) (w : World χ) :
    offer id n (o :: os) w = match o.offer.register id w.api with
      | (.error fault, api) => (.error fault, { w with api })
      | (.ok handle, api) =>
        offer id n os
          (if o.isHandedOver then hand n handle { w with api } else { w with api }) := by
  have hrun : offer id n (o :: os) w = (match (o.offer.register id w.api).1 with
    | .error fault => (return .error fault : StateM (World χ) (Except Fault Unit))
    | .ok handle => do
      if o.isHandedOver then modify (hand n handle)
      offer id n os) { w with api := (o.offer.register id w.api).2 } := rfl
  rw [hrun]
  cases o.offer.register id w.api with
  | mk result api =>
      cases result with
      | error fault => rfl
      | ok handle => cases o.isHandedOver <;> rfl

/-- What is offered changes only what extensions can reach, and the context. -/
theorem offer_spec (os : List Offering) (hties : w.ties n = some (id, handles)) :
    (offer id n os w).1 = (Api.offerAll id os w.api).1.1 ∧
      (offer id n os w).2.api = (Api.offerAll id os w.api).2 ∧
      (offer id n os w).2.ties n = some (id, handles ++ (Api.offerAll id os w.api).1.2) ∧
      w.SameBooks (offer id n os w).2 := by
  induction os generalizing w handles with
  | nil => exact ⟨rfl, rfl, by rwa [Api.offerAll, List.append_nil], .refl w⟩
  | cons o os ih =>
      rw [offer_cons]
      cases hregister : o.offer.register id w.api with
      | mk result api =>
          cases result with
          | error fault =>
              rw [Api.offerAll_cons_error hregister]
              exact ⟨rfl, rfl, by rwa [List.append_nil], ⟨rfl, rfl, rfl, rfl⟩, rfl, rfl⟩
          | ok handle =>
              rw [Api.offerAll_cons_ok hregister]
              have hregistered : ties n { w with api } = some (id, handles) := hties
              have hsame : w.SameBooks { w with api } := ⟨⟨rfl, rfl, rfl, rfl⟩, rfl, rfl⟩
              cases o.isHandedOver with
              | false =>
                  obtain ⟨hresult, hapi, hties', hbooks⟩ := ih hregistered
                  exact ⟨hresult, hapi, hties', hsame.trans hbooks⟩
              | true =>
                  have hhanded : w.SameBooks (hand n handle { w with api }) :=
                    ⟨⟨rfl, rfl, rfl, rfl⟩, rfl, rfl⟩
                  have hhand := ties_hand hregistered handle n
                  rw [if_pos rfl] at hhand
                  obtain ⟨hresult, hapi, hties', hbooks⟩ := ih hhand
                  rw [List.append_assoc] at hties'
                  exact ⟨hresult, hapi, hties', hhanded.trans hbooks⟩

end World

/-! ## Entry modules -/

/-- An entry module that offers a fixed list of things when it is activated, gives up at the first
one that cannot be registered, and does nothing to the host when it is deactivated. -/
structure Module.Offers (entry : Module χ) (id : String) (os : List Offering) (exports : Json) :
    Prop where
  builds : entry.builds = true
  succeeds : ∀ n w w', World.offer id n os w = (.ok (), w') →
    (entry.activate n).alone w = some (.returned exports, w')
  fails : ∀ n w w' fault, World.offer id n os w = (.error fault, w') →
    ∃ failure, (entry.activate n).alone w = some (.failed failure, w')
  deactivate : ∀ w, ∃ outcome w', entry.deactivate.alone w = some (outcome, w') ∧
    w'.api = w.api ∧ w'.host = w.host ∧ w'.disk = w.disk

/-- What an extension exports whose entry module offers things. -/
def Offering.exported (id : String) (os : List Offering) (exports : Json) (api : Api) : Json :=
  if (Api.offerAll id os api).1.1.isOk then exports else .null

namespace World

/-- An extension can be activated: it is loaded with an entry module and inactive, nobody is busy
with it, it is not refused, and a context can be made. -/
structure Ready (id : String) (force : Bool) (e : Extension) (w : World χ) : Prop where
  record : w.host.find? id = some e
  inactive : e.isActive = false
  hasMain : e.manifest.main.isSome = true
  allowed : force = true ∨ w.host.isDisabled id = false
  free : w.host.queues[e.queue]? = some []
  room : (makeContext id e.path w).1.isSome = true

/-- What an activation has done. -/
structure Activated (id : String) (os : List Offering) (exports : Json) (e : Extension)
    (n : ContextId) (w w' : World χ) : Prop where
  api : w'.api = (Api.offerAll id os w.api).2
  ties : w'.ties n = some (id, (Api.offerAll id os w.api).1.2)
  record : w'.host.find? id = some { e with
    isActive := true, exports := Offering.exported id os exports w.api, hasModule := true,
    context := some n }
  queues : w'.host.queues = w.host.queues
  disabled : w'.host.disabled = w.host.disabled
  room : (makeContext id e.path w').1.isSome = true

variable {entry : Module χ} {exports : Json}

theorem enter_offers (hentry : code.entry id = some entry) (hoffers : entry.Offers id os exports)
    {manifest : Manifest} (hmain : manifest.main.isSome = true)
    (hties : w.ties n = some (id, [])) : (enter code id manifest n).alone w =
      some ((Offering.exported id os exports w.api, true), (offer id n os w).2) := by
  obtain ⟨main, hmain⟩ := Option.isSome_iff_exists.mp hmain
  have hbuild : manifest.main.map (build code id) = some (.ok entry) := by
    simp [hmain, build, hentry, hoffers.builds]
  have hresult := (offer_spec os hties).1
  simp only [enter, hbuild]
  cases hoffered : offer id n os w with
  | mk result w' =>
      rw [hoffered] at hresult
      dsimp only at hresult
      have hexported : Offering.exported id os exports w.api =
          if result.isOk then exports else .null := by rw [hresult, Offering.exported]
      cases result with
      | error fault =>
          obtain ⟨failure, hrun⟩ := hoffers.fails n w w' fault hoffered
          rw [Flow.bind_eq, Flow.alone_bind, hrun, hexported]
          rfl
      | ok _ =>
          rw [Flow.bind_eq, Flow.alone_bind, hoffers.succeeds n w w' hoffered, hexported]
          rfl

/-- The world in which an extension has become active and the user interface has been told. -/
def shown (id : String) (exports : Json) (n : ContextId) (w : World χ) : World χ :=
  (emit [.extensionsChanged] (hostPart.modify (fun h => h.modify id fun e =>
    { e with isActive := true, exports, hasModule := true, context := some n }) w)).2

theorem activateInTurn_offers (hentry : code.entry id = some entry)
    (hoffers : entry.Offers id os exports) (hrecord : w.host.find? id = some e)
    (hinactive : e.isActive = false) (hmain : e.manifest.main.isSome = true)
    (hmake : (makeContext id e.path w).1 = some n) :
    (activateInTurn code id e.path e.manifest).alone w = some (true,
      shown id (Offering.exported id os exports w.api) n
        (offer id n os (makeContext id e.path w).2).2) := by
  obtain ⟨hapi, hextensions, hties⟩ := makeContext_cases hmake
  have hnew : (makeContext id e.path w).2.ties n = some (id, []) := (hties n).trans (if_pos rfl)
  have henter := enter_offers hentry hoffers hmain hnew
  have hbooks := (offer_spec os hnew).2.2.2
  have hloaded : (offer id n os (makeContext id e.path w).2).2.host.find? id = some e := by
    rw [Host.find?, hbooks.extensions, hextensions]
    exact hrecord
  simp only [activateInTurn, Flow.bind_eq, Flow.alone_pause_bind, Flow.alone_read_bind, hrecord,
    hinactive, Bool.false_eq_true, if_false, Flow.alone_sync_bind, hmake]
  rw [Flow.alone_bind, henter, Option.bind_some]
  simp only [Flow.alone_pause_bind, Flow.alone_sync_bind, zoom_becomeActive hloaded, hapi]
  rfl

/-- An activation registers what can be registered, and the extension is active. -/
theorem activate_offers (hentry : code.entry id = some entry)
    (hoffers : entry.Offers id os exports) {force : Bool} (hready : w.Ready id force e) :
    ∃ n w', (activate code id force).alone w = some (true, w') ∧
      Activated id os exports e n w w' := by
  obtain ⟨hrecord, hinactive, hmain, hallowed, hfree, hroom⟩ := hready
  have hroom₀ : (makeContext id e.path (w.ticketed e.queue)).1.isSome = true :=
    (makeContext_fst id e.path _).mpr ((makeContext_fst id e.path w).mp hroom)
  obtain ⟨n, hmake⟩ := Option.isSome_iff_exists.mp hroom₀
  have hrecord₀ : (w.ticketed e.queue).host.find? id = some e := hrecord
  have hbody := activateInTurn_offers hentry hoffers hrecord₀ hinactive hmain hmake
  have hrun : (activate code id force).alone w =
      (inTurn e.queue (activateInTurn code id e.path e.manifest)).alone w := by
    have hgo : (!force && w.host.isDisabled id) = false := by
      rcases hallowed with hforce | hdisabled
      · simp [hforce]
      · simp [hdisabled]
    simp only [activate, Flow.bind_eq, Flow.alone_pause_bind, Flow.alone_read_bind, hrecord,
      hinactive, Bool.false_eq_true, if_false, hgo]
  refine ⟨n, _, hrun.trans (inTurn_alone hfree hbody), ?_⟩
  obtain ⟨hapi, hextensions, hties⟩ := makeContext_cases hmake
  have hnew : (makeContext id e.path (w.ticketed e.queue)).2.ties n = some (id, []) :=
    (hties n).trans (if_pos rfl)
  obtain ⟨-, hoffered, htied, hbooks⟩ := offer_spec os hnew
  obtain ⟨hmade, hlayout⟩ := sameHost_makeContext id e.path (w.ticketed e.queue)
  rw [hapi] at hoffered htied
  have hextensions' := hbooks.extensions.trans hextensions
  generalize (offer id n os (makeContext id e.path (w.ticketed e.queue)).2).2 = t at *
  have hloaded : t.host.find? id = some e := by
    rw [Host.find?, hextensions']
    exact hrecord
  refine ⟨hoffered, htied, ?_, queues_released hfree (hbooks.queues.trans hmade.queues),
    hbooks.disabled.trans hmade.disabled, ?_⟩
  · have hrecord := Host.find?_modify t.host id id fun e => { e with
      isActive := true, exports := Offering.exported id os exports w.api, hasModule := true,
      context := some n }
    rw [if_pos rfl, hloaded] at hrecord
    exact hrecord
  · exact makeContext_again hroom₀ hbooks.disk (hbooks.layout.trans hlayout)

/-! ## Deactivating -/

/-- Handles that run no code are undone without a trace elsewhere. -/
theorem disposeAll_codeless (code : Code χ) {first : HandleId} (h : w.api.CodelessFrom first)
    (hall : ∀ handle ∈ handles, first ≤ handle) :
    (disposeAll code handles w).2.api = w.api.disposeEach handles ∧
      (disposeAll code handles w).2.host = w.host ∧
      (disposeAll code handles w).2.disk = w.disk := by
  induction handles generalizing w with
  | nil => exact ⟨rfl, rfl, rfl⟩
  | cons handle handles ih =>
      obtain ⟨hhandle, hrest⟩ := List.forall_mem_cons.mp hall
      have hbegun : (dispose code handle w).2 = w.begun handle := by
        rw [dispose_snd]
        cases hcode : (w.api.dispose handle).1.code with
        | none => rfl
        | some callback => exact absurd (Api.dispose_code hcode) (h handle hhandle callback)
      rw [disposeAll_cons, hbegun]
      have hnext : (w.begun handle).api.CodelessFrom first := h.dispose handle
      exact ih hnext hrest

/-- What a deactivation has done. -/
structure Deactivated (id : String) (handles : List HandleId) (e : Extension) (w w' : World χ) :
    Prop where
  api : w'.api = ((w.api.disposeEach handles.reverse).release id).2
  record : w'.host.find? id = some { e with
    isActive := false, exports := .null, hasModule := false, context := none }
  queues : w'.host.queues = w.host.queues
  disabled : w'.host.disabled = w.host.disabled
  layout : w'.host.layout = w.host.layout
  disk : w'.disk = w.disk

/-- The world in which an extension has become inactive. -/
def retired (id : String) (w : World χ) : World χ :=
  hostPart.modify (fun h => h.modify id fun e => { e with
    isActive := false, exports := .null, hasModule := false, context := none }) w

/-- The world in which an extension has been cleared away behind its deactivation. -/
def cleared (id : String) (w : World χ) : World χ :=
  (release id (hostPart.zoom (fun h => h.killProcesses fun owner => owner == id) w).2).2

theorem api_cleared (id : String) (w : World χ) :
    (w.cleared id).api = (w.api.release id).2 := rfl

theorem sameBooks_cleared (id : String) (w : World χ) : w.SameBooks (w.cleared id) :=
  ⟨⟨rfl, rfl, rfl, rfl⟩, rfl, rfl⟩

theorem leave_offers (hentry : code.entry id = some entry) {outcome : Outcome Unit}
    (h : entry.deactivate.alone w = some (outcome, w')) :
    (leave code id true).alone w = some ((), w') := by
  simp only [leave, if_pos, hentry, Flow.bind_eq]
  rw [Flow.alone_bind, h]
  rfl

/-- The world behind the undoing of the handles of a context. -/
theorem disposeContext_codeless (code : Code χ) {first : HandleId}
    (hties : w.ties n = some (id, handles)) (hcodeless : w.api.CodelessFrom first)
    (hall : ∀ handle ∈ handles, first ≤ handle) :
    (disposeContext code n w).2.api = w.api.disposeEach handles.reverse ∧
      w.SameBooks (disposeContext code n w).2 := by
  have hdrained : (w.drained n).api.CodelessFrom first := hcodeless
  obtain ⟨hapi, hhost, hdisk⟩ := disposeAll_codeless code hdrained fun handle hmem =>
    hall handle (List.mem_reverse.mp hmem)
  rw [disposeContext_snd code hties]
  refine ⟨hapi, ⟨?_, ?_, ?_, ?_⟩, ?_, hdisk⟩
  · exact (congrArg Host.extensions hhost :)
  · exact (congrArg Host.disabled hhost :)
  · exact (congrArg Host.queues hhost :)
  · exact (congrArg Host.tickets hhost :)
  · exact (congrArg Host.layout hhost :)

section Deactivating

variable (hentry : code.entry id = some entry) (hoffers : entry.Offers id os exports)
  {first : HandleId} (hrecord : w.host.find? id = some e) (hactive : e.isActive = true)
  (hmodule : e.hasModule = true) (hcontext : e.context = some n)
  (hties : w.ties n = some (id, handles)) (hcodeless : w.api.CodelessFrom first)
  (hall : ∀ handle ∈ handles, first ≤ handle)

include hentry hoffers hrecord hactive hmodule hcontext hties hcodeless hall

theorem deactivateInTurn_offers : ∃ w', (deactivateInTurn code id).alone w = some ((), w') ∧
    Deactivated id handles e w w' := by
  have hbecome : hostPart.zoom (becomeInactive id) w = (some (true, some n), w.retired id) := by
    rw [zoom_becomeInactive hrecord hactive, hmodule, hcontext]
    rfl
  have hinactive := Host.find?_modify w.host id id fun e => { e with
    isActive := false, exports := .null, hasModule := false, context := none }
  rw [if_pos rfl, hrecord] at hinactive
  obtain ⟨outcome, t, htold, hapi, hhost, hdisk⟩ := hoffers.deactivate (w.retired id)
  have htied : t.ties n = some (id, handles) := by
    rw [ties, hhost]
    exact hties
  have hcodeless' : t.api.CodelessFrom first := hapi ▸ hcodeless
  obtain ⟨hdisposed, hbooks⟩ := disposeContext_codeless code htied hcodeless' hall
  simp only [deactivateInTurn, Flow.bind_eq, Flow.alone_pause_bind, Flow.alone_sync_bind, hbecome]
  rw [Flow.alone_bind, leave_offers hentry htold, Option.bind_some]
  have hafter := hbooks.trans (sameBooks_cleared id (disposeContext code n t).2)
  refine ⟨(disposeContext code n t).2.cleared id, rfl, ?_, ?_, ?_, ?_, ?_, ?_⟩
  · rw [api_cleared, hdisposed, hapi]
    rfl
  · rw [Host.find?, hafter.extensions, hhost]
    exact hinactive
  · exact hafter.queues.trans (congrArg Host.queues hhost :)
  · exact hafter.disabled.trans (congrArg Host.disabled hhost :)
  · exact hafter.layout.trans (congrArg Host.layout hhost :)
  · exact hafter.disk.trans hdisk

theorem deactivate_offers (hfree : w.host.queues[e.queue]? = some []) :
    ∃ w', (deactivate code id).alone w = some (.ok (), w') ∧ Deactivated id handles e w w' := by
  obtain ⟨t, hbody, hapi, hinactive, hqueues, hdisabled, hlayout, hdisk⟩ :=
    deactivateInTurn_offers (w := w.ticketed e.queue) hentry hoffers hrecord hactive hmodule
      hcontext hties hcodeless hall
  refine ⟨t.released e.queue w.host.tickets, ?_, hapi, hinactive,
    queues_released hfree hqueues, hdisabled, hlayout, hdisk⟩
  simp only [deactivate, Flow.bind_eq, Flow.alone_pause_bind, Flow.alone_read_bind, hrecord]
  rw [Flow.alone_bind, inTurn_alone hfree hbody]
  rfl

end Deactivating

/-! ## Activating again -/

/-- What an extension exports at the moment, if it is loaded. -/
def exports? (id : String) (w : World χ) : Option Json := (w.host.find? id).map Extension.exports

/-- What has been activated can be deactivated, and then activated again. -/
theorem deactivate_activated (hentry : code.entry id = some entry)
    (hoffers : entry.Offers id os exports) {force : Bool} (hready : w.Ready id force e)
    (h : Activated id os exports e n w w') :
    ∃ w'', (deactivate code id).alone w' = some (.ok (), w'') ∧ w''.api = w.api.round id os ∧
      w''.Ready id force { e with
        isActive := false, exports := .null, hasModule := false, context := none } := by
  have hcodeless : w'.api.CodelessFrom w.api.handles.length := by
    rw [h.api]
    exact w.api.codelessFrom_length.offerAll id os
  have hfree : w'.host.queues[e.queue]? = some [] := h.queues ▸ hready.free
  obtain ⟨w'', hdeactivate, hapi, hrecord, hqueues, hdisabled, hlayout, hdisk⟩ :=
    deactivate_offers hentry hoffers h.record rfl rfl rfl h.ties hcodeless
      (Api.le_of_mem_offerAll id os w.api) hfree
  refine ⟨w'', hdeactivate, ?_, hrecord, rfl, hready.hasMain, ?_, ?_, ?_⟩
  · rw [hapi, h.api]
    rfl
  · rw [Host.isDisabled, hdisabled, h.disabled]
    exact hready.allowed
  · rw [hqueues, h.queues]
    exact hready.free
  · rw [makeContext_fst, hdisk, hlayout, ← makeContext_fst]
    exact h.room

theorem Activated.exports? (h : Activated id os exports e n w w') :
    w'.exports? id = some (Offering.exported id os exports w.api) := by
  rw [World.exports?, h.record]
  rfl

open Offering (leftBehind)

/-- An extension that had nothing and can register all that it offers is activated, deactivated and
activated again.  What is left of it in between are the commands whose handles it kept.  If there
are none, it is behind the second activation as it was behind the first one; otherwise it exports
nothing and has registered, besides, what it offers in front of the first command of that kind. -/
theorem reactivate_offers (hentry : code.entry id = some entry)
    (hoffers : entry.Offers id os exports) {force : Bool} (hready : w.Ready id force e)
    (hnone : w.api.holdings id = .none) (hall : (Api.offerAll id os w.api).1.1 = .ok ()) :
    ∃ w₁ w₂ w₃, (activate code id force).alone w = some (true, w₁) ∧
      (deactivate code id).alone w₁ = some (.ok (), w₂) ∧
      (activate code id force).alone w₂ = some (true, w₃) ∧
      w₁.exports? id = some exports ∧ w₁.api.holdings id = Holdings.none.addAll id os ∧
      w₂.api.holdings id = (w₁.api.holdings id).only (leftBehind os) ∧
      (leftBehind os = [] → w₂.api.holdings id = .none ∧ w₃.exports? id = some exports ∧
        w₃.api.holdings id = w₁.api.holdings id) ∧
      (leftBehind os ≠ [] → w₂.api.holdings id ≠ .none ∧ w₃.exports? id = some .null ∧
        ∃ done rest name handler, os = done ++ ⟨.command name handler, false⟩ :: rest ∧
          leftBehind done = [] ∧
          w₃.api.holdings id = (w₂.api.holdings id).addAll id done) := by
  obtain ⟨n, w₁, hactivate, hfirst⟩ := activate_offers hentry hoffers hready
  obtain ⟨w₂, hdeactivate, hround, hready₂⟩ := deactivate_activated hentry hoffers hready hfirst
  obtain ⟨m, w₃, hactivate', hsecond⟩ := activate_offers hentry hoffers hready₂
  have hexports₁ : w₁.exports? id = some exports := by
    rw [hfirst.exports?, Offering.exported, hall]
    rfl
  have hholds₁ : w₁.api.holdings id = Holdings.none.addAll id os := by
    rw [hfirst.api, Api.holdings_offerAll hall, hnone]
  have hholds₂ : w₂.api.holdings id = (w₁.api.holdings id).only (leftBehind os) := by
    rw [hround, hfirst.api, Api.holdings_round hall hnone]
  obtain ⟨hsame, hless⟩ := Api.offerAll_round hall hnone
  rw [← hround, ← hfirst.api] at hsame
  rw [← hround] at hless
  refine ⟨w₁, w₂, w₃, hactivate, hdeactivate, hactivate', hexports₁, hholds₁, hholds₂,
    fun hnil => ?_, fun hne => ?_⟩
  · obtain ⟨hnothing, hok, hholds⟩ := hsame hnil
    refine ⟨hnothing, ?_, by rw [hsecond.api, hholds]⟩
    rw [hsecond.exports?, Offering.exported, hok]
    rfl
  · obtain ⟨hsomething, done, rest, name, handler, hos, hleft, herror, hholds⟩ := hless hne
    refine ⟨hsomething, ?_, done, rest, name, handler, hos, hleft, by rw [hsecond.api, hholds]⟩
    rw [hsecond.exports?, Offering.exported, herror]
    rfl

end World

/-! ## A small extension -/

/-- An entry module that offers things. -/
def Module.offering (id : String) (os : List Offering) (exports : Json) : Module χ where
  activate n := .sync do
    match ← World.offer id n os with
    | .ok () => return .returned exports
    | .error fault => return .failed ⟨fault.message, []⟩
  deactivate := .done (.returned ())

theorem Module.alone_offering (id : String) (os : List Offering) (exports : Json) (n : ContextId)
    (w : World χ) : ((Module.offering id os exports).activate n).alone w =
      some ((match (World.offer id n os w).1 with
        | .ok () => return .returned exports
        | .error fault => return .failed ⟨fault.message, []⟩ : StateM (World χ) (Outcome Json))
        (World.offer id n os w).2) := rfl

theorem Module.offers_offering (id : String) (os : List Offering) (exports : Json) :
    (Module.offering id os exports : Module χ).Offers id os exports where
  builds := rfl
  succeeds n w w' h := by
    rw [alone_offering, h]
    rfl
  fails n w w' fault h := by
    refine ⟨⟨fault.message, []⟩, ?_⟩
    rw [alone_offering, h]
    rfl
  deactivate w := ⟨_, w, rfl, rfl, rfl, rfl⟩

/-- Code of extensions that all offer the same things. -/
def Code.offering (id : String) (os : List Offering) (exports : Json) : Code χ :=
  { Code.idle with entry := fun _ => some (.offering id os exports) }

theorem World.ready_ofExtensions (force : Bool) : ∃ e,
    (World.ofExtensions () ["me.py"]).Ready "me.py" force e := by
  refine ⟨_, rfl, rfl, rfl, .inr rfl, rfl, ?_⟩
  decide +kernel

/-- A command, a provider and a status bar item; the handle of the command is handed over. -/
def tidyOffers : List Offering :=
  [⟨.command "go" 0, true⟩, ⟨.provider .hover .any 1 [], false⟩, ⟨.item .left 0, false⟩]

/-- An extension that hands over the handle of its command is activated again as it was. -/
theorem World.reactivate_offers_tidy : ∃ w₁ w₂ w₃ : World Unit,
    (activate (Code.offering "me.py" tidyOffers (.text "ready")) "me.py" true).alone
      (ofExtensions () ["me.py"]) = some (true, w₁) ∧
    (deactivate (Code.offering "me.py" tidyOffers (.text "ready")) "me.py").alone w₁ =
      some (.ok (), w₂) ∧
    (activate (Code.offering "me.py" tidyOffers (.text "ready")) "me.py" true).alone w₂ =
      some (true, w₃) ∧
    w₂.api.holdings "me.py" = .none ∧ w₃.exports? "me.py" = some (.text "ready") ∧
    w₃.api.holdings "me.py" = w₁.api.holdings "me.py" := by
  obtain ⟨e, hready⟩ := ready_ofExtensions true
  have hall : (Api.offerAll "me.py" tidyOffers (ofExtensions () ["me.py"]).api).1.1 = .ok () := rfl
  have hentry : (Code.offering "me.py" tidyOffers (.text "ready") : Code Unit).entry "me.py" =
      some (.offering "me.py" tidyOffers (.text "ready")) := rfl
  obtain ⟨w₁, w₂, w₃, hfirst, hleft, hagain, -, -, -, hsame, -⟩ := reactivate_offers hentry
    (Module.offers_offering "me.py" tidyOffers (.text "ready")) hready rfl hall
  exact ⟨w₁, w₂, w₃, hfirst, hleft, hagain, hsame rfl⟩

/-- What the extension exports, and whether its command is there, when it has been activated, when
it has been deactivated behind that, and when it has been activated again. -/
def reactivated (os : List Offering) : Option (List (Option Json × Bool)) := do
  let code : Code Unit := Code.offering "me.py" os (.text "ready")
  let (_, w₁) ← (World.activate code "me.py" true).alone (World.ofExtensions () ["me.py"])
  let (_, w₂) ← (World.deactivate code "me.py").alone w₁
  let (_, w₃) ← (World.activate code "me.py" true).alone w₂
  return [w₁, w₂, w₃].map fun w => (w.exports? "me.py", w.api.commands.entries.has "go")

/-- A command whose handle is kept stays, and its name is taken when the extension is activated
again. -/
theorem reactivated_kept : reactivated [⟨.command "go" 0, false⟩] =
    some [(some (.text "ready"), true), (some .null, true), (some .null, true)] := by
  decide +kernel

end EditorHost
