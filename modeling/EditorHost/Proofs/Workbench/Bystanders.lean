import EditorHost.Proofs.Guarantee
import EditorHost.Proofs.Rpc.ClientCalls
import EditorHost.Workbench

/-!
# Work that leaves documents alone

Opening a document sets much other work going: listeners are told, extensions are activated, and a
language server is started.  None of it changes which documents there are on either side, and what
they are, as long as the code of the extensions does not (`Code.SparesDocuments`).
-/

namespace EditorHost

open Rpc (Client)

variable {χ : Type}

/-- The language servers' side has the documents that it had. -/
def Rpc.Client.SameDocuments (c c' : Client) : Prop := c'.documents = c.documents

theorem Rpc.Client.SameDocuments.refl (c : Client) : SameDocuments c c := rfl

/-- Both sides have the documents that they had. -/
structure World.SameDocuments (w w' : World χ) : Prop where
  editor : w'.api.documents = w.api.documents
  servers : w'.client.documents = w.client.documents

/-- Code of extensions that leaves it to the editor to open, change and close documents. -/
structure Code.SparesDocuments (code : Code χ) : Prop where
  listener : ∀ callback notice, Keeps World.SameDocuments (code.listener callback notice)
  undo : ∀ callback, Keeps World.SameDocuments (code.undo callback)
  activate : ∀ id entry, code.entry id = some entry →
    ∀ context, (entry.activate context).Within World.SameDocuments

namespace World

theorem SameDocuments.refl (w : World χ) : SameDocuments w w := ⟨rfl, rfl⟩

theorem SameDocuments.trans (w₁ w₂ w₃ : World χ) (h : SameDocuments w₁ w₂)
    (h' : SameDocuments w₂ w₃) : SameDocuments w₁ w₃ :=
  ⟨h'.editor.trans h.editor, h'.servers.trans h.servers⟩

/-! ## Parts of a world -/

theorem keeps_apiPart {α : Type} {run : StateM Api α}
    (h : ∀ api, (run api).2.documents = api.documents) :
    Keeps SameDocuments (apiPart.zoom run : StateM (World χ) α) :=
  fun w => ⟨h w.api, rfl⟩

theorem keeps_hostPart {α : Type} (run : StateM Host α) :
    Keeps SameDocuments (hostPart.zoom run : StateM (World χ) α) :=
  fun _ => ⟨rfl, rfl⟩

theorem keeps_emit (events : List Event) :
    Keeps SameDocuments (emit events : StateM (World χ) Unit) :=
  fun _ => ⟨rfl, rfl⟩

theorem within_pause : (Flow.pause : Flow (World χ) Unit).Within SameDocuments := fun _ => trivial

theorem within_readWorld {α : Type} (view : World χ → α) :
    (Flow.read view).Within SameDocuments :=
  Flow.within_read SameDocuments.refl view

/-! ## Handles and listeners -/

theorem documents_changeCollection (api : Api) (id : Nat)
    (change : DiagnosticCollection → List Event × DiagnosticCollection) :
    (api.changeCollection id change).2.documents = api.documents := by
  unfold Api.changeCollection
  split <;> rfl

theorem documents_dispose (api : Api) (handle : HandleId) :
    (api.dispose handle).2.documents = api.documents := by
  unfold Api.dispose
  split
  · rfl
  next action h =>
    cases action with
    | collection id => exact documents_changeCollection _ id _
    | code callback => rfl
    | listener id => rfl
    | command name token => rfl
    | registration id => rfl
    | statusItem id => rfl

variable {code : Code χ} (hcode : code.SparesDocuments)

include hcode

theorem keeps_tell (notice : Notice) : Keeps SameDocuments (tell code notice) := fun w =>
  Keeps.loop SameDocuments.refl SameDocuments.trans (w.api.listeners.callbacks notice.topic)
    (fun callback => hcode.listener callback notice) w

theorem keeps_dispose (handle : HandleId) : Keeps SameDocuments (dispose code handle) := by
  refine (keeps_apiPart fun api => documents_dispose api handle).bind SameDocuments.trans
    fun disposal => (keeps_emit disposal.events).bind SameDocuments.trans fun _ => ?_
  cases disposal.code with
  | none => exact .pure SameDocuments.refl _
  | some callback =>
      exact (hcode.undo callback).bind SameDocuments.trans fun _ => .pure SameDocuments.refl _

theorem keeps_disposeContext (context : ContextId) :
    Keeps SameDocuments (disposeContext code context) :=
  (keeps_hostPart ((Host.context context).zoom Context.drain)).bind SameDocuments.trans
    fun handles => .bind SameDocuments.trans
      (.loop SameDocuments.refl SameDocuments.trans handles (keeps_dispose hcode))
      fun _ => keeps_hostPart ((Host.context context).zoom fun c => ((), c.giveUp))

/-! ## Activations -/

omit hcode in
theorem keeps_makeContext (id : String) (path : Path) :
    Keeps SameDocuments (makeContext id path : StateM (World χ) (Option ContextId)) := by
  intro w
  unfold makeContext
  split <;> exact ⟨rfl, rfl⟩

theorem within_enter (id : String) (manifest : Manifest) (context : ContextId) :
    (enter code id manifest context).Within SameDocuments := by
  unfold enter
  split
  next entry hbuild =>
    -- What was built for the extension is what the code gives as its entry module.
    have hentry : code.entry id = some entry := by
      obtain ⟨main, -, hmain⟩ := Option.map_eq_some_iff.mp hbuild
      unfold build at hmain
      split at hmain
      · cases hmain
      next hsome =>
        split at hmain <;> cases hmain
        exact hsome
    exact (hcode.activate id entry hentry context).bind fun _ => trivial
  · trivial

theorem within_activateInTurn (id : String) (path : Path) (manifest : Manifest) :
    (activateInTurn code id path manifest).Within SameDocuments := by
  refine within_pause.bind fun _ => (within_readWorld _).bind fun loaded => ?_
  cases loaded with
  | none => trivial
  | some e =>
      dsimp only
      split
      · trivial
      · refine (Flow.within_sync (keeps_makeContext id path)).bind fun made => ?_
        cases made with
        | none => trivial
        | some context =>
            refine (within_enter hcode id manifest context).bind fun result => ?_
            refine within_pause.bind fun _ =>
              (Flow.within_sync (keeps_hostPart _)).bind fun stillLoaded => ?_
            split
            · exact (Flow.within_sync (keeps_emit _)).bind fun _ => trivial
            · exact (Flow.within_sync (keeps_disposeContext hcode context)).bind fun _ => trivial

theorem within_activate (id : String) (force : Bool) :
    (activate code id force).Within SameDocuments := by
  refine within_pause.bind fun _ => (within_readWorld _).bind fun ⟨loaded, isDisabled⟩ => ?_
  cases loaded with
  | none => trivial
  | some e =>
      dsimp only
      split
      · trivial
      split
      · trivial
      · refine (Flow.within_sync (keeps_hostPart _)).bind fun ticket => ?_
        have hwait : (Flow.untilReady fun w : World χ =>
            w.host.isTurnOf e.queue ticket).Within SameDocuments := fun _ => trivial
        refine hwait.bind fun _ => (within_activateInTurn hcode id e.path e.manifest).bind ?_
        exact fun _ => (Flow.within_sync (keeps_hostPart _)).bind fun _ => trivial

theorem within_activateByEvent (event : String) :
    (activateByEvent code event).Within SameDocuments := by
  refine within_pause.bind fun _ => (within_readWorld _).bind fun ids => ?_
  split
  · trivial
  · refine (Flow.within_sync (keeps_hostPart _)).bind fun join => ?_
    have hone (id : String) : (Flow.start .joined do
        let active ← activate code id false
        Flow.sync (hostPart.zoom (noteJoined join id active))).Within SameDocuments := by
      apply Flow.Within.start
      exact (within_activate hcode id false).bind fun _ => Flow.within_sync (keeps_hostPart _)
    refine (Flow.Within.each fun id _ => hone id).bind fun _ => ?_
    have hwait : (Flow.untilReady fun w : World χ =>
        (joinedResults join w).length == ids.length).Within SameDocuments := fun _ => trivial
    exact hwait.bind fun _ => (within_readWorld _).bind fun _ => trivial

omit hcode

/-! ## The start of a language server -/

theorem within_clientPart {α : Type} {flow : Flow Client α}
    (h : flow.Within Client.SameDocuments) :
    (flow.focus clientPart : Flow (World χ) α).Within SameDocuments :=
  h.focus fun _ _ hdocuments => ⟨rfl, hdocuments⟩

theorem documents_launch (c : Client) (language : String) :
    Client.SameDocuments c (c.launch language).2 := by
  unfold Client.launch
  split
  · rfl
  · split <;> rfl

theorem within_pauseClient : (Flow.pause : Flow Client Unit).Within Client.SameDocuments :=
  fun _ => trivial

theorem within_startServer (language : String) :
    (Client.startServer language).Within Client.SameDocuments :=
  Client.within_startServer (fun _ _ _ h => h.documents) (fun language c =>
    documents_launch c language) language

theorem within_ensureServer (language : String) :
    (ensureServer language : Flow (World χ) Unit).Within SameDocuments := by
  refine within_pause.bind fun _ => (within_readWorld _).bind fun needed => ?_
  split
  · exact (within_clientPart (within_startServer language)).start .background
  · trivial

end World

end EditorHost
