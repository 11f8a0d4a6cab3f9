import EditorHost.Proofs.Purpose
import EditorHost.Proofs.Workbench.Bystanders
import EditorHost.Proofs.Workbench.Store

/-!
# Calls that open, change and close documents

Every such call takes effect twice: in its first turn on the editor's side, where extensions see the
document, and some time later on the side of the language servers.  Both effects are the same
function of what the side had before (`DocumentCall.onDocument`), and there is no other
(`DocumentCall.once_serverPart`, `DocumentCall.first_turn`).

Opening a document waits between the two effects until the extensions for its language are active,
which takes as long as their code takes.
-/

namespace EditorHost

open Rpc (Client)

variable {χ : Type}

/-- What both sides have of a document. -/
structure OpenText where
  language : String
  text : String
  deriving DecidableEq, Repr

def OpenText.ofDocument (d : Document) : OpenText := ⟨d.language, d.text⟩

/-- What the language servers' side has of a document. -/
def Rpc.Client.content (c : Client) (uri : String) : Option OpenText :=
  (c.documents.find? uri).map fun d => ⟨d.language, d.text⟩

namespace World

/-- A document as extensions see it. -/
def editorSide (w : World χ) (uri : String) : Option OpenText :=
  (w.api.documents.get? uri).map OpenText.ofDocument

/-- A document as language servers are told of it. -/
def serverSide (w : World χ) (uri : String) : Option OpenText := w.client.content uri

/-- Both sides track a document, with the same language and text, or neither does. -/
structure Agrees (w : World χ) (uri : String) : Prop where
  tracked : (w.client.documents.find? uri).isSome ↔ (w.api.documents.find? uri).isSome
  content : w.editorSide uri = w.serverSide uri

theorem SameDocuments.editorSide {w w' : World χ} (h : SameDocuments w w') (uri : String) :
    w'.editorSide uri = w.editorSide uri := by
  rw [World.editorSide, World.editorSide, h.editor]

theorem SameDocuments.serverSide {w w' : World χ} (h : SameDocuments w w') (uri : String) :
    w'.serverSide uri = w.serverSide uri := by
  rw [World.serverSide, World.serverSide, Client.content, Client.content, h.servers]

end World

/-- What the editor does with documents. -/
inductive DocumentCall where
  | didOpen (uri language text : String) (version : Int)
  | didChange (uri : String) (changes : List ContentChange) (text : String)
  | didClose (uri : String)

namespace DocumentCall

open World (SameDocuments)

/-- The document that a call is about. -/
def uri : DocumentCall → String
  | didOpen uri _ _ _ => uri
  | didChange uri _ _ => uri
  | didClose uri => uri

def flow (code : Code χ) : DocumentCall → Flow (World χ) Unit
  | didOpen uri language text version =>
    (World.didOpen code uri language text version).bind fun _ => .done ()
  | didChange uri changes text => (World.didChange code uri changes text).bind fun _ => .done ()
  | didClose uri => (World.didClose code uri).bind fun _ => .done ()

/-- What a call makes of its document. -/
def onDocument : DocumentCall → Option OpenText → Option OpenText
  | didOpen _ language text _, _ => some ⟨language, text⟩
  | didChange _ _ text, content => content.map fun c => { c with text }
  | didClose _, _ => none

/-- The call takes effect on the editor's side. -/
structure OnEditor (call : DocumentCall) (w w' : World χ) : Prop where
  servers : w'.client.documents = w.client.documents
  named : w'.api.documents.Named
  document : w'.editorSide call.uri = call.onDocument (w.editorSide call.uri)
  others : ∀ uri, uri ≠ call.uri → w'.editorSide uri = w.editorSide uri

/-- The call takes effect on the client of the language servers. -/
structure OnClient (call : DocumentCall) (c c' : Client) : Prop where
  document : c'.content call.uri = call.onDocument (c.content call.uri)
  others : ∀ uri, uri ≠ call.uri → c'.content uri = c.content uri

/-- The call takes effect on the side of the language servers. -/
structure OnServers (call : DocumentCall) (w w' : World χ) : Prop where
  editor : w'.api.documents = w.api.documents
  client : call.OnClient w.client w'.client

variable {call : DocumentCall}

theorem OnEditor.behind (w₁ w₂ w₃ : World χ) (h : call.OnEditor w₁ w₂)
    (h' : SameDocuments w₂ w₃) : call.OnEditor w₁ w₃ where
  servers := h'.servers.trans h.servers
  named := h'.editor ▸ h.named
  document := (h'.editorSide call.uri).trans h.document
  others uri huri := (h'.editorSide uri).trans (h.others uri huri)

theorem OnServers.before (w₁ w₂ w₃ : World χ) (h : SameDocuments w₁ w₂)
    (h' : call.OnServers w₂ w₃) : call.OnServers w₁ w₃ := by
  have hsame (uri : String) : w₂.client.content uri = w₁.client.content uri := h.serverSide uri
  refine ⟨h'.editor.trans h.editor, ?_, fun uri huri => ?_⟩
  · rw [h'.client.document, hsame]
  · rw [h'.client.others uri huri, hsame]

theorem OnServers.behind (w₁ w₂ w₃ : World χ) (h : call.OnServers w₁ w₂)
    (h' : SameDocuments w₂ w₃) : call.OnServers w₁ w₃ := by
  have hsame (uri : String) : w₃.client.content uri = w₂.client.content uri := h'.serverSide uri
  refine ⟨h'.editor.trans h.editor, ?_, fun uri huri => ?_⟩
  · rw [hsame, h.client.document]
  · rw [hsame, h.client.others uri huri]

/-! ## The side of the language servers -/

theorem keeps_notify (id : Client → Option Rpc.ServerId) (method : String) (params : Json) :
    Keeps Client.SameDocuments fun c => ((), c.notify (id c) method params) := by
  intro c
  dsimp only [Client.notify]
  split
  · exact .refl _
  · exact .refl _

/-- Telling a server something, in a stretch of its own, changes no documents. -/
theorem within_notify (id : Client → Option Rpc.ServerId) (method : String) (params : Json) :
    (Flow.pause.bind fun _ => Flow.sync fun c =>
      ((), c.notify (id c) method params)).Within Client.SameDocuments :=
  World.within_pauseClient.bind fun _ => Flow.within_sync (keeps_notify id method params)

theorem track_eq (c : Client) (uri language text : String) :
    ∃ previous version, c.track uri language text = ((previous, ⟨language, version, text⟩),
      { c with documents := c.documents.insert uri ⟨language, version, text⟩ }) := by
  unfold Client.track
  split
  next old _ => exact ⟨some old.language, Document.nextVersion old.version, rfl⟩
  · exact ⟨none, 1, rfl⟩

theorem once_didOpen (uri language text : String) (version : Int) :
    (Client.didOpen uri language text).Once Client.SameDocuments
      (didOpen uri language text version).OnClient := by
  apply Flow.Once.pause_bind
  apply Flow.Once.sync_bind
  intro c
  obtain ⟨previous, version', htrack⟩ := track_eq c uri language text
  rw [htrack]
  refine .inr ⟨⟨?_, fun other (hother : other ≠ uri) => ?_⟩, ?_⟩
  · simp [Client.content, onDocument, DocumentCall.uri, Table.find?_insert_self]
  · simp [Client.content, Table.find?_insert_of_ne _ _ hother]
  cases previous with
  | none => exact within_notify _ _ _
  | some previous =>
      dsimp only
      split
      · exact within_notify _ _ _
      · -- The document has moved from the server of another language.
        exact World.within_pauseClient.bind fun _ =>
          (Flow.within_sync (keeps_notify _ _ _)).bind fun _ => within_notify _ _ _

theorem once_didChange (uri : String) (changes : List ContentChange) (text : String) :
    (Client.didChange uri text).Once Client.SameDocuments
      (didChange uri changes text).OnClient := by
  apply Flow.Once.pause_bind
  apply Flow.Once.sync_bind
  intro c
  right
  cases hfind : c.documents.find? uri with
  | none =>
      have hretext : c.retext uri text = (none, c) := by
        rw [Client.retext, hfind]
      rw [hretext]
      refine ⟨⟨?_, fun _ _ => rfl⟩, trivial⟩
      simp [Client.content, onDocument, DocumentCall.uri, hfind]
  | some old =>
      have hretext : c.retext uri text =
          let d : Rpc.Synced := ⟨old.language, Document.nextVersion old.version, text⟩
          (some d, { c with documents := c.documents.insert uri d }) := by
        rw [Client.retext, hfind]
      rw [hretext]
      refine ⟨⟨?_, fun other (hother : other ≠ uri) => ?_⟩, within_notify _ _ _⟩
      · simp [Client.content, onDocument, DocumentCall.uri, Table.find?_insert_self, hfind]
      · simp [Client.content, Table.find?_insert_of_ne _ _ hother]

theorem once_didClose (uri : String) :
    (Client.didClose uri).Once Client.SameDocuments (didClose uri).OnClient := by
  apply Flow.Once.pause_bind
  apply Flow.Once.read_bind
  intro c
  cases hfind : c.documents.find? uri with
  | none =>
      -- There is nothing to forget, and the call ends here.
      refine .inr ⟨⟨?_, fun _ _ => rfl⟩, trivial⟩
      simp [Client.content, onDocument, DocumentCall.uri, hfind]
  | some d =>
      refine .inl ⟨.refl c, World.within_pauseClient.bind_once fun _ => ?_⟩
      refine (Flow.within_sync (keeps_notify _ _ _)).bind_once fun _ => ?_
      refine World.within_pauseClient.bind_once fun _ => Flow.once_sync fun c => ?_
      refine ⟨?_, fun other (hother : other ≠ uri) => ?_⟩
      · simp [Client.content, onDocument, DocumentCall.uri, Table.find?_erase_self]
      · simp [Client.content, Table.find?_erase_of_ne _ hother]

theorem once_clientPart {flow : Flow Client Unit}
    (h : flow.Once Client.SameDocuments call.OnClient) :
    (flow.focus World.clientPart : Flow (World χ) Unit).Once SameDocuments call.OnServers :=
  h.focus (fun _ _ hsame => ⟨rfl, hsame⟩) fun _ _ heffect => ⟨rfl, heffect⟩

/-- Every call changes some document of the language servers' side. -/
theorem exists_not_sameDocuments (call : DocumentCall) (w : World χ) :
    ∃ before : World χ, ∀ after, call.OnServers before after → ¬SameDocuments before after := by
  -- It is enough that the call makes something else of what there is.
  suffices h : ∃ documents : Table Rpc.Synced,
      let c : Client := { w.client with documents }
      call.onDocument (c.content call.uri) ≠ c.content call.uri by
    obtain ⟨documents, hchange⟩ := h
    refine ⟨{ w with client := { w.client with documents } }, fun after heffect hsame => ?_⟩
    have hdocument := heffect.client.document
    rw [show after.client.content call.uri = _ from hsame.serverSide call.uri] at hdocument
    exact hchange hdocument.symm
  have hget (uri : String) (d : Rpc.Synced) : Table.find? [(uri, d)] uri = some d := by
    simp [Table.find?]
  cases call with
  | didOpen uri language text version => exact ⟨[], Option.some_ne_none _⟩
  | didChange uri changes text =>
      -- No text is itself with a character more.
      refine ⟨[(uri, ⟨"", 1, text ++ "."⟩)], fun h => ?_⟩
      have htext : text = text ++ "." := by
        simpa [Client.content, hget, onDocument, DocumentCall.uri] using h
      have hlength : text.length = text.length + 1 := by
        simpa using congrArg String.length htext
      omega
  | didClose uri =>
      refine ⟨[(uri, ⟨"", 1, ""⟩)], fun h => ?_⟩
      simp [Client.content, hget, onDocument, DocumentCall.uri] at h

/-- A call that has yet to take effect on the side of the language servers is not over. -/
theorem not_within_of_once {flow : Flow (World χ) Unit} (w : World χ)
    (h : flow.Once SameDocuments call.OnServers) : ¬flow.Within SameDocuments := by
  obtain ⟨before, hbefore⟩ := call.exists_not_sameDocuments w
  exact h.not_within hbefore

/-! ## The editor's side -/

variable {code : Code χ} (hcode : code.SparesDocuments)

include hcode

theorem onEditor_openDocument {w : World χ} (h : w.api.documents.Named) (uri language text : String)
    (version : Int) : (didOpen uri language text version).OnEditor w
      (World.openDocument code uri language text version w).2 := by
  have hopened : (didOpen uri language text version).OnEditor w
      (World.apiPart.zoom (fun api => api.openDocument uri language text version) w).2 := by
    have hget := h.get?_openDocument uri language text version
    refine ⟨rfl, h.openDocument uri language text version, ?_, fun other hother => ?_⟩
    · exact congrArg (Option.map OpenText.ofDocument) ((hget uri).trans (if_pos rfl))
    · exact congrArg (Option.map OpenText.ofDocument) ((hget other).trans (if_neg hother))
  refine Keeps.behind OnEditor.behind hopened fun result => ?_
  obtain ⟨id, notice⟩ := result
  cases notice with
  | none => exact .pure SameDocuments.refl _
  | some notice =>
      exact (World.keeps_tell hcode notice).bind SameDocuments.trans fun _ =>
        .pure SameDocuments.refl _

omit hcode in
theorem changeDocument_of_none {w : World χ} {uri : String}
    (hnone : w.api.documents.find? uri = none) (changes : List ContentChange) (text : String) :
    World.changeDocument code uri changes text w = (none, w) := by
  have hchange : w.api.changeDocument uri changes text = (none, w.api) := by
    rw [Api.changeDocument, DocumentStore.change, hnone]
  simp only [World.changeDocument, Bind.bind, StateT.bind, Focus.zoom]
  simp only [World.apiPart, hchange]
  rfl

theorem onEditor_changeDocument {w : World χ} (h : w.api.documents.Named) {uri : String}
    {id : DocumentId} (hid : w.api.documents.find? uri = some id) (changes : List ContentChange)
    (text : String) :
    ∃ w', World.changeDocument code uri changes text w = (some id, w') ∧
      (didChange uri changes text).OnEditor w w' := by
  obtain ⟨notice, hchange⟩ : ∃ notice, w.api.changeDocument uri changes text =
      (some (id, notice), { w.api with documents := (w.api.documents.change uri text).2 }) := by
    rw [Api.changeDocument, DocumentStore.change, hid]
    exact ⟨_, rfl⟩
  have hchanged : (didChange uri changes text).OnEditor w
      { w with api := { w.api with documents := (w.api.documents.change uri text).2 } } := by
    have hget := h.get?_change uri text
    refine ⟨rfl, h.change uri text, ?_, fun other hother => ?_⟩
    · refine (congrArg (Option.map OpenText.ofDocument) ((hget uri).trans (if_pos rfl))).trans ?_
      show _ = ((w.api.documents.get? uri).map OpenText.ofDocument).map _
      rw [Option.map_map, Option.map_map]
      rfl
    · exact congrArg (Option.map OpenText.ofDocument) ((hget other).trans (if_neg hother))
  refine ⟨_, ?_, hchanged.behind _ _ _ (World.keeps_tell hcode notice _)⟩
  simp only [World.changeDocument, Bind.bind, StateT.bind, Focus.zoom]
  simp only [World.apiPart, hchange]
  rfl

theorem onEditor_closeDocument {w : World χ} (h : w.api.documents.Named) (uri : String) :
    (didClose uri).OnEditor w (World.closeDocument code uri w).2 := by
  have hclosed : (didClose uri).OnEditor w
      (World.apiPart.zoom (fun api => api.closeDocument uri) w).2 := by
    have hget := w.api.documents.get?_close uri
    refine ⟨rfl, h.close uri, ?_, fun other hother => ?_⟩
    · exact congrArg (Option.map OpenText.ofDocument) ((hget uri).trans (if_pos rfl))
    · exact congrArg (Option.map OpenText.ofDocument) ((hget other).trans (if_neg hother))
  refine Keeps.behind OnEditor.behind hclosed fun closed => ?_
  cases closed with
  | none => exact .pure SameDocuments.refl _
  | some document =>
      exact (World.keeps_tell hcode _).bind SameDocuments.trans fun _ =>
        .pure SameDocuments.refl _

/-! ## The first turn -/

/-- In its first turn a call takes effect on the editor's side, and then it has to on the other one;
or there is nothing to change, and the call is over. -/
theorem stretch_flow (call : DocumentCall) {w : World χ} (h : w.api.documents.Named) :
    ∃ w' rest, ((call.flow code).wake w).stretch w = ⟨w', rest, []⟩ ∧
      ((call.OnEditor w w' ∧ rest.Once SameDocuments call.OnServers) ∨
        (SameDocuments w w' ∧ rest.Within SameDocuments)) := by
  cases call with
  | didOpen uri language text version =>
      refine ⟨_, _, rfl, .inl ⟨onEditor_openDocument hcode h uri language text version, ?_⟩⟩
      -- First extensions are activated, and last servers are; the part between concerns documents.
      have hactivate := World.within_activateByEvent hcode s!"onLanguage:{language}"
      have hopen := once_clientPart (χ := χ) (once_didOpen uri language text version)
      refine Flow.Once.bind (hactivate.bind_once fun _ => hopen.bind fun _ => ?_) fun _ => trivial
      exact (World.within_ensureServer language).bind fun _ => trivial
  | didChange uri changes text =>
      have hbegin (k : Option DocumentId → Flow (World χ) Unit) :
          (((Flow.sync (World.changeDocument code uri changes text)).bind k).wake w).stretch w =
            (k (World.changeDocument code uri changes text w).1).stretch
              (World.changeDocument code uri changes text w).2 := rfl
      rw [flow, World.didChange, Flow.bind_eq, Flow.bind_assoc, hbegin]
      cases hfind : w.api.documents.find? uri with
      | none =>
          rw [changeDocument_of_none hfind changes text]
          exact ⟨w, _, rfl, .inr ⟨.refl w, trivial⟩⟩
      | some id =>
          obtain ⟨w', hchanged, heffect⟩ := onEditor_changeDocument hcode h hfind changes text
          rw [hchanged]
          refine ⟨w', _, rfl, .inl ⟨heffect, ?_⟩⟩
          have hchange := once_clientPart (χ := χ) (once_didChange uri changes text)
          refine Flow.Once.bind (hchange.bind fun _ => ?_) fun _ => trivial
          trivial
  | didClose uri =>
      refine ⟨_, _, rfl, .inl ⟨onEditor_closeDocument hcode h uri, ?_⟩⟩
      have hclose := once_clientPart (χ := χ) (once_didClose uri)
      refine Flow.Once.bind (hclose.bind fun _ => ?_) fun _ => trivial
      trivial

end DocumentCall

end EditorHost
