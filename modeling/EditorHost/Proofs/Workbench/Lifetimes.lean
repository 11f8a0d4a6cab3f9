import EditorHost.Proofs.Diary
import EditorHost.Proofs.Workbench.DocumentCalls

/-!
# Lifetimes of documents

What the editor's calls make of documents can be said without a store: under each URI there is an
open document or none, each call changes the entry of its own URI, and a document that is opened
where none is open becomes a new object (`Desk.perform`).  The store is exactly that table
(`Chronicle.store`), and listeners are told exactly what the table says (`Chronicle.told`).

The object of a document is the same from its opening to its closing, with versions that go up
until they cannot any more; behind its closing it stays as it was for ever, also for those who kept
its number.
-/

namespace EditorHost

variable {χ : Type}

/-- Whether a number fits into 32 bits with sign. -/
def Document.IsVersion (version : Int) : Prop :=
  -2147483648 ≤ version ∧ version ≤ greatestVersion

/-- The open documents by URI, each with the number of its object, and the number of the next new
object. -/
@[ext]
structure Desk where
  open? : String → Option (DocumentId × Document)
  next : DocumentId

/-- What the store holds. -/
def DocumentStore.desk (s : DocumentStore) : Desk where
  open? uri := (s.find? uri).bind fun id => (s.object? id).map fun d => (id, d)
  next := s.objects.length

namespace DocumentCall

/-- What a call makes of the entry of its URI, when the next new object has a given number.  A
version goes up by one, and the greatest one stays. -/
def onEntry (new : DocumentId) :
    DocumentCall → Option (DocumentId × Document) → Option (DocumentId × Document)
  | didOpen uri language text version, none => some (new, ⟨uri, language, version, text⟩)
  | didOpen uri language text version, some (id, d) =>
    some (id, ⟨uri, language, max version (min (d.version + 1) Document.greatestVersion), text⟩)
  | didChange _ _ text, entry => entry.map fun (id, d) =>
    (id, { d with text, version := min (d.version + 1) Document.greatestVersion })
  | didClose _, _ => none

/-- What a call makes of the store. -/
def onStore : DocumentCall → DocumentStore → DocumentStore
  | didOpen uri language text version, s => (s.openDocument uri language text version).2
  | didChange uri _ text, s => (s.change uri text).2
  | didClose uri, s => (s.close uri).2

/-- Whether a call opens a document that was not open. -/
def isOpening : DocumentCall → Option (DocumentId × Document) → Bool
  | didOpen .., none => true
  | _, _ => false

/-- What extensions are told of a call, when there is something to tell. -/
def notice? (new : DocumentId) : DocumentCall → Option (DocumentId × Document) → Option Notice
  | didOpen .., none => some (.opened new)
  | didOpen .., some _ => none
  | didChange _ changes text, entry => entry.map fun (id, _) =>
    .changed id (if changes.isEmpty then [⟨none, text⟩] else changes)
  | didClose _, entry => entry.map fun (_, d) => .closed d

/-- The version that a call gives, if it gives one, has 32 bits. -/
def HasVersion : DocumentCall → Prop
  | didOpen _ _ _ version => Document.IsVersion version
  | _ => True

/-- The call, as extensions see it. -/
def perform (code : Code χ) : DocumentCall → StateM (World χ) Unit
  | didOpen uri language text version => do
    let _ ← World.openDocument code uri language text version
  | didChange uri changes text => do
    let _ ← World.changeDocument code uri changes text
  | didClose uri => do
    let _ ← World.closeDocument code uri

end DocumentCall

/-- The open documents behind a call. -/
def Desk.perform (desk : Desk) (call : DocumentCall) : Desk where
  open? uri :=
    if uri = call.uri then call.onEntry desk.next (desk.open? uri) else desk.open? uri
  next := if call.isOpening (desk.open? call.uri) then desk.next + 1 else desk.next

/-! ## The store as a table -/

namespace DocumentStore

variable {s : DocumentStore} {uri : String} {id : DocumentId} {d : Document}

/-- No version is greater than the greatest one. -/
def Bounded (s : DocumentStore) : Prop :=
  ∀ id d, s.object? id = some d → d.version ≤ Document.greatestVersion

theorem open?_eq_some :
    s.desk.open? uri = some (id, d) ↔ s.find? uri = some id ∧ s.object? id = some d := by
  simp only [desk, Option.bind_eq_some_iff, Option.map_eq_some_iff, Prod.mk.injEq]
  constructor
  · rintro ⟨_, hfind, _, hobject, rfl, rfl⟩
    exact ⟨hfind, hobject⟩
  · rintro ⟨hfind, hobject⟩
    exact ⟨id, hfind, d, hobject, rfl, rfl⟩

theorem open?_of_find? (h : s.find? uri = none) : s.desk.open? uri = none := by
  simp [desk, h]

theorem Named.exists_open? (h : s.Named) (hfind : s.find? uri = some id) :
    ∃ d, s.desk.open? uri = some (id, d) ∧ s.object? id = some d ∧ d.uri = uri := by
  obtain ⟨d, hobject, hname⟩ := h uri id hfind
  exact ⟨d, open?_eq_some.mpr ⟨hfind, hobject⟩, hobject, hname⟩

/-- A change of a tracked object is a change of one entry of the table. -/
theorem Named.open?_modify (h : s.Named) (huri : s.find? uri = some id) (f : Document → Document)
    (other : String) :
    (s.modify id f).desk.open? other = if other = uri then
      (s.desk.open? uri).map fun entry => (entry.1, f entry.2) else s.desk.open? other := by
  have hfind : (s.modify id f).find? other = s.find? other := rfl
  simp only [desk, hfind, object?_modify]
  split
  next heq => simp [heq, huri, Function.comp_def]
  next hne =>
    cases hother : s.find? other with
    | none => rfl
    | some id' =>
        have hid : id ≠ id' := by
          rintro rfl
          exact hne (h.eq_of_find? huri hother)
        simp [hid, Function.comp_def]

theorem next_modify (f : Document → Document) : (s.modify id f).desk.next = s.desk.next := by
  simp [desk, modify]

theorem nextVersion_eq {version : Int} (h : version ≤ Document.greatestVersion) :
    Document.nextVersion version = min (version + 1) Document.greatestVersion := by
  unfold Document.nextVersion
  split <;> omega

theorem desk_ext {t : DocumentStore} {desk : Desk}
    (hopen : ∀ uri, t.desk.open? uri = desk.open? uri)
    (hnext : t.desk.next = desk.next) : t.desk = desk :=
  Desk.ext (funext hopen) hnext

variable (hnamed : s.Named) (hbounded : s.Bounded)

include hnamed hbounded

theorem desk_openDocument (uri language text : String) (version : Int) :
    (s.openDocument uri language text version).2.desk =
      s.desk.perform (.didOpen uri language text version) := by
  cases hfind : s.find? uri with
  | some id =>
      obtain ⟨d, hopen, hobject, hname⟩ := hnamed.exists_open? hfind
      have hopened : (s.openDocument uri language text version).2 = s.modify id fun d =>
          { d with language, text, version := max version (Document.nextVersion d.version) } := by
        rw [DocumentStore.openDocument, hfind]
      rw [hopened]
      refine desk_ext (fun other => ?_) ?_
      · rw [hnamed.open?_modify hfind]
        by_cases hother : other = uri
        · simp [Desk.perform, DocumentCall.uri, hother, hopen, DocumentCall.onEntry, hname,
            nextVersion_eq (hbounded id d hobject)]
        · simp [Desk.perform, DocumentCall.uri, hother]
      · simp [next_modify, Desk.perform, DocumentCall.uri, hopen, DocumentCall.isOpening]
  | none =>
      have hopen : s.desk.open? uri = none := open?_of_find? hfind
      have hopened : (s.openDocument uri language text version).2 =
          ⟨s.objects ++ [⟨uri, language, version, text⟩],
            s.tracked.insert uri s.objects.length⟩ := by
        rw [DocumentStore.openDocument, hfind]
      rw [hopened]
      refine desk_ext (fun other => ?_) ?_
      · simp only [desk, DocumentStore.find?, Table.find?_insert, DocumentStore.object?]
        by_cases hother : other = uri
        · have hself : s.tracked.find? uri = none := hfind
          simp [Desk.perform, DocumentCall.uri, hother, hself, DocumentCall.onEntry]
        · -- What was there before is not the new object.
          simp only [Desk.perform, DocumentCall.uri, hother, if_false]
          cases hid : s.tracked.find? other with
          | none => rfl
          | some id =>
              obtain ⟨d, hobject, -⟩ := hnamed other id hid
              have hlt : id < s.objects.length := (List.getElem?_eq_some_iff.mp hobject).1
              simp [List.getElem?_append_left hlt]
      · simp [desk, Desk.perform, DocumentCall.uri, DocumentCall.isOpening, hfind]

theorem desk_change (uri text : String) (changes : List ContentChange) :
    (s.change uri text).2.desk = s.desk.perform (.didChange uri changes text) := by
  cases hfind : s.find? uri with
  | some id =>
      obtain ⟨d, hopen, hobject, -⟩ := hnamed.exists_open? hfind
      have hchanged : (s.change uri text).2 = s.modify id fun d =>
          { d with text, version := Document.nextVersion d.version } := by
        rw [DocumentStore.change, hfind]
      rw [hchanged]
      refine desk_ext (fun other => ?_) ?_
      · rw [hnamed.open?_modify hfind]
        by_cases hother : other = uri
        · simp [Desk.perform, DocumentCall.uri, hother, hopen, DocumentCall.onEntry,
            nextVersion_eq (hbounded id d hobject)]
        · simp [Desk.perform, DocumentCall.uri, hother]
      · simp [next_modify, Desk.perform, DocumentCall.isOpening]
  | none =>
      have hopen : s.desk.open? uri = none := open?_of_find? hfind
      have hchanged : (s.change uri text).2 = s := by
        rw [DocumentStore.change, hfind]
      rw [hchanged]
      refine desk_ext (fun other => ?_) ?_
      · by_cases hother : other = uri
        · simp [Desk.perform, DocumentCall.uri, hother, hopen, DocumentCall.onEntry]
        · simp [Desk.perform, DocumentCall.uri, hother]
      · simp [Desk.perform, DocumentCall.isOpening]

omit hnamed hbounded in
theorem desk_close (s : DocumentStore) (uri : String) :
    (s.close uri).2.desk = s.desk.perform (.didClose uri) := by
  refine desk_ext (fun other => ?_) ?_
  · have hfind : (s.close uri).2.find? other = if other = uri then none else s.find? other :=
      Table.find?_erase _ _ _
    simp only [desk, hfind]
    by_cases hother : other = uri
    · simp [Desk.perform, DocumentCall.uri, hother, DocumentCall.onEntry]
    · simp [Desk.perform, DocumentCall.uri, hother]
      rfl
  · simp [desk, Desk.perform, DocumentCall.isOpening, close]

end DocumentStore

/-! ## Calls on the store -/

namespace DocumentCall

open DocumentStore

variable {s : DocumentStore} {call : DocumentCall}

theorem named_onStore (h : s.Named) (call : DocumentCall) : (call.onStore s).Named := by
  cases call with
  | didOpen uri language text version => exact h.openDocument uri language text version
  | didChange uri changes text => exact h.change uri text
  | didClose uri => exact h.close uri

/-- The store and the table go through a call together. -/
theorem desk_onStore (hnamed : s.Named) (hbounded : s.Bounded) (call : DocumentCall) :
    (call.onStore s).desk = s.desk.perform call := by
  cases call with
  | didOpen uri language text version =>
      exact desk_openDocument hnamed hbounded uri language text version
  | didChange uri changes text => exact desk_change hnamed hbounded uri text changes
  | didClose uri => exact desk_close s uri

/-- What a call does to objects: it changes one that is tracked, it makes a new one, or neither. -/
theorem onStore_cases (call : DocumentCall) (s : DocumentStore) :
    (∃ id f, s.find? call.uri = some id ∧ call.onStore s = s.modify id f ∧
      ∀ d, call.HasVersion → (f d).version ≤ Document.greatestVersion ∨
        (f d).version = d.version) ∨
    (∃ d tracked, call.onStore s = ⟨s.objects ++ [d], tracked⟩ ∧
      (∀ uri, uri ≠ call.uri → tracked.find? uri = s.find? uri) ∧
      tracked.find? call.uri = some s.objects.length ∧
      (call.HasVersion → d.version ≤ Document.greatestVersion)) ∨
    (call.onStore s).objects = s.objects ∧
      ∀ uri id, (call.onStore s).find? uri = some id → s.find? uri = some id := by
  have hnext (version : Int) :
      Document.nextVersion version ≤ Document.greatestVersion ∨
        Document.nextVersion version = version := by
    unfold Document.nextVersion
    split
    · left; omega
    · right; rfl
  cases call with
  | didOpen uri language text version =>
      cases hfind : s.find? uri with
      | some id =>
          refine .inl ⟨id, _, hfind, by rw [onStore, DocumentStore.openDocument, hfind], ?_⟩
          intro d hversion
          have := hnext d.version
          have hgiven : version ≤ Document.greatestVersion := hversion.2
          dsimp only
          omega
      | none =>
          refine .inr (.inl ⟨_, _, by rw [onStore, DocumentStore.openDocument, hfind], ?_, ?_, ?_⟩)
          · exact fun other hother => Table.find?_insert_of_ne _ _ hother
          · exact Table.find?_insert_self _ _ _
          · exact fun hversion => hversion.2
  | didChange uri changes text =>
      cases hfind : s.find? uri with
      | some id =>
          exact .inl ⟨id, _, hfind, by rw [onStore, DocumentStore.change, hfind],
            fun d _ => hnext d.version⟩
      | none =>
          have hsame : onStore (.didChange uri changes text) s = s := by
            rw [onStore, DocumentStore.change, hfind]
          rw [hsame]
          exact .inr (.inr ⟨rfl, fun _ _ h => h⟩)
  | didClose uri =>
      refine .inr (.inr ⟨rfl, fun other id hid => ?_⟩)
      have herase : (s.tracked.erase uri).find? other = some id := hid
      rw [Table.find?_erase] at herase
      split at herase
      · cases herase
      · exact herase

theorem bounded_onStore (h : s.Bounded) (hversion : call.HasVersion) :
    (call.onStore s).Bounded := by
  intro id d hobject
  rcases call.onStore_cases s with ⟨id', f, -, hmodify, hf⟩ | ⟨d', tracked, hnew, -, -, hd'⟩ |
    ⟨hobjects, -⟩
  · rw [hmodify, object?_modify] at hobject
    obtain ⟨old, hold, rfl⟩ := Option.map_eq_some_iff.mp hobject
    have hle := h id old hold
    split
    · rcases hf old hversion with hf | hf
      · exact hf
      · exact hf ▸ hle
    · exact hle
  · rw [hnew, DocumentStore.object?, List.getElem?_append] at hobject
    split at hobject
    · exact h id d hobject
    · have hmem : d ∈ [d'] := List.mem_of_getElem? hobject
      rw [List.mem_singleton.mp hmem]
      exact hd' hversion
  · rw [DocumentStore.object?, hobjects] at hobject
    exact h id d hobject

/-- An object that is tracked no more is not tracked again, and nothing changes it. -/
theorem onStore_untracked (call : DocumentCall) {id : DocumentId} {d : Document}
    (hobject : s.object? id = some d) (hclosed : ∀ uri, s.find? uri ≠ some id) :
    (call.onStore s).object? id = some d ∧ ∀ uri, (call.onStore s).find? uri ≠ some id := by
  rcases call.onStore_cases s with ⟨id', f, hfind, hmodify, -⟩ | ⟨d', tracked, hnew, hothers,
    hself, -⟩ | ⟨hobjects, htracked⟩
  · have hne : id' ≠ id := by
      rintro rfl
      exact hclosed call.uri hfind
    rw [hmodify]
    refine ⟨by simp [object?_modify, hne, hobject], fun uri => ?_⟩
    exact hclosed uri
  · have hlt : id < s.objects.length := (List.getElem?_eq_some_iff.mp hobject).1
    rw [hnew]
    refine ⟨(List.getElem?_append_left hlt).trans hobject, fun uri => ?_⟩
    by_cases huri : uri = call.uri
    · -- What is tracked there now is the new object.
      rw [huri]
      show tracked.find? call.uri ≠ some id
      rw [hself]
      rintro ⟨⟩
      exact Nat.lt_irrefl _ hlt
    · show tracked.find? uri ≠ some id
      rw [hothers uri huri]
      exact hclosed uri
  · refine ⟨?_, fun uri huri => hclosed uri (htracked uri id huri)⟩
    rw [DocumentStore.object?, hobjects]
    exact hobject

/-- A call leaves an open document its object, with a version that is not less than it was. -/
theorem version_perform {desk : Desk} {uri : String} {id id' : DocumentId} {d d' : Document}
    (h : desk.open? uri = some (id, d)) (hle : d.version ≤ Document.greatestVersion)
    (h' : (desk.perform call).open? uri = some (id', d')) :
    id' = id ∧ d.version ≤ d'.version ∧
      (call.uri = uri → d.version ≠ Document.greatestVersion → d.version < d'.version) := by
  by_cases huri : uri = call.uri
  · simp only [Desk.perform, if_pos huri, h] at h'
    cases call with
    | didOpen _ language text version =>
        cases h'
        dsimp only
        exact ⟨rfl, by omega, by omega⟩
    | didChange _ changes text =>
        cases h'
        dsimp only
        exact ⟨rfl, by omega, by omega⟩
    | didClose _ => cases h'
  · simp only [Desk.perform, if_neg huri, h] at h'
    cases h'
    exact ⟨rfl, Int.le_refl _, fun heq => absurd heq.symm huri⟩

end DocumentCall

/-! ## Calls as extensions see them -/

/-- The open documents are what they were. -/
def World.SameStore (w w' : World χ) : Prop := w'.api.documents = w.api.documents

/-- Listeners leave it to the editor to open, change and close documents. -/
def Code.ListenersSpareDocuments (code : Code χ) : Prop :=
  ∀ callback notice, Keeps World.SameStore (code.listener callback notice)

theorem Code.ListenersSpareDocuments.noted {code : Code χ} (h : code.ListenersSpareDocuments) :
    code.noted.ListenersSpareDocuments :=
  fun callback notice w => h callback notice w.withoutDiary

namespace World

theorem SameStore.refl (w : World χ) : SameStore w w := rfl

theorem SameStore.trans (w₁ w₂ w₃ : World χ) (h : SameStore w₁ w₂) (h' : SameStore w₂ w₃) :
    SameStore w₁ w₃ :=
  Eq.trans h' h

theorem sameStore_tell {code : Code χ} (hcode : code.ListenersSpareDocuments) (notice : Notice) :
    Keeps SameStore (tell code notice) := fun w =>
  Keeps.loop SameStore.refl SameStore.trans (w.api.listeners.callbacks notice.topic)
    (fun callback => hcode callback notice) w

/-- The world behind a notice, if there is one. -/
def telling (code : Code χ) (notice : Option Notice) (w : World χ) : World χ :=
  match notice with
  | some notice => (tell code notice w).2
  | none => w

variable (code : Code χ) (w : World χ)

theorem openDocument_eq (uri language text : String) (version : Int) :
    (openDocument code uri language text version w).2 =
      let result := w.api.openDocument uri language text version
      telling code result.1.2 { w with api := result.2 } := by
  simp only [openDocument, Bind.bind, StateT.bind, Focus.zoom, apiPart]
  obtain ⟨⟨id, notice⟩, api⟩ := w.api.openDocument uri language text version
  cases notice <;> rfl

theorem changeDocument_eq (uri : String) (changes : List ContentChange) (text : String) :
    (changeDocument code uri changes text w).2 =
      let result := w.api.changeDocument uri changes text
      telling code (result.1.map Prod.snd) { w with api := result.2 } := by
  simp only [changeDocument, Bind.bind, StateT.bind, Focus.zoom, apiPart]
  obtain ⟨changed, api⟩ := w.api.changeDocument uri changes text
  cases changed <;> rfl

theorem closeDocument_eq (uri : String) :
    (closeDocument code uri w).2 =
      let result := w.api.closeDocument uri
      telling code (result.1.map .closed) { w with api := result.2 } := by
  simp only [closeDocument, Bind.bind, StateT.bind, Focus.zoom, apiPart]
  obtain ⟨closed, api⟩ := w.api.closeDocument uri
  cases closed <;> rfl

end World

namespace DocumentCall

open World (telling)

section Notices

variable {api : Api} (h : api.documents.Named)

include h

theorem notice_openDocument (uri language text : String) (version : Int) :
    (api.openDocument uri language text version).1.2 =
      (didOpen uri language text version).notice? api.documents.desk.next
        (api.documents.desk.open? uri) := by
  cases hfind : api.documents.find? uri with
  | none =>
      rw [DocumentStore.open?_of_find? hfind]
      simp [Api.openDocument, DocumentStore.openDocument, hfind, notice?, DocumentStore.desk]
  | some id =>
      obtain ⟨d, hopen, -, -⟩ := h.exists_open? hfind
      rw [hopen]
      simp [Api.openDocument, DocumentStore.openDocument, hfind, notice?]

theorem notice_changeDocument (uri : String) (changes : List ContentChange) (text : String) :
    (api.changeDocument uri changes text).1.map Prod.snd =
      (didChange uri changes text).notice? api.documents.desk.next
        (api.documents.desk.open? uri) := by
  cases hfind : api.documents.find? uri with
  | none =>
      rw [DocumentStore.open?_of_find? hfind]
      simp [Api.changeDocument, DocumentStore.change, hfind, notice?]
  | some id =>
      obtain ⟨d, hopen, -, -⟩ := h.exists_open? hfind
      rw [hopen]
      simp [Api.changeDocument, DocumentStore.change, hfind, notice?]

theorem notice_closeDocument (uri : String) :
    (api.closeDocument uri).1.map .closed =
      (didClose uri).notice? api.documents.desk.next (api.documents.desk.open? uri) := by
  cases hfind : api.documents.find? uri with
  | none =>
      rw [DocumentStore.open?_of_find? hfind]
      simp [Api.closeDocument, DocumentStore.close, DocumentStore.get?, hfind, notice?]
  | some id =>
      obtain ⟨d, hopen, hobject, -⟩ := h.exists_open? hfind
      rw [hopen]
      simp [Api.closeDocument, DocumentStore.close, DocumentStore.get?, hfind, hobject, notice?]

omit h in
theorem changeDocument_snd (api : Api) (uri : String) (changes : List ContentChange)
    (text : String) : (api.changeDocument uri changes text).2 =
      { api with documents := (api.documents.change uri text).2 } := by
  cases hfind : api.documents.find? uri <;>
    simp [Api.changeDocument, DocumentStore.change, hfind]

end Notices

/-- A call changes the store, and then its notice is told. -/
theorem perform_eq (code : Code χ) (call : DocumentCall) {w : World χ}
    (h : w.api.documents.Named) : (call.perform code w).2 =
      telling code (call.notice? w.api.documents.desk.next (w.api.documents.desk.open? call.uri))
        { w with api := { w.api with documents := call.onStore w.api.documents } } := by
  cases call with
  | didOpen uri language text version =>
      refine (World.openDocument_eq code w uri language text version).trans ?_
      dsimp only
      rw [notice_openDocument h]
      rfl
  | didChange uri changes text =>
      refine (World.changeDocument_eq code w uri changes text).trans ?_
      dsimp only
      rw [notice_changeDocument h, changeDocument_snd]
      rfl
  | didClose uri =>
      refine (World.closeDocument_eq code w uri).trans ?_
      dsimp only
      rw [notice_closeDocument h]
      rfl

/-! ## Runs -/

/-- The world behind some calls, one after another. -/
def performAll (code : Code χ) (w : World χ) (calls : List DocumentCall) : World χ :=
  calls.foldl (fun w call => (call.perform code w).2) w

/-- What listeners are told of a call that is made now: each of those that have subscribed then,
once. -/
def heard (call : DocumentCall) (w : World χ) : List DiaryEntry :=
  match call.notice? w.api.documents.desk.next (w.api.documents.desk.open? call.uri) with
  | some notice => (w.api.listeners.callbacks notice.topic).map (.told · notice)
  | none => []

@[simp] theorem performAll_append (code : Code χ) (w : World χ) (calls more : List DocumentCall) :
    performAll code w (calls ++ more) = performAll code (performAll code w calls) more :=
  List.foldl_append

variable {code : Code χ}

theorem store_perform (hcode : code.ListenersSpareDocuments) (call : DocumentCall) {w : World χ}
    (h : w.api.documents.Named) :
    (call.perform code w).2.api.documents = call.onStore w.api.documents := by
  rw [perform_eq code call h]
  unfold telling
  split
  · exact World.sameStore_tell hcode _ _
  · rfl

theorem diary_perform (code : Code χ) (call : DocumentCall) {w : World (Noted χ)}
    (h : w.api.documents.Named) :
    (call.perform code.noted w).2.diary = w.diary ++ call.heard w := by
  rw [perform_eq code.noted call h]
  unfold telling heard
  split
  · exact World.diary_tell code _ _
  · exact (List.append_nil _).symm

/-- What calls make of open documents, and what listeners are told of them. -/
structure Chronicle (code : Code χ) (w : World (Noted χ)) (calls : List DocumentCall) : Prop where
  /-- The store is the table of open documents. -/
  store : (performAll code.noted w calls).api.documents.desk =
    calls.foldl Desk.perform w.api.documents.desk
  /-- Listeners are told what there is to tell of each call, and nothing else. -/
  told : ∀ before call behind, calls = before ++ call :: behind →
    (performAll code.noted w (before ++ [call])).diary =
      (performAll code.noted w before).diary ++ call.heard (performAll code.noted w before)
  /-- An open document keeps its object until it is closed; its version never goes down, and a call
  about it takes it up unless it is the greatest one. -/
  versions : ∀ before call behind, calls = before ++ call :: behind → ∀ uri id d id' d',
    (performAll code.noted w before).api.documents.desk.open? uri = some (id, d) →
    (performAll code.noted w (before ++ [call])).api.documents.desk.open? uri = some (id', d') →
      id' = id ∧ d.version ≤ d'.version ∧
        (call.uri = uri → d.version ≠ Document.greatestVersion → d.version < d'.version)
  /-- An object that is tracked no more never changes, and is not tracked again. -/
  closed : ∀ before behind, calls = before ++ behind → ∀ id d,
    (performAll code.noted w before).api.documents.object? id = some d →
    (∀ uri, (performAll code.noted w before).api.documents.find? uri ≠ some id) →
      (performAll code.noted w calls).api.documents.object? id = some d ∧
        ∀ uri, (performAll code.noted w calls).api.documents.find? uri ≠ some id

/-- A store in which objects are named by their URIs, with versions of 32 bits. -/
structure Orderly (w : World χ) : Prop where
  named : w.api.documents.Named
  bounded : w.api.documents.Bounded

theorem Orderly.perform (hcode : code.ListenersSpareDocuments) {w : World χ} (h : Orderly w)
    {call : DocumentCall} (hversion : call.HasVersion) : Orderly (call.perform code w).2 := by
  have hstore := store_perform hcode call h.named
  exact ⟨hstore ▸ named_onStore h.named call, hstore ▸ bounded_onStore h.bounded hversion⟩

theorem Orderly.performAll (hcode : code.ListenersSpareDocuments) {w : World χ} (h : Orderly w)
    {calls : List DocumentCall} (hversions : ∀ call ∈ calls, call.HasVersion) :
    Orderly (performAll code w calls) := by
  induction calls generalizing w with
  | nil => exact h
  | cons call calls ih =>
      obtain ⟨hversion, hversions⟩ := List.forall_mem_cons.mp hversions
      exact ih (h.perform hcode hversion) hversions

theorem desk_performAll (hcode : code.ListenersSpareDocuments) {w : World χ} (h : Orderly w)
    {calls : List DocumentCall} (hversions : ∀ call ∈ calls, call.HasVersion) :
    (performAll code w calls).api.documents.desk =
      calls.foldl Desk.perform w.api.documents.desk := by
  induction calls generalizing w with
  | nil => rfl
  | cons call calls ih =>
      obtain ⟨hversion, hversions⟩ := List.forall_mem_cons.mp hversions
      refine (ih (h.perform hcode hversion) hversions).trans ?_
      rw [store_perform hcode call h.named, desk_onStore h.named h.bounded]
      rfl

theorem untracked_performAll (hcode : code.ListenersSpareDocuments) {w : World χ} (h : Orderly w)
    {calls : List DocumentCall} (hversions : ∀ call ∈ calls, call.HasVersion) {id : DocumentId}
    {d : Document} (hobject : w.api.documents.object? id = some d)
    (hclosed : ∀ uri, w.api.documents.find? uri ≠ some id) :
    (performAll code w calls).api.documents.object? id = some d ∧
      ∀ uri, (performAll code w calls).api.documents.find? uri ≠ some id := by
  induction calls generalizing w with
  | nil => exact ⟨hobject, hclosed⟩
  | cons call calls ih =>
      obtain ⟨hversion, hversions⟩ := List.forall_mem_cons.mp hversions
      obtain ⟨hobject', hclosed'⟩ := call.onStore_untracked hobject hclosed
      have hstore := store_perform hcode call h.named
      exact ih (h.perform hcode hversion) hversions (hstore ▸ hobject') (hstore ▸ hclosed')

/-- Whatever calls the editor makes, open documents and what listeners are told of them are as the
table has it. -/
theorem chronicle (hcode : code.ListenersSpareDocuments) {w : World (Noted χ)} (h : Orderly w)
    {calls : List DocumentCall} (hversions : ∀ call ∈ calls, call.HasVersion) :
    Chronicle code w calls := by
  have hnoted := hcode.noted
  refine ⟨desk_performAll hnoted h hversions, ?_, ?_, ?_⟩
  · rintro before call behind rfl
    have hbefore := h.performAll hnoted fun call hcall =>
      hversions call (List.mem_append_left _ hcall)
    rw [performAll_append]
    exact diary_perform code call hbefore.named
  · rintro before call behind rfl uri id d id' d' hopen hopen'
    have hbefore := h.performAll hnoted fun call hcall =>
      hversions call (List.mem_append_left _ hcall)
    have hobject := (DocumentStore.open?_eq_some.mp hopen).2
    rw [performAll_append] at hopen'
    have hstore := store_perform hnoted call hbefore.named
    change (call.perform code.noted _).2.api.documents.desk.open? uri = some (id', d') at hopen'
    rw [hstore, desk_onStore hbefore.named hbefore.bounded] at hopen'
    exact version_perform hopen (hbefore.bounded id d hobject) hopen'
  · rintro before behind rfl id d hobject hclosed
    have hbefore := h.performAll hnoted fun call hcall =>
      hversions call (List.mem_append_left _ hcall)
    rw [performAll_append]
    exact untracked_performAll hnoted hbefore
      (fun call hcall => hversions call (List.mem_append_right _ hcall)) hobject hclosed

/-- An editor with a listener to each kind of notice about documents. -/
def listeningWorld : World (Noted Unit) where
  disk := .empty
  api := { listeners := ⟨3, [⟨0, .opened, 10⟩, ⟨1, .changed, 11⟩, ⟨2, .closed, 12⟩]⟩ }
  host := { layout := .ofDataDir ⟨"/data"⟩ }
  client := { settings := ⟨30000, []⟩ }
  own := ⟨(), []⟩

/-- A document is opened twice, closed, changed when it is not open any more, and opened anew. -/
def reopening : List DocumentCall :=
  [.didOpen "file:///a.py" "python" "x" 2147483646, .didOpen "file:///a.py" "rust" "y" 1,
    .didChange "file:///a.py" [] "z", .didClose "file:///a.py", .didChange "file:///a.py" [] "w",
    .didOpen "file:///a.py" "python" "x" 1]

theorem chronicle_reopening :
    (∀ call ∈ reopening, call.HasVersion) ∧ Chronicle Code.idle listeningWorld reopening ∧
      (performAll Code.idle.noted listeningWorld reopening).diary =
        [.told 10 (.opened 0), .told 11 (.changed 0 [⟨none, "z"⟩]),
          .told 12 (.closed ⟨"file:///a.py", "rust", 2147483647, "z"⟩), .told 10 (.opened 1)] := by
  have hversions : ∀ call ∈ reopening, call.HasVersion := by
    simp [reopening, HasVersion, Document.IsVersion, Document.greatestVersion]
  have horderly : Orderly listeningWorld :=
    ⟨DocumentStore.named_empty, fun _ _ h => nomatch h⟩
  have hidle : (Code.idle : Code Unit).ListenersSpareDocuments := fun _ _ _ => rfl
  exact ⟨hversions, chronicle hidle horderly hversions, by decide +kernel⟩

end DocumentCall

end EditorHost
