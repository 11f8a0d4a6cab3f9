import EditorHost.Document
import EditorHost.Proofs.Table

/-!
# Laws of the document store

The object that is tracked under a URI is a document of that URI, so that no two URIs share an
object (`DocumentStore.Named`).  This is why a change of one document is not seen under another
URI, and why every operation is described by what `get?` finds behind it.
-/

namespace EditorHost.DocumentStore

/-- Under every URI with a document, an object of that URI is tracked. -/
def Named (s : DocumentStore) : Prop :=
  ∀ uri id, s.find? uri = some id → ∃ d, s.object? id = some d ∧ d.uri = uri

variable {s : DocumentStore} {uri : String} {id : DocumentId}

theorem named_empty : Named {} := fun _ _ h => nomatch h

/-! ## What is tracked -/

/-- A tracked object is there. -/
theorem Named.isSome_get? (h : s.Named) : (s.get? uri).isSome = (s.find? uri).isSome := by
  cases hfind : s.find? uri with
  | none => simp [get?, hfind]
  | some id =>
      obtain ⟨d, hobject, -⟩ := h uri id hfind
      simp [get?, hfind, hobject]

/-- Two URIs do not share an object. -/
theorem Named.eq_of_find? (h : s.Named) {other : String} (huri : s.find? uri = some id)
    (hother : s.find? other = some id) : other = uri := by
  obtain ⟨d, hobject, rfl⟩ := h uri id huri
  obtain ⟨d', hobject', rfl⟩ := h other id hother
  cases hobject.symm.trans hobject'
  rfl

/-! ## Changing an object -/

theorem object?_modify (f : Document → Document) (other : DocumentId) :
    (s.modify id f).object? other = (s.object? other).map fun d => if id = other then f d else d :=
  List.getElem?_modify f id s.objects other

theorem Named.modify (h : s.Named) {f : Document → Document} (hf : ∀ d, (f d).uri = d.uri) :
    (s.modify id f).Named := by
  intro uri other hfind
  obtain ⟨d, hobject, rfl⟩ := h uri other hfind
  rw [object?_modify, hobject]
  refine ⟨_, rfl, ?_⟩
  split
  · exact hf d
  · rfl

/-- A change of the object of one URI is seen under that URI only. -/
theorem Named.get?_modify (h : s.Named) (huri : s.find? uri = some id) (f : Document → Document)
    (other : String) :
    (s.modify id f).get? other = if other = uri then (s.get? uri).map f else s.get? other := by
  have hfind : (s.modify id f).find? other = s.find? other := rfl
  rw [get?, hfind]
  split
  next heq => simp [heq, get?, huri, Option.bind, object?_modify]
  next hne =>
    cases hother : s.find? other with
    | none => simp [get?, hother]
    | some id' =>
        have hid : id ≠ id' := by
          rintro rfl
          exact hne (h.eq_of_find? huri hother)
        simp [get?, hother, Option.bind, object?_modify, hid]

/-! ## Opening, changing and closing -/

theorem Named.openDocument (h : s.Named) (uri language text : String) (version : Int) :
    (s.openDocument uri language text version).2.Named := by
  unfold DocumentStore.openDocument
  split
  · exact h.modify fun _ => rfl
  · intro other id hfind
    have hid : (s.tracked.insert uri s.objects.length).find? other = some id := hfind
    rw [Table.find?_insert] at hid
    split at hid
    next heq =>
      -- The new object is the last one.
      cases hid
      exact ⟨_, List.getElem?_concat_length, heq.symm⟩
    next hne =>
      obtain ⟨d, hobject, rfl⟩ := h other id hid
      have hlt : id < s.objects.length := (List.getElem?_eq_some_iff.mp hobject).1
      exact ⟨d, (List.getElem?_append_left hlt).trans hobject, rfl⟩

/-- A document that was opened is tracked with the language and the text it was opened with. -/
theorem Named.get?_openDocument (h : s.Named) (uri language text : String) (version : Int)
    (other : String) :
    (s.openDocument uri language text version).2.get? other =
      if other = uri then some ⟨uri, language,
        ((s.get? uri).map fun d => max version (Document.nextVersion d.version)).getD version, text⟩
      else s.get? other := by
  unfold DocumentStore.openDocument
  split
  next id hfind =>
    -- The object is taken over, with a version that is not lower than it was.
    obtain ⟨d, hobject, hname⟩ := h uri id hfind
    have hget : s.get? uri = some d := by simp [get?, hfind, hobject]
    rw [h.get?_modify hfind, hget]
    simp [← hname]
  next hfind =>
    have hget : s.get? uri = none := by simp [get?, hfind]
    rw [hget]
    have htracked : (⟨s.objects ++ [⟨uri, language, version, text⟩],
        s.tracked.insert uri s.objects.length⟩ : DocumentStore).find? other =
        if other = uri then some s.objects.length else s.find? other :=
      Table.find?_insert _ _ _ _
    rw [get?, htracked]
    split
    · exact List.getElem?_concat_length
    next hne =>
      cases hother : s.find? other with
      | none => simp [get?, hother]
      | some id =>
          obtain ⟨d, hobject, -⟩ := h other id hother
          have hlt : id < s.objects.length := (List.getElem?_eq_some_iff.mp hobject).1
          simp [get?, hother, Option.bind, object?, List.getElem?_append_left hlt]

theorem Named.change (h : s.Named) (uri text : String) : (s.change uri text).2.Named := by
  unfold DocumentStore.change
  split
  · exact h.modify fun _ => rfl
  · exact h

theorem Named.get?_change (h : s.Named) (uri text : String) (other : String) :
    (s.change uri text).2.get? other =
      if other = uri then (s.get? uri).map fun d =>
        { d with text, version := Document.nextVersion d.version }
      else s.get? other := by
  unfold DocumentStore.change
  split
  next id hfind => exact h.get?_modify hfind _ other
  next hfind =>
    split
    next heq => simp [heq, get?, hfind]
    · rfl

theorem Named.close (h : s.Named) (uri : String) : (s.close uri).2.Named := by
  intro other id hfind
  have hid : (s.tracked.erase uri).find? other = some id := hfind
  rw [Table.find?_erase] at hid
  split at hid
  · cases hid
  · exact h other id hid

theorem get?_close (s : DocumentStore) (uri other : String) :
    (s.close uri).2.get? other = if other = uri then none else s.get? other := by
  have hfind : (s.close uri).2.find? other = if other = uri then none else s.find? other :=
    Table.find?_erase _ _ _
  rw [get?, hfind]
  split <;> rfl

end EditorHost.DocumentStore
