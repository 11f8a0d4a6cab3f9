import EditorHost.Proofs.Json.Nodes
import EditorHost.Proofs.Table
import EditorHost.Rpc.Payload

/-!
# Edits of several documents

A server writes an edit by URI (`changes`), as a list of document edits (`documentChanges`), or as
both, and `workspaceEdit` brings all into one table.  `writtenEdits v uri` is what is written for a
document, in the order in which it counts: first what stands at the URI in `changes`, then the edits
of each entry of `documentChanges` that names the URI.

One entry of the list changes one URI (`find?_addDocumentChange`).  Along the list
(`find?_foldl_addDocumentChange`) the edits of a URI are those that it had with the edits of its own
entries behind them, so that none is lost, doubled or moved (`find?_workspaceEdit`).
-/

namespace EditorHost.Rpc.Payload

/-- The URI that an entry of `documentChanges` names; creating, renaming and deleting a file names
none. -/
def changedUri? (change : Json) : Option String :=
  (change.get? "textDocument").bind (·.textField? "uri")

/-- The edits as they are written in an entry of `documentChanges`. -/
def editsOf (change : Json) : List Json := ((change.get? "edits").bind Json.asArray?).getD []

/-- The entries of `documentChanges`. -/
def documentChanges (v : Json) : List Json :=
  ((v.get? "documentChanges").bind Json.asArray?).getD []

/-- The entries that name a URI, in order. -/
def ofDocument (changes : List Json) (uri : String) : List Json :=
  changes.filter fun change => changedUri? change = some uri

/-- The edits as they are written at a URI in `changes`. -/
def directEdits (v : Json) (uri : String) : List Json :=
  (((v.get? "changes").bind (·.get? uri)).bind Json.asArray?).getD []

/-- All that is written for a document, in the order in which it counts. -/
def writtenEdits (v : Json) (uri : String) : List Json :=
  directEdits v uri ++ (ofDocument (documentChanges v) uri).flatMap editsOf

/-- A URI is a key of `changes`, or an entry of `documentChanges` names it. -/
def Mentions (v : Json) (uri : String) : Prop :=
  ((v.get? "changes").bind (·.get? uri)).isSome ∨
    ∃ change ∈ documentChanges v, changedUri? change = some uri

instance (v : Json) (uri : String) : Decidable (Mentions v uri) :=
  inferInstanceAs (Decidable (_ ∨ ∃ change ∈ documentChanges v, changedUri? change = some uri))

/-! ## One entry of the list -/

theorem getD_edits (change : Json) :
    ((change.get? "edits").map textEdits).getD [] = (editsOf change).filterMap textEdit? := by
  unfold editsOf
  cases change.get? "edits" with
  | none => rfl
  | some edits => rfl

/-- An entry adds its valid edits behind those of the URI that it names. -/
theorem find?_addDocumentChange (changes : Table (List TextEdit)) (change : Json) (uri : String) :
    (addDocumentChange changes change).find? uri =
      if changedUri? change = some uri then
        some ((changes.find? uri).getD [] ++ (editsOf change).filterMap textEdit?)
      else changes.find? uri := by
  unfold addDocumentChange
  rw [← changedUri?]
  cases hnamed : changedUri? change with
  | none => rw [if_neg (by simp)]
  | some named =>
      show (appendEdits changes named (((change.get? "edits").map textEdits).getD [])).find? uri = _
      rw [getD_edits, appendEdits, Table.find?_insert]
      by_cases h : uri = named
      · rw [if_pos h, if_pos (congrArg some h.symm), h]
      · rw [if_neg h, if_neg fun heq => h (Option.some.inj heq).symm]

theorem sorted_addDocumentChange {changes : Table (List TextEdit)} (h : changes.Sorted)
    (change : Json) : (addDocumentChange changes change).Sorted := by
  unfold addDocumentChange
  split
  · exact h.insert _ _
  · exact h

/-! ## The whole list -/

/-- A URI has edits behind a list of entries if it had some or an entry names it: those that it had,
then those of its entries in order. -/
theorem find?_foldl_addDocumentChange (entries : List Json) (changes : Table (List TextEdit))
    (uri : String) (edits : List TextEdit) :
    (entries.foldl addDocumentChange changes).find? uri = some edits ↔
      ((changes.find? uri).isSome ∨ ∃ change ∈ entries, changedUri? change = some uri) ∧
        edits = (changes.find? uri).getD [] ++
          ((ofDocument entries uri).flatMap editsOf).filterMap textEdit? := by
  induction entries generalizing changes with
  | nil => cases h : changes.find? uri <;> simp [ofDocument, h, eq_comm]
  | cons change rest ih =>
      rw [List.foldl_cons, ih, find?_addDocumentChange]
      by_cases h : changedUri? change = some uri
      · have hown : ofDocument (change :: rest) uri = change :: ofDocument rest uri :=
          List.filter_cons_of_pos (by simpa using h)
        simp [h, hown]
      · have hother : ofDocument (change :: rest) uri = ofDocument rest uri :=
          List.filter_cons_of_neg (by simpa using h)
        simp [h, hother]

theorem sorted_foldl_addDocumentChange (entries : List Json) {changes : Table (List TextEdit)}
    (h : changes.Sorted) : (entries.foldl addDocumentChange changes).Sorted := by
  induction entries generalizing changes with
  | nil => exact h
  | cons change rest ih => exact ih (sorted_addDocumentChange h change)

/-! ## The whole edit -/

theorem find?_changes (v : Json) (uri : String) :
    Table.find? ((field? v "changes" Json.asObject?).getD []) uri =
      (v.get? "changes").bind (·.get? uri) := by
  unfold field?
  cases v.get? "changes" with
  | none => rfl
  | some changes => cases changes <;> rfl

theorem getD_directEdits (v : Json) (uri : String) :
    (((v.get? "changes").bind (·.get? uri)).map textEdits).getD [] =
      (directEdits v uri).filterMap textEdit? := by
  unfold directEdits
  cases (v.get? "changes").bind (·.get? uri) with
  | none => rfl
  | some edits => rfl

/-- The keys of the objects of a value stand in order, and so do those of what is read. -/
theorem sorted_workspaceEdit {v : Json} (h : v.Ordered) : (workspaceEdit v).changes.Sorted := by
  apply sorted_foldl_addDocumentChange
  apply Table.Sorted.mapValues
  unfold field?
  cases hchanges : v.get? "changes" with
  | none => exact Table.sorted_nil
  | some changes =>
      cases changes with
      | object fields =>
          have hinner : (Json.object fields).Ordered := by
            cases v with
            | object outer => exact (Json.throughout_object.mp h).2 _ (Table.mem_of_find? hchanges)
            | _ => cases hchanges
          exact (Json.throughout_object.mp hinner).1
      | _ => exact Table.sorted_nil

/-- A URI has an entry exactly if it is mentioned, and the entry is the list of all valid edits that
are written for it, each once and in order. -/
theorem find?_workspaceEdit (v : Json) (uri : String) (edits : List TextEdit) :
    (workspaceEdit v).changes.find? uri = some edits ↔
      Mentions v uri ∧ edits = (writtenEdits v uri).filterMap textEdit? := by
  have hdirect : (((field? v "changes" Json.asObject?).getD []).mapValues textEdits).find? uri =
      ((v.get? "changes").bind (·.get? uri)).map textEdits := by
    rw [Table.find?_mapValues, find?_changes]
  unfold workspaceEdit
  rw [find?_foldl_addDocumentChange, hdirect, Option.isSome_map, getD_directEdits,
    ← List.filterMap_append]
  rfl

/-- Exactly the documents that are mentioned have an entry, each one entry, and it is all that is
written for the document. -/
theorem workspaceEdit_complete (v : Json) :
    (∀ uri edits, (workspaceEdit v).changes.find? uri = some edits ↔
      Mentions v uri ∧ edits = (writtenEdits v uri).filterMap textEdit?) ∧
    (v.Ordered → (workspaceEdit v).changes.Sorted) :=
  ⟨find?_workspaceEdit v, sorted_workspaceEdit⟩

/-- An edit that mentions `file:///a` in `changes` and in two entries of the list, one of which has
an edit without a range; a file is created, and `file:///b` has no list of edits. -/
def repeatedEdit : Json :=
  let edit (text : String) : Json := (TextEdit.mk ⟨⟨0, 0⟩, ⟨0, 0⟩⟩ text).toJson
  let change (uri : String) (edits : Json) : Json :=
    .object [("edits", edits), ("textDocument", .object [("uri", .text uri)])]
  .object [
    ("changes", .object [("file:///a", .array [edit "1"])]),
    ("documentChanges", .array [
      change "file:///a" (.array [edit "2", .object [("newText", .text "?")]]),
      .object [("kind", .text "create"), ("uri", .text "file:///c")],
      change "file:///b" .null,
      change "file:///a" (.array [edit "1"])])]

theorem ordered_repeatedEdit : repeatedEdit.Ordered := by
  refine .object (by unfold Table.Sorted; decide) (List.forall_mem_cons.mpr ⟨?_, ?_⟩)
  · refine .object (by unfold Table.Sorted; decide) ?_
    exact List.forall_mem_singleton.mpr (.other rfl)
  · exact List.forall_mem_singleton.mpr (.other rfl)

theorem workspaceEdit_complete_repeated :
    ((workspaceEdit repeatedEdit).changes.find? "file:///a").map (·.map TextEdit.newText) =
      some ["1", "2", "1"] ∧
    (workspaceEdit repeatedEdit).changes.find? "file:///b" = some [] ∧
    (workspaceEdit repeatedEdit).changes.find? "file:///c" = none ∧
    repeatedEdit.Ordered ∧ (workspaceEdit repeatedEdit).changes.Sorted := by
  have hentry := (workspaceEdit_complete repeatedEdit).1
  refine ⟨?_, (hentry _ _).mpr ⟨by decide, rfl⟩, ?_, ordered_repeatedEdit,
    (workspaceEdit_complete repeatedEdit).2 ordered_repeatedEdit⟩
  · rw [(hentry "file:///a" _).mpr ⟨by decide, rfl⟩]
    rfl
  · refine Option.eq_none_iff_forall_ne_some.mpr fun edits hfound => ?_
    exact absurd ((hentry _ edits).mp hfound).1 (by decide)

end EditorHost.Rpc.Payload
