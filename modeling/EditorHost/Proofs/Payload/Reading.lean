import EditorHost.Proofs.Rpc.Messages
import EditorHost.Rpc.Payload

/-!
# Answers as they are written

The types that answers are read into are written to JSON themselves, and the lenient readers of
`Rpc.Payload` read what was written as the value it was: `Undoes` for the readers that may fail.  An
optional field that is left out is read as none, and one that is there is found under its name
whatever others are left out (`Json.get?_optional`).

The numbers of the types are numbers of 32 bits, and the URIs of an edit of several documents stand
in order; `Fits` says so for each type.
-/

namespace EditorHost

/-! ## Values of the types -/

/-- A number of 32 bits without sign. -/
def Fits32 (n : Nat) : Prop := n < 4294967296

instance (n : Nat) : Decidable (Fits32 n) := inferInstanceAs (Decidable (n < 4294967296))

def Position.Fits (p : Position) : Prop := Fits32 p.line ∧ Fits32 p.character

def Range.Fits (r : Range) : Prop := r.start.Fits ∧ r.finish.Fits

def Location.Fits (l : Location) : Prop := l.range.Fits

def Hover.Fits (h : Hover) : Prop := ∀ range ∈ h.range, range.Fits

def TextEdit.Fits (e : TextEdit) : Prop := e.range.Fits

structure CompletionItem.Fits (c : CompletionItem) : Prop where
  kind : ∀ n ∈ c.kind, Fits32 n
  insertTextFormat : ∀ n ∈ c.insertTextFormat, Fits32 n
  textEdit : ∀ edit ∈ c.textEdit, edit.Fits

def CompletionList.Fits (l : CompletionList) : Prop := ∀ item ∈ l.items, item.Fits

structure WorkspaceEdit.Fits (e : WorkspaceEdit) : Prop where
  sorted : e.changes.Sorted
  edits : ∀ entry ∈ e.changes, ∀ edit ∈ entry.2, edit.Fits

namespace Json

/-! ## Optional fields -/

/-- Behind an optional field a name is the one of the field, or stands in the fields before it. -/
theorem get?_optional (fields : List (String × Json)) (name : String) (value : Option Json)
    (key : String) :
    (ofFields (fields ++ field? name value)).get? key =
      (if key = name then value else none).or ((ofFields fields).get? key) := by
  rw [get?_ofFields, get?_ofFields, List.reverse_append, List.find?_append, Option.map_or]
  congr 1
  cases value with
  | none => simp [field?]
  | some v =>
      by_cases h : key = name
      · simp [field?, h]
      · simp [field?, h, Ne.symm h]

end Json

namespace Rpc.Payload

/-- A reader reads the written form of a value as the value. -/
def Undoes (read : Json → Option α) (write : α → Json) (fits : α → Prop) : Prop :=
  ∀ x, fits x → read (write x) = some x

section Lists

variable {α : Type} {read : Json → Option α} {write : α → Json} {fits : α → Prop}

/-- A list of values, read item by item. -/
theorem Undoes.list (h : Undoes read write fits) {values : List α}
    (hfits : ∀ x ∈ values, fits x) : (values.map write).filterMap read = values := by
  rw [List.filterMap_map]
  induction values with
  | nil => rfl
  | cons x rest ih =>
      obtain ⟨hx, hrest⟩ := List.forall_mem_cons.mp hfits
      rw [List.filterMap_cons_some (show (read ∘ write) x = some x from h x hx), ih hrest]

/-- A value that may be absent. -/
theorem Undoes.option (h : Undoes read write fits) {value : Option α}
    (hfits : ∀ x ∈ value, fits x) : (value.map write).bind read = value := by
  cases value with
  | none => rfl
  | some x => exact h x (hfits x rfl)

end Lists

/-! ## Readers that may fail -/

theorem undoes_word : Undoes word (fun n => .whole n) Fits32 := by
  intro n hn
  have hnat : (Json.whole n).asNat? = some n := by simp [Json.whole, Json.asNat?]
  rw [word, hnat, Option.map_some, Nat.mod_eq_of_lt hn]

theorem undoes_text : Undoes Json.asText? Json.text fun _ => True := fun _ _ => rfl

theorem undoes_position : Undoes position? Position.toJson Position.Fits := by
  intro p hp
  have hline : field? p.toJson "line" word = some p.line := by
    simp [field?, Position.toJson, Json.get?_ofFields, undoes_word p.line hp.1]
  have hcharacter : field? p.toJson "character" word = some p.character := by
    simp [field?, Position.toJson, Json.get?_ofFields, undoes_word p.character hp.2]
  simp [position?, hline, hcharacter]

theorem undoes_range : Undoes range? Range.toJson Range.Fits := by
  intro r hr
  have hstart : field? r.toJson "start" position? = some r.start := by
    simp [field?, Range.toJson, Json.get?_ofFields, undoes_position r.start hr.1]
  have hfinish : field? r.toJson "end" position? = some r.finish := by
    simp [field?, Range.toJson, Json.get?_ofFields, undoes_position r.finish hr.2]
  simp [range?, hstart, hfinish]

theorem undoes_location : Undoes location? Location.toJson Location.Fits := by
  intro l hl
  have huri : field? l.toJson "uri" Json.asText? = some l.uri := by
    simp [field?, Location.toJson, Json.get?_ofFields, Json.asText?]
  have hrange : field? l.toJson "range" range? = some l.range := by
    simp [field?, Location.toJson, Json.get?_ofFields, undoes_range l.range hl]
  simp [location?, huri, hrange]

theorem undoes_textEdit : Undoes textEdit? TextEdit.toJson TextEdit.Fits := by
  intro e he
  have hrange : field? e.toJson "range" range? = some e.range := by
    simp [field?, TextEdit.toJson, Json.get?_ofFields, undoes_range e.range he]
  have htext : field? e.toJson "newText" Json.asText? = some e.newText := by
    simp [field?, TextEdit.toJson, Json.get?_ofFields, Json.asText?]
  simp [textEdit?, hrange, htext]

/-- Markup is written as an object that names its kind. -/
theorem markup_toJson (m : Markup) : markup m.toJson = m := by
  have hkind : m.toJson.textField? "kind" = some m.kind := by
    simp [Json.textField?, Markup.toJson, Json.get?_ofFields, Json.asText?]
  have hvalue : m.toJson.textField? "value" = some m.value := by
    simp [Json.textField?, Markup.toJson, Json.get?_ofFields, Json.asText?]
  obtain ⟨fields, hfields⟩ : ∃ fields, m.toJson = .object fields := ⟨_, rfl⟩
  rw [hfields] at hkind hvalue ⊢
  simp [markup, hkind, hvalue]

/-- A hover with nothing to show is dropped. -/
theorem hover?_toJson {h : Hover} (hfits : h.Fits) :
    hover? h.toJson = if h.contents.value = "" then none else some h := by
  have hwrite : h.toJson = .ofFields ([("contents", h.contents.toJson)] ++
      Json.field? "range" (h.range.map Range.toJson)) := rfl
  have hcontents : h.toJson.get? "contents" = some h.contents.toJson := by
    rw [hwrite, Json.get?_optional]
    simp [Json.get?_ofFields]
  have hrange : field? h.toJson "range" range? = h.range := by
    rw [field?, hwrite, Json.get?_optional, if_pos rfl]
    simpa [Json.get?_ofFields] using undoes_range.option hfits
  simp [hover?, hcontents, markup_toJson, hrange]

/-- Each field of an item is found, whatever others are left out. -/
theorem get?_completionItem (c : CompletionItem) :
    c.toJson.get? "label" = some (.text c.label) ∧
    c.toJson.get? "kind" = c.kind.map (fun n : Nat => .whole n) ∧
    c.toJson.get? "detail" = c.detail.map .text ∧
    c.toJson.get? "documentation" = c.documentation.map Markup.toJson ∧
    c.toJson.get? "insertText" = c.insertText.map .text ∧
    c.toJson.get? "insertTextFormat" = c.insertTextFormat.map (fun n : Nat => .whole n) ∧
    c.toJson.get? "sortText" = c.sortText.map .text ∧
    c.toJson.get? "filterText" = c.filterText.map .text ∧
    c.toJson.get? "textEdit" = c.textEdit.map TextEdit.toJson := by
  have hwhole (value : Option Nat) : value.bind (fun n => some (Json.whole n)) =
      value.map fun n : Nat => .whole n := by
    cases value <;> rfl
  unfold CompletionItem.toJson
  simp only [Json.get?_optional]
  simp [Json.get?_ofFields, Function.comp_def, hwhole]

theorem undoes_completionItem :
    Undoes completionItem? CompletionItem.toJson CompletionItem.Fits := by
  intro c hc
  obtain ⟨hlabel, hkind, hdetail, hdocumentation, hinsertText, hformat, hsortText, hfilterText,
    htextEdit⟩ := get?_completionItem c
  have htext (value : Option String) : (value.map Json.text).bind Json.asText? = value :=
    undoes_text.option fun _ _ => trivial
  have hmarkup : (c.documentation.map Markup.toJson).map markup = c.documentation := by
    rw [Option.map_map]
    exact (Option.map_congr fun m _ => markup_toJson m).trans Option.map_id'
  unfold completionItem? Json.textField? field?
  rw [hlabel, hkind, hdetail, hdocumentation, hinsertText, hformat, hsortText, hfilterText,
    htextEdit, htext, htext, htext, htext, hmarkup, undoes_word.option hc.kind,
    undoes_word.option hc.insertTextFormat, undoes_textEdit.option hc.textEdit]
  rfl

/-! ## Readers that always give a value -/

theorem completionList_toJson {l : CompletionList} (h : l.Fits) : completionList l.toJson = l := by
  have hincomplete : field? l.toJson "isIncomplete" Json.asBool? = some l.isIncomplete := by
    simp [field?, CompletionList.toJson, Json.get?_ofFields, Json.asBool?]
  have hitems : field? l.toJson "items" Json.asArray? =
      some (l.items.map CompletionItem.toJson) := by
    simp [field?, CompletionList.toJson, Json.get?_ofFields, Json.asArray?]
  show CompletionList.mk ((field? l.toJson "isIncomplete" Json.asBool?).getD false)
    (((field? l.toJson "items" Json.asArray?).getD []).filterMap completionItem?) = l
  rw [hincomplete, hitems, Option.getD_some, Option.getD_some, undoes_completionItem.list h]

theorem workspaceEdit_toJson {e : WorkspaceEdit} (h : e.Fits) : workspaceEdit e.toJson = e := by
  have hchanges : field? e.toJson "changes" Json.asObject? =
      some (e.changes.mapValues fun edits => .array (edits.map TextEdit.toJson)) := by
    simp [field?, WorkspaceEdit.toJson, Json.get?_ofFields, Json.asObject?]
  have hnone : field? e.toJson "documentChanges" Json.asArray? = none := by
    simp [field?, WorkspaceEdit.toJson, Json.get?_ofFields]
  have hread : (e.changes.mapValues fun edits => Json.array (edits.map TextEdit.toJson)).mapValues
      textEdits = e.changes := by
    rw [Table.mapValues, Table.mapValues, List.map_map]
    refine (List.map_congr_left fun entry hentry => ?_).trans (List.map_id e.changes)
    have hedits : textEdits (.array (entry.2.map TextEdit.toJson)) = entry.2 :=
      undoes_textEdit.list (h.edits entry hentry)
    exact Prod.ext rfl hedits
  unfold workspaceEdit
  rw [hchanges, hnone]
  exact congrArg WorkspaceEdit.mk hread

/-! ## Lists of any values -/

/-- An item that is an object gives what it gives on its own, and any other nothing. -/
theorem locations_array (items : List Json) :
    locations (.array items) = (items.filter Json.isObject).flatMap locations := by
  have hother (item : Json) (h : item.isObject = false) : locationOrLink? item = none := by
    have hget (key : String) : item.get? key = none := by
      cases item with
      | object fields => cases h
      | _ => rfl
    simp [locationOrLink?, location?, link?, field?, hget]
  show items.filterMap locationOrLink? = _
  induction items with
  | nil => rfl
  | cons item rest ih =>
      cases hobject : item.isObject with
      | false =>
          rw [List.filterMap_cons_none (hother item hobject),
            List.filter_cons_of_neg (by simp [hobject]), ih]
      | true =>
          have halone : locations item = (locationOrLink? item).toList := by
            cases item with
            | object fields => rfl
            | _ => cases hobject
          rw [List.filter_cons_of_pos hobject, List.flatMap_cons, ← ih, halone]
          cases h : locationOrLink? item with
          | none => exact List.filterMap_cons_none h
          | some l => exact List.filterMap_cons_some h

/-- The readers give back every value from what it is written as, a hover if it has something to
show.  Of a list of any values they give what its items give on their own, in order. -/
theorem answers_read_back :
    Undoes position? Position.toJson Position.Fits ∧
    Undoes range? Range.toJson Range.Fits ∧
    Undoes location? Location.toJson Location.Fits ∧
    Undoes textEdit? TextEdit.toJson TextEdit.Fits ∧
    Undoes completionItem? CompletionItem.toJson CompletionItem.Fits ∧
    (∀ l : CompletionList, l.Fits → completionList l.toJson = l) ∧
    (∀ e : WorkspaceEdit, e.Fits → workspaceEdit e.toJson = e) ∧
    (∀ h : Hover, h.Fits → h.contents.value ≠ "" → hover? h.toJson = some h) ∧
    (∀ items, locations (.array items) =
        items.filterMap (fun item => (location? item).or (link? item)) ∧
      locations (.array items) = (items.filter Json.isObject).flatMap locations) ∧
    (∀ items, textEdits (.array items) = items.filterMap textEdit?) := by
  refine ⟨undoes_position, undoes_range, undoes_location, undoes_textEdit, undoes_completionItem,
    fun _ => completionList_toJson, fun _ => workspaceEdit_toJson, fun h hfits hshown => ?_,
    fun items => ⟨rfl, locations_array items⟩, fun _ => rfl⟩
  rw [hover?_toJson hfits, if_neg hshown]

/-- A line up to the greatest character that there is. -/
def wholeLine : Range := ⟨⟨7, 0⟩, ⟨7, 4294967295⟩⟩

theorem fits_wholeLine : wholeLine.Fits := by
  constructor <;> constructor <;> decide

/-- A completion without details that replaces a line. -/
def lineCompletion : CompletionItem :=
  { label := "map", kind := some 3, insertTextFormat := some 2
    textEdit := some ⟨wholeLine, "map"⟩ }

theorem fits_lineCompletion : lineCompletion.Fits where
  kind := by
    rintro n ⟨⟩
    show Fits32 3
    decide
  insertTextFormat := by
    rintro n ⟨⟩
    show Fits32 2
    decide
  textEdit := by
    rintro edit ⟨⟩
    exact fits_wholeLine

/-- Two documents, of which one is not changed. -/
def lineEdit : WorkspaceEdit := ⟨[("file:///a", [⟨wholeLine, "x"⟩]), ("file:///b", [])]⟩

theorem fits_lineEdit : lineEdit.Fits where
  sorted := by
    unfold Table.Sorted
    decide
  edits := by
    refine List.forall_mem_cons.mpr ⟨?_, List.forall_mem_singleton.mpr ?_⟩
    · exact List.forall_mem_singleton.mpr fits_wholeLine
    · exact fun _ hmem => absurd hmem List.not_mem_nil

theorem answers_read_back_line :
    position? wholeLine.finish.toJson = some wholeLine.finish ∧
    range? wholeLine.toJson = some wholeLine ∧
    location? (Location.mk "file:///a" wholeLine).toJson = some ⟨"file:///a", wholeLine⟩ ∧
    textEdit? (TextEdit.mk wholeLine "x").toJson = some ⟨wholeLine, "x"⟩ ∧
    completionItem? lineCompletion.toJson = some lineCompletion ∧
    completionList (CompletionList.mk true [lineCompletion]).toJson = ⟨true, [lineCompletion]⟩ ∧
    workspaceEdit lineEdit.toJson = lineEdit ∧
    hover? (Hover.mk (.markdown "*map*") (some wholeLine)).toJson =
      some ⟨.markdown "*map*", some wholeLine⟩ := by
  obtain ⟨hposition, hrange, hlocation, htextEdit, hitem, hlist, hedit, hhover, -⟩ :=
    answers_read_back
  refine ⟨hposition _ fits_wholeLine.2, hrange _ fits_wholeLine, hlocation _ fits_wholeLine,
    htextEdit _ fits_wholeLine, hitem _ fits_lineCompletion,
    hlist _ (List.forall_mem_singleton.mpr fits_lineCompletion), hedit _ fits_lineEdit,
    hhover _ ?_ (by decide)⟩
  rintro range ⟨⟩
  exact fits_wholeLine

end Rpc.Payload

end EditorHost
