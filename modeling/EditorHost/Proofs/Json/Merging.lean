import EditorHost.Proofs.Json.Routes

/-!
# Trees laid over each other

When one tree is laid over another, what is found behind is the union of what is found at the ends
of the routes of both, and the upper tree decides where both say something.  It says something of a
route whose end it has, and of all routes that go on from a value of it that is not an object
(`Json.Blocked`).

`Json.get?_merge` says this of one name.  From it follow what is found at the end of any route
(`Json.at?_merge`), by induction on the route, and that the upper tree changes nothing when it is
laid over the result again (`Json.merge_merge`), by induction on the upper tree.
-/

namespace EditorHost.Json

variable {lower upper value : Json} {name : String} {path : List String}

/-! ## One name -/

theorem find?_mergeFields {upper : Table Json} (hupper : upper.Sorted) (lower : Table Json) :
    Table.find? (mergeFields lower upper) name =
      match Table.find? upper name with
      | none => Table.find? lower name
      | some v => some (((Table.find? lower name).map fun old => merge old v).getD v) := by
  induction upper generalizing lower with
  | nil => rfl
  | cons field rest ih =>
      obtain ⟨first, v⟩ := field
      obtain ⟨hless, hrest⟩ := Table.sorted_cons.mp hupper
      rw [mergeFields, ih hrest, Table.find?_insert, Table.find?]
      by_cases heq : first = name
      · subst heq
        -- behind its field the name does not come again
        rw [Table.find?_of_lt hless, if_pos rfl, if_pos rfl]
        cases Table.find? lower first <;> rfl
      · rw [if_neg heq, if_neg (Ne.symm heq)]

/-- What a field of the upper tree is laid over is the field of the lower tree. -/
theorem get?_merge {fields : Table Json} (hfields : fields.Sorted) (lower : Json) (name : String) :
    (merge lower (.object fields)).get? name =
      match Table.find? fields name with
      | none => lower.get? name
      | some v => some (((lower.get? name).map fun old => merge old v).getD v) := by
  cases lower with
  | object lower => exact find?_mergeFields hfields lower
  | _ => cases hfind : Table.find? fields name <;> exact hfind

theorem merge_of_not_object (h : upper.isObject = false) (lower : Json) :
    merge lower upper = upper := by
  cases upper <;> first | rfl | cases h

theorem isObject_merge (lower upper : Json) : (merge lower upper).isObject = upper.isObject := by
  cases upper with
  | object fields => cases lower <;> rfl
  | _ => rfl

/-! ## Order -/

theorem mergeFields_induction {P : Table Json → Prop} {lower upper : Table Json} (hlower : P lower)
    (hinsert : ∀ field ∈ upper, ∀ t, P t →
      P (t.insert field.1 (((Table.find? t field.1).map fun old => merge old field.2).getD
        field.2))) : P (mergeFields lower upper) := by
  induction upper generalizing lower with
  | nil => exact hlower
  | cons field rest ih =>
      obtain ⟨hfirst, hrest⟩ := List.forall_mem_cons.mp hinsert
      have hstep := hfirst lower hlower
      obtain ⟨first, v⟩ := field
      rw [mergeFields]
      refine ih ?_ hrest
      cases hfind : Table.find? lower first <;> rw [hfind] at hstep <;> exact hstep

/-- Two trees in order make one in order. -/
theorem Ordered.merge (hlower : lower.Ordered) (hupper : upper.Ordered) :
    (merge lower upper).Ordered := by
  induction hupper generalizing lower with
  | @object fields hsorted below ih =>
      cases lower with
      | object lower =>
          refine mergeFields_induction (P := fun t => (Json.object t).Ordered) hlower
            fun field hfield t ht => ?_
          obtain ⟨htsorted, htbelow⟩ := throughout_object.mp ht
          refine .object (htsorted.insert _ _) fun other hother => ?_
          rcases Table.mem_insert hother with rfl | hother
          · cases hfind : Table.find? t field.1 with
            | none => exact below field hfield
            | some old => exact ih field hfield (htbelow _ (Table.mem_of_find? hfind))
          · exact htbelow other hother
      | _ => exact .object hsorted below
  | other h =>
      rw [merge_of_not_object h]
      exact .other h

/-! ## The ends of routes -/

/-- What is found at the end of a route, unless it is an object. -/
theorem at?_merge (hupper : upper.Ordered) (lower : Json) (hvalue : value.isObject = false) :
    (merge lower upper).at? path = some value ↔ upper.at? path = some value ∨
      lower.at? path = some value ∧ upper.at? path = none ∧ ¬ upper.Blocked path := by
  induction path generalizing lower upper with
  | nil =>
      have hsame : merge lower upper = value ↔ upper = value := by
        constructor
        · rintro rfl
          rw [isObject_merge] at hvalue
          exact (merge_of_not_object hvalue lower).symm
        · rintro rfl
          exact merge_of_not_object hvalue lower
      simpa using hsame
  | cons part rest ih =>
      cases hupper with
      | @object fields hsorted below =>
          rw [at?_cons, at?_cons, at?_cons, get?_merge hsorted, blocked_cons]
          cases hfind : Table.find? fields part with
          | none => simp [get?, hfind, isObject]
          | some v =>
              have hv := below _ (Table.mem_of_find? hfind)
              cases hold : lower.get? part with
              | none => simp [get?, hfind]
              | some old => simpa [get?, hfind, isObject] using ih hv old
      | other h =>
          rw [merge_of_not_object h]
          simp [blocked_cons, h]

/-! ## Laying over again -/

/-- Fields that are there already, as they come to be, change nothing. -/
theorem mergeFields_of_find? {lower upper : Table Json} (hlower : lower.Sorted)
    (h : ∀ field ∈ upper, ∃ v, Table.find? lower field.1 = some v ∧ merge v field.2 = v) :
    mergeFields lower upper = lower := by
  refine mergeFields_induction (P := (· = lower)) rfl ?_
  rintro field hfield t rfl
  obtain ⟨v, hfind, hmerge⟩ := h field hfield
  rw [hfind, Option.map_some, Option.getD_some, hmerge, hlower.insert_of_find? hfind]

/-- A tree that is laid over the result again changes nothing. -/
theorem merge_merge (hlower : lower.Ordered) (hupper : upper.Ordered) :
    merge (merge lower upper) upper = merge lower upper := by
  induction hupper generalizing lower with
  | @object fields hsorted below ih =>
      obtain ⟨result, hresult⟩ : ∃ result, merge lower (.object fields) = .object result := by
        cases lower <;> exact ⟨_, rfl⟩
      have hordered := hlower.merge (.object hsorted below)
      rw [hresult] at hordered ⊢
      refine congrArg Json.object (mergeFields_of_find? (throughout_object.mp hordered).1 ?_)
      intro field hfield
      have hfind : Table.find? result field.1 =
          some (((lower.get? field.1).map fun old => merge old field.2).getD field.2) := by
        have hget := get?_merge hsorted lower field.1
        rwa [hresult, hsorted.find?_of_mem hfield] at hget
      refine ⟨_, hfind, ?_⟩
      cases hold : lower.get? field.1 with
      | none =>
          -- a new field is as if it had been laid over nothing
          have hnull : merge .null field.2 = field.2 := by cases field.2 <;> rfl
          have hagain := ih field hfield (.other rfl : Ordered .null)
          simpa [hnull] using hagain
      | some old =>
          cases hlower with
          | object _ hbelow => exact ih field hfield (hbelow _ (Table.mem_of_find? hold))
          | other h => exact absurd (isObject_of_get? hold) (by simp [h])
  | other h => rw [merge_of_not_object h, merge_of_not_object h]

/-- **Laying a tree over another.**  The result is a tree in order.  What it has at the ends of
routes, apart from objects, is what the upper tree has there, and what the lower tree has at the
ends of those routes of which the upper tree says nothing.  To lay the upper tree over the result
again changes nothing. -/
theorem leaves_merge (hlower : lower.Ordered) (hupper : upper.Ordered) :
    (merge lower upper).Ordered ∧
    (∀ path value, value.isObject = false →
      ((merge lower upper).at? path = some value ↔
        upper.at? path = some value ∨
          lower.at? path = some value ∧ upper.at? path = none ∧ ¬ upper.Blocked path)) ∧
    merge (merge lower upper) upper = merge lower upper :=
  ⟨hlower.merge hupper, fun _ _ hvalue => at?_merge hupper lower hvalue, merge_merge hlower hupper⟩

/-- Settings of a user, with a section, a list, and what is no section. -/
def plainSettings : Json :=
  .object [("editor", .object [("tabs", .whole 4), ("wrap", .bool false)]), ("lint", .text "all"),
    ("paths", .array [.text "a"]), ("zoom", .object [])]

/-- Settings that change a value, make a section of a value, and put a value in the place of
sections. -/
def otherSettings : Json :=
  .object [("editor", .object [("tabs", .whole 2)]), ("lint", .object [("on", .bool true)]),
    ("paths", .object []), ("zoom", .null)]

theorem ordered_plainSettings : plainSettings.Ordered := by
  refine .object (by unfold Table.Sorted; decide) ?_
  simp only [List.forall_mem_cons]
  refine ⟨.object (by unfold Table.Sorted; decide) ?_, .other rfl, .other rfl,
    .object Table.sorted_nil nofun, nofun⟩
  simp only [List.forall_mem_cons]
  exact ⟨.other rfl, .other rfl, nofun⟩

theorem ordered_otherSettings : otherSettings.Ordered := by
  refine .object (by unfold Table.Sorted; decide) ?_
  simp only [List.forall_mem_cons]
  refine ⟨.object (by unfold Table.Sorted; decide) ?_, .object (by unfold Table.Sorted; decide) ?_,
    .object Table.sorted_nil nofun, .other rfl, nofun⟩
  all_goals
    simp only [List.forall_mem_cons]
    exact ⟨.other rfl, nofun⟩

/-- The wrapping stays; the list goes, as an empty section has taken its place. -/
theorem leaves_merge_settings : plainSettings.Ordered ∧ otherSettings.Ordered ∧
    (merge plainSettings otherSettings).at? ["editor", "wrap"] = some (.bool false) ∧
    (merge plainSettings otherSettings).at? ["paths"] ≠ some (.array [.text "a"]) ∧
    merge (merge plainSettings otherSettings) otherSettings =
      merge plainSettings otherSettings := by
  obtain ⟨-, hleaves, hagain⟩ := leaves_merge ordered_plainSettings ordered_otherSettings
  refine ⟨ordered_plainSettings, ordered_otherSettings, ?_, ?_, hagain⟩
  · refine (hleaves _ _ rfl).mpr (.inr ⟨rfl, rfl, ?_⟩)
    rw [blocked_cons]
    rintro (h | ⟨child, hchild, hblocked⟩)
    · cases h
    · cases hchild
      rw [blocked_cons] at hblocked
      obtain h | ⟨child, hchild, -⟩ := hblocked
      · cases h
      · cases hchild
  · intro hfound
    rcases (hleaves _ _ rfl).mp hfound with h | ⟨-, h, -⟩
    · cases h
    · cases h

end EditorHost.Json
