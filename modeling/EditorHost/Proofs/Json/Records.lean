import EditorHost.Proofs.Payload.Reading

/-!
# Records as they are written

A record is written as an object, in which each field is found under its name, or is missing where
there was nothing to write.  So a reader of records finds in the slots what was written
(`slots_ofFields`), and reads each field back if the reader of the field undoes its writer.

In the other direction, what has been read for a field is something that the reader of the field
gives, or the default of the field.  This is how what a reader makes sure of is known of a record
that was read (`Json.Gives`).
-/

namespace EditorHost

open Rpc.Payload (Undoes)

namespace Json

variable {α : Type} {read : Json → Option α} {write : α → Json} {fits : α → Prop}

/-! ## Fields that were written -/

theorem get?_append (first second : List (String × Json)) (key : String) :
    (ofFields (first ++ second)).get? key =
      ((ofFields second).get? key).or ((ofFields first).get? key) := by
  rw [get?_ofFields, get?_ofFields, get?_ofFields, List.reverse_append, List.find?_append,
    Option.map_or]

theorem get?_cons (field : String × Json) (rest : List (String × Json)) (key : String) :
    (ofFields (field :: rest)).get? key =
      ((ofFields rest).get? key).or (if key = field.1 then some field.2 else none) := by
  have hone : (ofFields [field]).get? key = if key = field.1 then some field.2 else none := by
    by_cases h : key = field.1
    · simp [get?_ofFields, h]
    · simp [get?_ofFields, h, Ne.symm h]
  rw [← List.singleton_append, get?_append, hone]

@[simp] theorem get?_nil (key : String) : (ofFields []).get? key = none := rfl

theorem get?_field? (name : String) (value : Option Json) (key : String) :
    (ofFields (field? name value)).get? key = if key = name then value else none := by
  rw [← List.nil_append (field? name value), get?_optional, get?_nil, Option.or_none]

/-- What stands in the place of a field that is looked up by its name. -/
def Slot.found : Option Json → Slot
  | some v => .given v
  | none => .missing

@[simp] theorem Slot.found_some (v : Json) : found (some v) = given v := rfl

theorem slots_ofFields (names : List String) (fields : List (String × Json)) :
    slots names (ofFields fields) =
      some (names.map fun name => Slot.found ((ofFields fields).get? name)) := by
  refine congrArg some (List.map_congr_left fun name _ => ?_)
  have hget : (ofFields fields).get? name = Table.find? (Table.ofList fields) name := rfl
  rw [hget]
  cases Table.find? (Table.ofList fields) name <;> rfl

namespace Slot

@[simp] theorem required_given (read : Json → Option α) (v : Json) :
    (given v).required read = read v := rfl

@[simp] theorem orElse_given (read : Json → Option α) (fallback : α) (v : Json) :
    (given v).orElse read fallback = read v := rfl

theorem optional_given {v : Json} (h : v ≠ .null) (read : Json → Option α) :
    (given v).optional read = (read v).map some := by
  cases v <;> first | rfl | exact absurd rfl h

theorem omittable_given {v : Json} (h : v ≠ .null) (read : Json → Option α) :
    (given v).omittable read = (read v).map some := by
  cases v <;> first | rfl | exact absurd rfl h

/-- What was written of an optional field is read back, where nothing is written as null. -/
theorem optional_found (h : Undoes read write fits) (hnull : ∀ x, write x ≠ .null)
    {value : Option α} (hfits : ∀ x ∈ value, fits x) :
    (found (value.map write)).optional read = some value := by
  cases value with
  | none => rfl
  | some x =>
      rw [Option.map_some, found_some, optional_given (hnull x), h x (hfits x rfl), Option.map_some]

theorem omittable_found (h : Undoes read write fits) (hnull : ∀ x, fits x → write x ≠ .null)
    {value : Option α} (hfits : ∀ x ∈ value, fits x) :
    (found (value.map write)).omittable read = some value := by
  cases value with
  | none => rfl
  | some x =>
      have hx := hfits x rfl
      rw [Option.map_some, found_some, omittable_given (hnull x hx), h x hx, Option.map_some]

/-- So it is with an optional field that is written as null where there is nothing. -/
theorem omittable_ofOption {value : Option Json} (h : value ≠ some .null) :
    (given (ofOption value)).omittable some = some value := by
  cases value with
  | none => rfl
  | some v => exact omittable_given (fun hnull => h (hnull ▸ rfl)) some

end Slot

/-! ## Lists and tables that were written -/

theorem readList_array (h : Undoes read write fits) {values : List α}
    (hfits : ∀ x ∈ values, fits x) : readList read (.array (values.map write)) = some values := by
  rw [readList]
  induction values with
  | nil => rfl
  | cons x rest ih =>
      obtain ⟨hx, hrest⟩ := List.forall_mem_cons.mp hfits
      rw [List.map_cons, List.mapM_cons, h x hx, ih hrest]
      rfl

theorem readList_ofTexts (texts : List String) : readList asText? (ofTexts texts) = some texts :=
  readList_array Rpc.Payload.undoes_text fun _ _ => trivial

theorem readTable_mapValues (h : Undoes read write fits) {t : Table α}
    (hfits : ∀ entry ∈ t, fits entry.2) :
    readTable read (.object (t.mapValues write)) = some t := by
  rw [readTable]
  induction t with
  | nil => rfl
  | cons entry rest ih =>
      obtain ⟨hentry, hrest⟩ := List.forall_mem_cons.mp hfits
      rw [Table.mapValues, List.map_cons, List.mapM_cons, ← Table.mapValues, ih hrest]
      simp only [h entry.2 hentry, Option.map_some]
      rfl

/-! ## What was read -/

/-- A reader gives only what fits. -/
def Gives (read : Json → Option α) (fits : α → Prop) : Prop := ∀ v x, read v = some x → fits x

/-- What a reader gives is read again from what it is written as. -/
def Settles (read : Json → Option α) (write : α → Json) : Prop :=
  ∀ v x, read v = some x → read (write x) = some x

theorem settles_of_undoes (h : Undoes read write fits) (hgives : Gives read fits) :
    Settles read write :=
  fun v x hread => h x (hgives v x hread)

namespace Gives

variable {slot : Slot} {x : α}

theorem required (h : Gives read fits) (hread : slot.required read = some x) : fits x := by
  cases slot with
  | given v => exact h v x hread
  | missing => cases hread
  | beyond => cases hread

theorem orElse (h : Gives read fits) {fallback : α} (hfallback : fits fallback)
    (hread : slot.orElse read fallback = some x) : fits x := by
  cases slot with
  | given v => exact h v x hread
  | missing => exact Option.some.inj hread ▸ hfallback
  | beyond => exact Option.some.inj hread ▸ hfallback

theorem list (h : Gives read fits) : Gives (readList read) fun xs => ∀ x ∈ xs, fits x := by
  intro v xs hread
  cases v with
  | array items =>
      rw [readList] at hread
      induction items generalizing xs with
      | nil =>
          cases hread
          exact nofun
      | cons item items ih =>
          rw [List.mapM_cons] at hread
          obtain ⟨first, hfirst, hread⟩ := Option.bind_eq_some_iff.mp hread
          obtain ⟨rest, hrest, hread⟩ := Option.bind_eq_some_iff.mp hread
          cases hread
          exact List.forall_mem_cons.mpr ⟨h item first hfirst, ih rest hrest⟩
  | _ => cases hread

theorem table (h : Gives read fits) : Gives (readTable read) fun t => ∀ e ∈ t, fits e.2 := by
  intro v t hread
  cases v with
  | object fields =>
      rw [readTable] at hread
      induction fields generalizing t with
      | nil =>
          cases hread
          exact nofun
      | cons field fields ih =>
          rw [List.mapM_cons] at hread
          obtain ⟨first, hfirst, hread⟩ := Option.bind_eq_some_iff.mp hread
          obtain ⟨rest, hrest, hread⟩ := Option.bind_eq_some_iff.mp hread
          cases hread
          obtain ⟨value, hvalue, rfl⟩ := Option.map_eq_some_iff.mp hfirst
          exact List.forall_mem_cons.mpr ⟨h field.2 value hvalue, ih rest hrest⟩
  | _ => cases hread

end Gives

/-- What may be any value is not read as null. -/
theorem Slot.ne_null_of_omittable {slot : Slot} {value : Option Json}
    (h : slot.omittable some = some value) : value ≠ some .null := by
  rintro rfl
  cases slot with
  | given v => cases v <;> simp [omittable] at h
  | missing => cases h
  | beyond => cases h

end Json

end EditorHost
