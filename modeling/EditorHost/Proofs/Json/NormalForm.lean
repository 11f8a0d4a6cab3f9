import EditorHost.Proofs.Json.Expansion

/-!
# The normal form of settings

When an object is expanded its dotted fields are moved first, and then each of the values that it
has is expanded in turn.  These are not the values that it had: a field that was moved stands in a
section which may be new, or larger than before, and under a name that may have dots again.

The expansion ends all the same (`Json.Expands`), as what is below an object reaches less far than
the object did, counting every character of every name (`Json.reach`).  It ends with a tree in which
no name has a dot, also where names begin or end with dots or have several in a row, and such a tree
is expanded to itself.  Nothing is made up on the way: what is not a section, every array among
others, was in the tree before, and is as it was.

## Contents

* `Json.Expands`: the expansion of a tree comes to its end.
* `Json.settings_expandLevels`: no setting is made up.
* `Json.expandLevels_of_undotted`: a tree without dotted names stays.
* `Json.normalForm_expandDots`: expanding a tree brings it to its normal form.
-/

namespace EditorHost.Json

variable {v w w' : Json} {fields : Table Json}

/-! ## Coming to an end -/

/-- The expansion of a value comes to an end with another one: for an object, the expansions of all
values below the moved fields do. -/
inductive Expands : Json → Json → Prop where
  | object {fields : Table Json} (f : Json → Json)
      (below : ∀ field ∈ moveFields fields, Expands field.2 (f field.2)) :
      Expands (.object fields) (.object (Table.mapValues (moveFields fields) f))
  | other {v : Json} (h : v.isObject = false) : Expands v v

/-- It ends in one way only. -/
theorem Expands.unique (h : Expands v w) (h' : Expands v w') : w = w' := by
  induction h generalizing w' with
  | @object fields f _ ih =>
      cases h' with
      | object f' below' =>
          have hvalues : ∀ field ∈ moveFields fields,
              (field.1, f field.2) = (field.1, f' field.2) :=
            fun field hfield => congrArg (field.1, ·) (ih field hfield (below' field hfield))
          rw [Table.mapValues, Table.mapValues, List.map_congr_left hvalues]
      | other h => cases h
  | other h =>
      cases h' with
      | object => cases h
      | other => rfl

/-- With as many levels as the tree reaches, the expansion ends. -/
theorem expands_expandLevels (levels : Nat) (hreach : v.reach ≤ levels) (hordered : v.Ordered) :
    Expands v (expandLevels levels v) := by
  induction levels generalizing v with
  | zero =>
      cases v with
      | object fields => exact absurd hreach (by simp [reach])
      | _ => exact .other rfl
  | succ levels ih =>
      cases v with
      | object fields =>
          rw [reach, Nat.add_le_add_iff_right] at hreach
          obtain ⟨-, hmoved, -⟩ := moveFields_induction (P := fun _ => True) hordered trivial
            fun _ _ _ _ => trivial
          -- a field that was moved may have a larger value, but not one that reaches farther
          refine .object _ fun field hfield => ih ?_ ?_
          · exact (reach_moveFields hordered hfield).trans hreach
          · exact (throughout_object.mp hmoved).2 field hfield
      | _ => exact .other rfl

/-! ## What is in the tree -/

theorem mem_settings_nodesOf {path : List String} {value : Json} :
    (path, value) ∈ (nodesOf fields).settings ↔ ∃ field ∈ fields, ∃ inner,
      (inner, value) ∈ (nodes field.2).settings ∧ path = route field.1 ++ inner := by
  simp only [Nodes.mem_settings, mem_nodesOf]
  constructor
  · rintro ⟨field, hfield, ⟨inner, own⟩, hinner, heq⟩
    obtain ⟨rfl, rfl⟩ := Prod.mk.inj heq
    exact ⟨field, hfield, inner, hinner, rfl⟩
  · rintro ⟨field, hfield, inner, hinner, rfl⟩
    exact ⟨field, hfield, _, hinner, rfl⟩

theorem settings_nodesOf_subset (fields : Table Json) :
    (nodesOf fields).settings ⊆ (nodes (.object fields)).settings := by
  cases fields with
  | nil => exact List.nil_subset _
  | cons field fields => exact List.Subset.refl _

/-- A setting that a field was put beside was there, or is one of that field. -/
theorem settings_insert {t : Table Json} {name : String} {value own : Json} {path : List String}
    (h : (path, own) ∈ (nodes (.object (t.insert name value))).settings) :
    (path, own) ∈ (nodesOf t).settings ∨
      ∃ below, (below, own) ∈ (nodes value).settings ∧ path = route name ++ below := by
  have hne : t.insert name value ≠ [] := by
    intro hnil
    have hfind := Table.find?_insert_self t name value
    rw [hnil] at hfind
    cases hfind
  rw [nodes_section hne, Nodes.settings_cons_section] at h
  obtain ⟨field, hfield, below, hbelow, rfl⟩ := mem_settings_nodesOf.mp h
  rcases Table.mem_insert hfield with rfl | hfield
  · exact .inr ⟨below, hbelow, rfl⟩
  · exact .inl (mem_settings_nodesOf.mpr ⟨field, hfield, below, hbelow, rfl⟩)

/-- No setting is made up when a field is moved. -/
theorem settings_moveField {name first rest : String} {value : Json} (hsorted : fields.Sorted)
    (hmem : (name, value) ∈ fields) (hsplit : Text.splitTextOnce '.' name = some (first, rest)) :
    (nodesOf (moveField fields name value)).settings ⊆ (nodesOf fields).settings := by
  obtain ⟨hroute, hfirst, -⟩ := route_of_splitOnce hsplit
  rintro ⟨path, own⟩ hsetting
  have hkept {key : String} {v : Json} {inner : List String} (hfield : (key, v) ∈ fields)
      (hinner : (inner, own) ∈ (nodes v).settings) :
      (route key ++ inner, own) ∈ (nodesOf fields).settings :=
    mem_settings_nodesOf.mpr ⟨_, hfield, inner, hinner, rfl⟩
  have hmoving {below : List String} (hbelow : (below, own) ∈ (nodes value).settings) :
      (route first ++ (route rest ++ below), own) ∈ (nodesOf fields).settings := by
    have hvalue := hkept hmem hbelow
    rwa [hroute, List.cons_append, ← List.singleton_append, ← route_of_not_mem hfirst] at hvalue
  obtain ⟨field, hfield, inner, hinner, rfl⟩ := mem_settings_nodesOf.mp hsetting
  obtain ⟨others, ⟨-, hfields, hmoved⟩ | ⟨old, hfields, hmoved⟩⟩ :=
    moveField_cases hsorted hmem hsplit
  all_goals rcases List.mem_cons.mp (hmoved.mem_iff.mp hfield) with rfl | hother
  · -- the new section has the one field
    obtain hnone | ⟨below, hbelow, rfl⟩ := settings_insert (t := []) hinner
    · cases hnone
    · exact hmoving hbelow
  · exact hkept (hfields.mem_iff.mpr (by simp [hother])) hinner
  · have hold : (first, old) ∈ fields := hfields.mem_iff.mpr (by simp)
    cases old with
    | object there =>
        obtain hthere | ⟨below, hbelow, rfl⟩ := settings_insert hinner
        · exact hkept hold (settings_nodesOf_subset there hthere)
        · exact hmoving hbelow
    | _ => exact hkept hold hinner
  · exact hkept (hfields.mem_iff.mpr (by simp [hother])) hinner

theorem settings_moveFields (hordered : (object fields).Ordered) :
    (nodesOf (moveFields fields)).settings ⊆ (nodesOf fields).settings :=
  (moveFields_induction (P := fun t => (nodesOf t).settings ⊆ (nodesOf fields).settings) hordered
    (List.Subset.refl _) fun ht hsubset hmem hsplit =>
      List.Subset.trans (settings_moveField (throughout_object.mp ht).1 hmem hsplit) hsubset).1

/-- No setting is made up on any level. -/
theorem settings_expandLevels (levels : Nat) (hordered : v.Ordered) :
    (nodes (expandLevels levels v)).settings ⊆ (nodes v).settings := by
  induction levels generalizing v with
  | zero => exact List.Subset.refl _
  | succ levels ih =>
      cases v with
      | object fields =>
          by_cases hempty : fields = []
          · subst hempty
            exact List.Subset.refl _
          obtain ⟨-, hmoved, -⟩ := moveFields_induction (P := fun _ => True) hordered trivial
            fun _ _ _ _ => trivial
          have hne := moveFields_ne_nil hordered hempty
          rw [expandLevels, nodes_section (by simpa [Table.mapValues] using hne),
            nodes_section hempty, Nodes.settings_cons_section, Nodes.settings_cons_section]
          rintro ⟨path, own⟩ hsetting
          -- back from the expanded value to the moved one, and from there to the tree
          obtain ⟨field, hfield, inner, hinner, rfl⟩ := mem_settings_nodesOf.mp hsetting
          obtain ⟨before, hbefore, rfl⟩ := List.mem_map.mp hfield
          have hbelow := ih ((throughout_object.mp hmoved).2 before hbefore) hinner
          exact settings_moveFields hordered
            (mem_settings_nodesOf.mpr ⟨before, hbefore, inner, hbelow, rfl⟩)
      | _ => exact List.Subset.refl _

/-! ## Without dotted names -/

theorem moveFields_of_undotted (h : ∀ field ∈ fields, '.' ∉ field.1.toList) :
    moveFields fields = fields := by
  have hnone : fields.filter (fun field => field.1.toList.contains '.') = [] :=
    List.filter_eq_nil_iff.mpr fun field hfield hdot =>
      h field hfield (List.contains_iff_mem.mp hdot)
  rw [moveFields, hnone, List.foldl_nil]

/-- A tree without dotted names stays, with any number of levels. -/
theorem expandLevels_of_undotted (levels : Nat) (h : v.Undotted) : expandLevels levels v = v := by
  induction levels generalizing v with
  | zero => rfl
  | succ levels ih =>
      cases h with
      | @object fields hdots below =>
          have hvalues : ∀ field ∈ fields, (field.1, expandLevels levels field.2) = field :=
            fun field hfield => congrArg (field.1, ·) (ih (below field hfield))
          rw [expandLevels, moveFields_of_undotted hdots, Table.mapValues,
            List.map_congr_left hvalues, List.map_id']
      | other h =>
          cases v with
          | object => cases h
          | _ => rfl

/-! ## The normal form -/

/-- **The normal form.**  The expansion of a tree comes to an end, in one way; then no name has a
dot, and nothing but sections was changed.  A tree without dotted names is left as it is, so that to
expand a tree twice is to expand it once. -/
theorem normalForm_expandDots (hordered : v.Ordered) :
    (∀ w, Expands v w ↔ w = expandDots v) ∧
    (expandDots v).Undotted ∧
    (∀ path value, (expandDots v).at? path = some value → value.isSection = false →
      (path, value) ∈ (nodes v).settings) ∧
    (v.Undotted → expandDots v = v) ∧
    expandDots (expandDots v) = expandDots v := by
  have hends : Expands v (expandDots v) := expands_expandLevels v.reach (Nat.le_refl _) hordered
  obtain ⟨hordered', hundotted, -⟩ := expandLevels_spec v.reach v (Nat.le_refl _) hordered
  refine ⟨fun w => ⟨fun h => h.unique hends, fun h => h ▸ hends⟩, hundotted,
    fun path value hvalue hsection => ?_, expandLevels_of_undotted _,
    expandLevels_of_undotted _ hundotted⟩
  exact settings_expandLevels v.reach hordered
    ((mem_settings_iff hordered' hundotted).mpr ⟨hvalue, hsection⟩)

/-- Settings with dots in all places of names, one of them where a setting stands in the way. -/
def scattered : Json :=
  .object [(".a", .bool true), ("b", .null), ("b.c", .bool false),
    ("x..y.", .array [.object [("d.e", .null)]])]

theorem ordered_scattered : scattered.Ordered := by
  refine .object (by unfold Table.Sorted; decide) ?_
  simp only [List.forall_mem_cons]
  exact ⟨.other rfl, .other rfl, .other rfl, .other rfl, nofun⟩

/-- Empty parts are names of their own, and what is in the list is left alone. -/
theorem normalForm_scattered :
    scattered.Ordered ∧
    Expands scattered (.object [("", .object [("a", .bool true)]), ("b", .null),
      ("x", .object [("", .object [("y", .object [("",
        .array [.object [("d.e", .null)]])])])])]) :=
  ⟨ordered_scattered, ((normalForm_expandDots ordered_scattered).1 _).mpr (by decide +kernel)⟩

end EditorHost.Json
