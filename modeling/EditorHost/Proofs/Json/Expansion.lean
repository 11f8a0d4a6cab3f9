import EditorHost.Proofs.Json.Nodes
import Mathlib.Algebra.Order.BigOperators.Group.List
import Mathlib.Algebra.Order.Ring.Nat

/-!
# Expanding dotted names

When the dotted names of a tree of settings are expanded, every section is to be nested.  Fields are
moved down one after another, and each is put into the section named by its first part.  A field
that the section has already under the name of the rest is replaced.

Where settings are found without one standing in the way of another, what is replaced is a section,
that is, the tree writes one section in two places; the settings in the first of them are lost, and
no others (`Json.settings_expandDots`).

## Contents

* `Json.Nodes.Reduces`: settings may be lost, and are as long as no section is written twice.
* `Json.moveField_cases` and `Json.reduces_moveField`: what moving one field does.
* `Json.moveFields_induction`: what moving one field keeps, moving all of them does.
* `Json.expandLevels_spec`: with as many levels as the tree reaches, no dotted name is left.
* `Json.settings_expandDots`: which settings a tree has behind the expansion.
-/

namespace EditorHost.Json

/-! ## Reducing -/

namespace Nodes

variable {ns ns' ns'' ms ms' : Nodes} {parts : List String}

/-- Settings may be lost on the way, and none is if no section is written twice. -/
structure Reduces (ns ns' : Nodes) : Prop where
  settings : ns'.settings.Subperm ns.settings
  sections : ns.sections.Nodup ↔ ns'.sections.Nodup ∧ ns'.settings.Perm ns.settings

namespace Reduces

/-- What is lost is in a section that is written twice. -/
theorem of_lost {lost : Nodes} (h : ns.Perm (lost ++ ns')) {setting : List String × Json}
    (hlost : setting ∈ lost.settings) (htwice : ¬ ns.sections.Nodup) : Reduces ns ns' := by
  have hsettings := perm_settings h
  rw [settings_append] at hsettings
  refine ⟨(List.sublist_append_right _ _).subperm.trans hsettings.symm.subperm,
    iff_of_false htwice fun hkept => ?_⟩
  have hlength := hkept.2.length_eq.trans hsettings.length_eq
  have hpos := List.length_pos_of_mem hlost
  rw [List.length_append] at hlength
  omega

theorem of_perm (h : ns.Perm ns') : Reduces ns ns' where
  settings := (perm_settings h).symm.subperm
  sections := by
    rw [(perm_sections h).nodup_iff]
    exact (and_iff_left (perm_settings h).symm).symm

theorem trans (h : Reduces ns ns') (h' : Reduces ns' ns'') : Reduces ns ns'' where
  settings := h'.settings.trans h.settings
  sections := by
    rw [h.sections, h'.sections]
    constructor
    · rintro ⟨⟨hnodup, hsecond⟩, hfirst⟩
      exact ⟨hnodup, hsecond.trans hfirst⟩
    · rintro ⟨hnodup, hperm⟩
      -- What is not lost on the whole way is not lost on either part.
      have hfirst : ns'.settings.Perm ns.settings :=
        h.settings.perm_of_length_le (hperm.length_eq ▸ h'.settings.length_le)
      exact ⟨⟨hnodup, hperm.trans hfirst.symm⟩, hfirst⟩

theorem below (h : Reduces ns ns') (parts : List String) :
    Reduces (ns.below parts) (ns'.below parts) := by
  have hinjective : Function.Injective fun s : List String × Json => (parts ++ s.1, s.2) := by
    rintro ⟨a, x⟩ ⟨b, y⟩ heq
    simpa using heq
  refine ⟨?_, ?_⟩
  · rw [settings_below, settings_below]
    exact h.settings.map hinjective
  · rw [sections_below, sections_below, settings_below, settings_below,
      List.nodup_map_iff (List.append_right_injective parts),
      List.nodup_map_iff (List.append_right_injective parts), h.sections,
      List.map_perm_map_iff hinjective]

theorem append (h : Reduces ns ns') (h' : Reduces ms ms')
    (hapart : ns.sections.Disjoint ms.sections) (hapart' : ns'.sections.Disjoint ms'.sections) :
    Reduces (ns ++ ms) (ns' ++ ms') where
  settings := by
    rw [settings_append, settings_append]
    exact h.settings.append h'.settings
  sections := by
    rw [sections_append, sections_append, List.nodup_append', List.nodup_append', h.sections,
      h'.sections, settings_append, settings_append]
    constructor
    · rintro ⟨⟨hnodup, hperm⟩, ⟨hnodup', hperm'⟩, -⟩
      exact ⟨⟨hnodup, hnodup', hapart'⟩, hperm.append hperm'⟩
    · rintro ⟨⟨hnodup, hnodup', -⟩, hperm⟩
      have hlength := hperm.length_eq
      rw [List.length_append, List.length_append] at hlength
      have hle := h.settings.length_le
      have hle' := h'.settings.length_le
      exact ⟨⟨hnodup, h.settings.perm_of_length_le (by omega)⟩,
        ⟨hnodup', h'.settings.perm_of_length_le (by omega)⟩, hapart⟩

/-- One more section does not matter if it is written nowhere else. -/
theorem cons_section (h : Reduces ns ns') (hnot : parts ∉ ns.sections)
    (hnot' : parts ∉ ns'.sections) : Reduces ((parts, none) :: ns) ((parts, none) :: ns') where
  settings := h.settings
  sections := by
    rw [sections_cons_section, sections_cons_section, List.nodup_cons, List.nodup_cons, h.sections]
    simp [hnot, hnot']

theorem new_section (h : Reduces ns ns') (hnot : parts ∉ ns'.sections) :
    Reduces ns ((parts, none) :: ns') where
  settings := h.settings
  sections := by
    rw [sections_cons_section, List.nodup_cons, h.sections]
    simp [hnot]

end Reduces

end Nodes

/-- Whether the name of a field has a dot. -/
def isDotted (field : String × Json) : Bool := field.1.toList.contains '.'

theorem isDotted_of_splitOnce {name first rest : String}
    (h : Text.splitTextOnce '.' name = some (first, rest)) (value : Json) :
    isDotted (name, value) = true := by
  by_contra hnot
  have hroute := (route_of_splitOnce h).1
  rw [route_of_not_mem fun hdot => hnot (List.contains_iff_mem.mpr hdot)] at hroute
  exact route_ne_nil rest (List.cons.inj hroute).2.symm

/-! ## Moving one field -/

/-- What is in the place of a section into which a field is put. -/
def takeIn (old : Json) (name : String) (value : Json) : Json :=
  match old with
  | .object inner => .object (Table.insert inner name value)
  | other => other

section Moving

variable {fields : Table Json} {name first rest : String} {value : Json}

/-- A field is put into a new section or into what there is under its first part. -/
theorem moveField_cases (hsorted : fields.Sorted) (hmem : (name, value) ∈ fields)
    (hsplit : Text.splitTextOnce '.' name = some (first, rest)) : ∃ others : Table Json,
      (others.find? first = none ∧ fields.Perm ((name, value) :: others) ∧
        (moveField fields name value).Perm ((first, .object [(rest, value)]) :: others)) ∨
      ∃ old, fields.Perm ((name, value) :: (first, old) :: others) ∧
        (moveField fields name value).Perm ((first, takeIn old rest value) :: others) := by
  have hrest := hsorted.erase name
  have hperm := Table.perm_of_mem hsorted hmem
  simp only [moveField, hsplit]
  cases hfind : (fields.erase name).find? first with
  | none =>
      refine ⟨fields.erase name, .inl ⟨hfind, hperm, ?_⟩⟩
      have hinsert := Table.perm_insert hrest first (.object [(rest, value)])
      rwa [Table.erase_of_find?_none hfind] at hinsert
  | some old =>
      have hold := Table.perm_of_mem hrest (Table.mem_of_find? hfind)
      refine ⟨(fields.erase name).erase first, .inr ⟨old, hperm.trans (hold.cons _), ?_⟩⟩
      cases old with
      | object inner => exact Table.perm_insert hrest first _
      | _ => exact hold

theorem ordered_takeIn {old : Json} (hold : old.Ordered) (hvalue : value.Ordered) :
    (takeIn old name value).Ordered := by
  cases old with
  | object inner =>
      obtain ⟨hsorted, hbelow⟩ := throughout_object.mp hold
      refine .object (hsorted.insert name value) fun field hfield => ?_
      rcases Table.mem_insert hfield with rfl | hfield
      · exact hvalue
      · exact hbelow field hfield
  | _ => exact .other rfl

theorem sorted_moveField (hsorted : fields.Sorted) (name : String) (value : Json) :
    (moveField fields name value).Sorted := by
  unfold moveField
  split
  · exact hsorted
  · dsimp only
    split
    · exact (hsorted.erase _).insert _ _
    · exact (hsorted.erase _).insert _ _
    · exact hsorted.erase _

theorem ordered_moveField (hordered : (object fields).Ordered) (hmem : (name, value) ∈ fields)
    (hsplit : Text.splitTextOnce '.' name = some (first, rest)) :
    (object (moveField fields name value)).Ordered := by
  obtain ⟨hsorted, hbelow⟩ := throughout_object.mp hordered
  have hvalue : value.Ordered := hbelow _ hmem
  refine .object (sorted_moveField hsorted name value) fun field hfield => ?_
  obtain ⟨others, ⟨-, hfields, hmoved⟩ | ⟨old, hfields, hmoved⟩⟩ :=
    moveField_cases hsorted hmem hsplit
  · rcases List.mem_cons.mp (hmoved.mem_iff.mp hfield) with rfl | hother
    · refine .object (List.pairwise_singleton _ _) fun inner hinner => ?_
      rw [List.mem_singleton.mp hinner]
      exact hvalue
    · exact hbelow field (hfields.mem_iff.mpr (List.mem_cons_of_mem _ hother))
  · rcases List.mem_cons.mp (hmoved.mem_iff.mp hfield) with rfl | hother
    · exact ordered_takeIn (hbelow (first, old) (hfields.mem_iff.mpr (by simp))) hvalue
    · exact hbelow field (hfields.mem_iff.mpr (by simp [hother]))

/-- The moved field is the only one with a dotted name that goes, and none comes. -/
theorem dotted_moveField (hsorted : fields.Sorted) (hmem : (name, value) ∈ fields)
    (hsplit : Text.splitTextOnce '.' name = some (first, rest)) :
    (fields.filter isDotted).Perm
      ((name, value) :: (moveField fields name value).filter isDotted) := by
  obtain ⟨-, hfirst, -⟩ := route_of_splitOnce hsplit
  have hname := isDotted_of_splitOnce hsplit value
  have hundotted (v : Json) : isDotted (first, v) = false := by simpa [isDotted] using hfirst
  obtain ⟨others, ⟨-, hfields, hmoved⟩ | ⟨old, hfields, hmoved⟩⟩ :=
    moveField_cases hsorted hmem hsplit
  all_goals
    have hbefore := hfields.filter isDotted
    have hbehind := hmoved.filter isDotted
    simp only [List.filter_cons, hname, hundotted, if_true, Bool.false_eq_true, if_false]
      at hbefore hbehind
    exact hbefore.trans (hbehind.symm.cons _)

/-! ### What is in the tree -/

/-- What is in a section of which one field is looked at. -/
theorem perm_nodes_object {inner more : List (String × Json)} {v : Json}
    (h : inner.Perm ((rest, v) :: more)) (first : String) :
    ((nodes (.object inner)).below [first]).Perm
      (([first], none) :: ((nodes v).below (first :: route rest) ++
        (nodesOf more).below [first])) := by
  have hne : inner ≠ [] := by
    rintro rfl
    simp at h
  have hnodes := (perm_nodesOf h).map fun n => ([first] ++ n.1, n.2)
  rw [nodesOf_cons] at hnodes
  rw [nodes_section hne]
  refine (hnodes.cons _).trans (.of_eq ?_)
  simp [Nodes.below]

/-- A field that goes into a new section. -/
theorem reduces_new {others moved : Table Json}
    (hsplit : Text.splitTextOnce '.' name = some (first, rest))
    (hnone : others.find? first = none) (hfields : fields.Perm ((name, value) :: others))
    (hmoved : moved.Perm ((first, .object [(rest, value)]) :: others)) :
    (nodesOf fields).Reduces (nodesOf moved) := by
  obtain ⟨hroute, hfirst, -⟩ := route_of_splitOnce hsplit
  have hbefore := perm_nodesOf hfields
  have hbehind := perm_nodesOf hmoved
  rw [nodesOf_cons, hroute] at hbefore
  rw [nodesOf_cons, route_of_not_mem hfirst] at hbehind
  have hnew : (nodesOf moved).Perm (([first], none) :: nodesOf fields) := by
    refine hbehind.trans (((perm_nodes_object (.refl _) first).append_right _).trans ?_)
    simpa [nodesOf, Nodes.below] using hbefore.symm
  refine .trans (.new_section (.of_perm (.refl _)) ?_) (.of_perm hnew.symm)
  -- Only a field of that name could be the same section.
  intro hsection
  obtain ⟨⟨key, v⟩, hfield, m, -, heq⟩ := mem_nodesOf.mp (Nodes.mem_sections.mp hsection)
  obtain ⟨part, parts, hparts⟩ := List.exists_cons_of_ne_nil (route_ne_nil key)
  rw [Prod.mk.injEq, hparts, List.cons_append, List.cons.injEq, eq_comm (a := []),
    List.append_eq_nil_iff] at heq
  obtain ⟨⟨rfl, rfl, -⟩, -⟩ := heq
  obtain rfl := eq_of_route hparts
  rcases List.mem_cons.mp (hfields.mem_iff.mp hfield) with heq | hother
  · obtain ⟨rfl, -⟩ := Prod.mk.inj heq
    rw [hroute] at hparts
    exact route_ne_nil rest (List.cons.inj hparts).2
  · rw [← Table.erase_of_find?_none hnone] at hother
    exact (Table.mem_erase.mp hother).2 rfl

/-- Where a setting is found below the parts that lead to a value as well, the value is a
section. -/
theorem isSection_of_apart {ns others : Nodes} {parts path : List String} {v own : Json}
    (hapart : ns.Apart) (hns : ns.Perm ((nodes v).below parts ++ others))
    (hmem : (parts ++ path, some own) ∈ others) : v.isSection = true := by
  by_contra hnot
  rw [nodes_of_not_section (Bool.eq_false_iff.mpr hnot)] at hns
  have hself : (parts, some v) ∈ Nodes.below parts [([], some v)] := by simp [Nodes.below]
  exact (hapart.not_prefix hns hself hmem).1 (List.prefix_append _ _)

/-- A value takes the place of another one. -/
theorem reduces_replaced {ns ns' others : Nodes} {parts : List String} {v lost : Json}
    (hapart : ns.Apart)
    (hbefore : ns.Perm ((nodes v).below parts ++ ((nodes lost).below parts ++ others)))
    (hbehind : ns'.Perm ((nodes v).below parts ++ others)) : ns.Reduces ns' := by
  have hswap := hbefore.trans (List.perm_append_comm_assoc _ _ _)
  have hroot {v : Json} (h : v.isSection = true) : parts ∈ ((nodes v).below parts).sections := by
    unfold isSection at h
    split at h
    · exact Nodes.mem_sections.mpr (by simp [nodes, Nodes.below])
    · cases h
  have hsetting (v : Json) : ∃ path own, (parts ++ path, some own) ∈ (nodes v).below parts := by
    obtain ⟨⟨path, own⟩, hmem⟩ := exists_setting v
    exact ⟨path, own, List.mem_map_of_mem (Nodes.mem_settings.mp hmem)⟩
  obtain ⟨path, own, hlost⟩ := hsetting lost
  obtain ⟨_, _, hown⟩ := hsetting v
  -- Both are sections, which are written twice.
  have hv := isSection_of_apart hapart hbefore (List.mem_append_left _ hlost)
  have hlostSection := isSection_of_apart hapart hswap (List.mem_append_left _ hown)
  refine .of_lost (hswap.trans (hbehind.symm.append_left _)) (Nodes.mem_settings.mpr hlost) ?_
  rw [(Nodes.perm_sections hbefore).nodup_iff, Nodes.sections_append, Nodes.sections_append]
  intro hnodup
  exact (List.nodup_append.mp hnodup).2.2 _ (hroot hv) _
    (List.mem_append_left _ (hroot hlostSection)) rfl

/-- A field that goes into what there is. -/
theorem reduces_into {old : Json} {others moved : Table Json} (hold : old.Ordered)
    (hapart : (nodesOf fields).Apart) (hsplit : Text.splitTextOnce '.' name = some (first, rest))
    (hfields : fields.Perm ((name, value) :: (first, old) :: others))
    (hmoved : moved.Perm ((first, takeIn old rest value) :: others)) :
    (nodesOf fields).Reduces (nodesOf moved) := by
  obtain ⟨hroute, hfirst, -⟩ := route_of_splitOnce hsplit
  have hbefore := perm_nodesOf hfields
  have hbehind := perm_nodesOf hmoved
  rw [nodesOf_cons, nodesOf_cons, hroute, route_of_not_mem hfirst] at hbefore
  rw [nodesOf_cons, route_of_not_mem hfirst] at hbehind
  -- A setting would stand in the way, so there is a section.
  obtain ⟨⟨path, own⟩, hsetting⟩ := exists_setting value
  have hbelow : ([first] ++ (route rest ++ path), some own) ∈
      (nodes value).below (first :: route rest) :=
    List.mem_map.mpr ⟨_, Nodes.mem_settings.mp hsetting, rfl⟩
  have hsection : old.isSection = true :=
    isSection_of_apart hapart (hbefore.trans (List.perm_append_comm_assoc _ _ _))
      (List.mem_append_left _ hbelow)
  obtain ⟨field, fields', rfl⟩ : ∃ field fields', old = .object (field :: fields') := by
    unfold isSection at hsection
    split at hsection
    · exact ⟨_, _, rfl⟩
    · cases hsection
  obtain ⟨hsorted, -⟩ := throughout_object.mp hold
  have htaken := perm_nodes_object (Table.perm_insert hsorted rest value) first
  replace hbehind := hbehind.trans (htaken.append_right _)
  cases hfind : Table.find? (field :: fields') rest with
  | none =>
      rw [Table.erase_of_find?_none hfind] at hbehind
      rw [nodes_section (List.cons_ne_nil _ _)] at hbefore
      refine .of_perm ((hbefore.trans List.perm_middle).trans (.trans (.of_eq ?_) hbehind.symm))
      simp [Nodes.below]
  | some lost =>
      have hlost := Table.perm_of_mem hsorted (Table.mem_of_find? hfind)
      replace hbefore := hbefore.trans
        (((perm_nodes_object hlost first).append_right _).append_left _)
      rw [List.cons_append, List.append_assoc] at hbefore hbehind
      exact reduces_replaced hapart (hbefore.trans (List.perm_middle.symm.append_left _))
        (hbehind.trans List.perm_middle.symm)

/-- Moving a field loses settings only if it replaces a section, which is then written twice. -/
theorem reduces_moveField (hordered : (Json.object fields).Ordered)
    (hapart : (nodesOf fields).Apart) (hmem : (name, value) ∈ fields)
    (hsplit : Text.splitTextOnce '.' name = some (first, rest)) :
    (nodesOf fields).Reduces (nodesOf (moveField fields name value)) := by
  obtain ⟨hsorted, hbelow⟩ := throughout_object.mp hordered
  obtain ⟨others, ⟨hnone, hfields, hmoved⟩ | ⟨old, hfields, hmoved⟩⟩ :=
    moveField_cases hsorted hmem hsplit
  · exact reduces_new hsplit hnone hfields hmoved
  · have hold : old.Ordered := hbelow (first, old) (hfields.mem_iff.mpr (by simp))
    exact reduces_into hold hapart hsplit hfields hmoved

end Moving

/-! ## Moving all dotted fields -/

/-- The fields whose names have dots are moved one after another; what one move keeps, all do. -/
theorem moveFields_induction {fields : Table Json} {P : Table Json → Prop}
    (hordered : (object fields).Ordered) (h : P fields)
    (move : ∀ {t : Table Json} {name first rest value}, (object t).Ordered → P t →
      (name, value) ∈ t → Text.splitTextOnce '.' name = some (first, rest) →
        P (moveField t name value)) :
    P (moveFields fields) ∧ (object (moveFields fields)).Ordered ∧
      ∀ field ∈ moveFields fields, '.' ∉ field.1.toList := by
  -- The fields still to be moved are those in the table that have dotted names.
  suffices hrun : ∀ (pending : List (String × Json)) (t : Table Json), (object t).Ordered → P t →
      (t.filter isDotted).Perm pending →
      P (pending.foldl (fun moved field => moveField moved field.1 field.2) t) ∧
        (object (pending.foldl (fun moved field => moveField moved field.1 field.2) t)).Ordered ∧
        ∀ field ∈ pending.foldl (fun moved field => moveField moved field.1 field.2) t,
          '.' ∉ field.1.toList from hrun _ fields hordered h (.refl _)
  intro pending
  induction pending with
  | nil =>
      intro t hordered h hpending
      refine ⟨h, hordered, fun field hfield hdot => ?_⟩
      have hmem : field ∈ t.filter isDotted :=
        List.mem_filter.mpr ⟨hfield, List.contains_iff_mem.mpr hdot⟩
      rw [hpending.eq_nil] at hmem
      cases hmem
  | cons field pending ih =>
      intro t hordered h hpending
      obtain ⟨name, value⟩ := field
      obtain ⟨hmem, hdotted⟩ : (name, value) ∈ t ∧ isDotted (name, value) :=
        List.mem_filter.mp (hpending.mem_iff.mpr List.mem_cons_self)
      obtain ⟨first, rest, hsplit⟩ := exists_splitOnce (List.contains_iff_mem.mp hdotted)
      refine ih _ (ordered_moveField hordered hmem hsplit) (move hordered h hmem hsplit) ?_
      have hkept := dotted_moveField (throughout_object.mp hordered).1 hmem hsplit
      exact (hkept.symm.trans hpending).cons_inv

theorem reduces_moveFields {fields : Table Json} (hordered : (object fields).Ordered)
    (hapart : (nodesOf fields).Apart) :
    (nodesOf fields).Reduces (nodesOf (moveFields fields)) :=
  (moveFields_induction (P := fun t => (nodesOf fields).Reduces (nodesOf t)) hordered
    (.of_perm (.refl _)) fun ht hreduces hmem hsplit =>
      hreduces.trans (reduces_moveField ht (hapart.subperm hreduces.settings) hmem hsplit)).1

theorem moveFields_ne_nil {fields : Table Json} (hordered : (object fields).Ordered)
    (h : fields ≠ []) : moveFields fields ≠ [] := by
  refine (moveFields_induction (P := (· ≠ [])) hordered h fun ht _ hmem hsplit hnil => ?_).1
  obtain ⟨others, ⟨-, -, hmoved⟩ | ⟨old, -, hmoved⟩⟩ :=
    moveField_cases (throughout_object.mp ht).1 hmem hsplit
  all_goals
    rw [hnil] at hmoved
    exact List.cons_ne_nil _ _ hmoved.symm.eq_nil

/-! ### Levels -/

/-- What is still to be moved, with what is below: every character of a dotted name counts. -/
def weight (fields : List (String × Json)) : Nat :=
  (fields.map fun field => (if isDotted field then field.1.length + 1 else 0) + reach field.2).sum

theorem weight_perm {fields fields' : List (String × Json)} (h : fields.Perm fields') :
    weight fields = weight fields' :=
  (h.map _).sum_eq

theorem reachFields_eq_sum (fields : List (String × Json)) :
    reachFields fields = (fields.map fun field => field.1.length + 1 + reach field.2).sum := by
  induction fields with
  | nil => rfl
  | cons field fields ih => rw [reachFields, List.map_cons, List.sum_cons, ih]

theorem weight_le (fields : List (String × Json)) : weight fields ≤ reachFields fields := by
  rw [weight, reachFields_eq_sum]
  refine List.sum_le_sum fun field _ => ?_
  split <;> omega

/-- A section reaches as far as before and as far as what is put into it. -/
theorem reach_takeIn {old : Json} (hold : old.Ordered) (name : String) (value : Json) :
    reach (takeIn old name value) ≤ reach old + (name.length + 1 + reach value) := by
  cases old with
  | object inner =>
      have hinsert := (Table.perm_insert (throughout_object.mp hold).1 name value).map
        fun field => field.1.length + 1 + reach field.2
      have herase : (Table.erase inner name).Sublist inner := List.filter_sublist
      have hle := (herase.map fun field => field.1.length + 1 + reach field.2).sum_le_sum
        fun _ _ => Nat.zero_le _
      simp only [takeIn, reach, reachFields_eq_sum]
      rw [hinsert.sum_eq, List.map_cons, List.sum_cons]
      dsimp only
      omega
  | _ => exact Nat.le_add_right _ _

theorem weight_moveField {fields : Table Json} {name first rest : String} {value : Json}
    (hordered : (object fields).Ordered) (hmem : (name, value) ∈ fields)
    (hsplit : Text.splitTextOnce '.' name = some (first, rest)) :
    weight (moveField fields name value) ≤ weight fields := by
  obtain ⟨hsorted, hbelow⟩ := throughout_object.mp hordered
  obtain ⟨-, hfirst, hlength⟩ := route_of_splitOnce hsplit
  have hname : isDotted (name, value) = true := isDotted_of_splitOnce hsplit value
  have hundotted (v : Json) : isDotted (first, v) = false := by simpa [isDotted] using hfirst
  obtain ⟨others, ⟨-, hfields, hmoved⟩ | ⟨old, hfields, hmoved⟩⟩ :=
    moveField_cases hsorted hmem hsplit
  · rw [weight_perm hmoved, weight_perm hfields]
    simp only [weight, List.map_cons, List.sum_cons, hname, hundotted, reach, reachFields]
    simp only [if_true, Bool.false_eq_true, if_false]
    omega
  · have hold : old.Ordered := hbelow (first, old) (hfields.mem_iff.mpr (by simp))
    have htaken := reach_takeIn hold rest value
    rw [weight_perm hmoved, weight_perm hfields]
    simp only [weight, List.map_cons, List.sum_cons, hname, hundotted]
    simp only [if_true, Bool.false_eq_true, if_false]
    omega

/-- What is below the moved fields does not reach farther than the fields did. -/
theorem reach_moveFields {fields : Table Json} (hordered : (object fields).Ordered)
    {field : String × Json} (hmem : field ∈ moveFields fields) :
    reach field.2 ≤ reachFields fields := by
  have hweight : weight (moveFields fields) ≤ weight fields :=
    (moveFields_induction (P := fun t => weight t ≤ weight fields) hordered (Nat.le_refl _)
      fun ht hle hmem hsplit => (weight_moveField ht hmem hsplit).trans hle).1
  have hone : _ ≤ weight (moveFields fields) := List.le_sum_of_mem (List.mem_map_of_mem hmem)
  have hle := weight_le fields
  omega

/-! ## Level by level -/

/-- What happens to the values of fields without dotted names happens to the whole. -/
theorem reduces_mapValues {fields : Table Json} {f : Json → Json} (hsorted : fields.Sorted)
    (hdots : ∀ field ∈ fields, '.' ∉ field.1.toList)
    (h : ∀ field ∈ fields, (nodes field.2).Reduces (nodes (f field.2))) :
    (nodesOf fields).Reduces (nodesOf (fields.mapValues f)) := by
  induction fields with
  | nil => exact .of_perm (.refl _)
  | cons field fields ih =>
      obtain ⟨hless, hsorted⟩ := Table.sorted_cons.mp hsorted
      obtain ⟨hdot, hdots⟩ := List.forall_mem_cons.mp hdots
      obtain ⟨hhere, h⟩ := List.forall_mem_cons.mp h
      have hother : ∀ other ∈ fields, field.1 ≠ other.1 :=
        fun other hmem heq => String.lt_irrefl _ (heq ▸ hless other hmem)
      rw [Table.mapValues, List.map_cons, nodesOf_cons, nodesOf_cons]
      exact (hhere.below _).append (ih hsorted hdots h) (disjoint_sections hdot hdots hother)
        (disjoint_sections hdot (List.forall_mem_map.mpr hdots) (List.forall_mem_map.mpr hother))

/-- With as many levels as the tree reaches, no dotted name is left. -/
theorem expandLevels_spec (levels : Nat) (v : Json) (hreach : reach v ≤ levels)
    (hordered : v.Ordered) :
    (expandLevels levels v).Ordered ∧ (expandLevels levels v).Undotted ∧
      ((nodes v).Apart → (nodes v).Reduces (nodes (expandLevels levels v))) := by
  induction levels generalizing v with
  | zero =>
      cases v with
      | object fields => exact absurd hreach (by simp [reach])
      | _ => exact ⟨hordered, .other rfl, fun _ => .of_perm (.refl _)⟩
  | succ levels ih =>
      cases v with
      | object fields =>
          rw [reach, Nat.add_le_add_iff_right] at hreach
          obtain ⟨-, hmoved, hdots⟩ := moveFields_induction (P := fun _ => True) hordered trivial
            fun _ _ _ _ => trivial
          obtain ⟨hsorted, hbelow⟩ := throughout_object.mp hmoved
          have hspec (field) (hfield : field ∈ moveFields fields) := ih field.2
            ((reach_moveFields hordered hfield).trans hreach) (hbelow field hfield)
          refine ⟨.object (hsorted.mapValues _)
              (List.forall_mem_map.mpr fun field hfield => (hspec field hfield).1),
            .object (List.forall_mem_map.mpr hdots)
              (List.forall_mem_map.mpr fun field hfield => (hspec field hfield).2.1),
            fun hapart => ?_⟩
          rw [expandLevels]
          by_cases hempty : fields = []
          · subst hempty
            exact .of_perm (.refl _)
          rw [nodes_section hempty] at hapart ⊢
          have hmove := reduces_moveFields hordered hapart
          have hmovedApart := hapart.subperm hmove.settings
          have hmap := reduces_mapValues hsorted hdots fun field hfield =>
            (hspec field hfield).2.2 (apart_of_mem hmovedApart hfield)
          rw [nodes_section (by simpa [Table.mapValues] using moveFields_ne_nil hordered hempty)]
          exact (hmove.trans hmap).cons_section (nil_not_mem_sections _) (nil_not_mem_sections _)
      | _ => exact ⟨hordered, .other rfl, fun _ => .of_perm (.refl _)⟩

/-! ## Expanding -/

/-- **What becomes of the settings of a tree.**  No dotted name is left.  No setting is found that
the tree did not have, at the parts of the names that led to it, and all of them are found there
exactly if the tree writes no section in two places. -/
theorem settings_expandDots {v : Json} (hordered : v.Ordered) (hapart : (nodes v).Apart) :
    (expandDots v).Undotted ∧
      (∀ path value, (expandDots v).at? path = some value → value.isSection = false →
        (path, value) ∈ (nodes v).settings) ∧
      ((∀ setting ∈ (nodes v).settings, (expandDots v).at? setting.1 = some setting.2) ↔
        (nodes v).sections.Nodup) := by
  obtain ⟨hordered', hundotted, hreduces⟩ := expandLevels_spec v.reach v (Nat.le_refl _) hordered
  replace hreduces := hreduces hapart
  change (expandDots v).Ordered at hordered'
  change (expandDots v).Undotted at hundotted
  change (nodes v).Reduces (nodes (expandDots v)) at hreduces
  refine ⟨hundotted, fun path value hvalue hsection => ?_, ?_⟩
  · exact hreduces.settings.subset ((mem_settings_iff hordered' hundotted).mpr ⟨hvalue, hsection⟩)
  rw [hreduces.sections, and_iff_right (nodup_sections hordered' hundotted)]
  constructor
  · intro hall
    have hsubset : (nodes v).settings ⊆ (nodes (expandDots v)).settings := fun setting hmem =>
      (mem_settings_iff hordered' hundotted).mpr
        ⟨hall setting hmem, isSection_of_mem_settings v setting hmem⟩
    exact hreduces.settings.antisymm (hapart.nodup.subperm hsubset)
  · intro hperm setting hmem
    exact ((mem_settings_iff hordered' hundotted).mp (hperm.mem_iff.mpr hmem)).1

/-- Settings of one server, written with dots at two depths. -/
def mixed : Json :=
  .object [
    ("lsp", .object [("python.command", .text "pylsp"), ("timeout", .number (.whole 500))]),
    ("lsp.python.args", .array [])]

theorem ordered_mixed : mixed.Ordered := by
  refine .object (by unfold Table.Sorted; decide) (List.forall_mem_cons.mpr ⟨?_, ?_⟩)
  · refine .object (by unfold Table.Sorted; decide) (List.forall_mem_cons.mpr ⟨.other rfl, ?_⟩)
    exact List.forall_mem_singleton.mpr (.other rfl)
  · exact List.forall_mem_singleton.mpr (.other rfl)

/-- Only one section of it is written as such, so that nothing is lost. -/
theorem settings_expandDots_mixed :
    mixed.Ordered ∧ (nodes mixed).Apart ∧ (nodes mixed).sections = [[], ["lsp"]] ∧
      (expandDots mixed).Undotted ∧
      ∀ setting ∈ (nodes mixed).settings, (expandDots mixed).at? setting.1 = some setting.2 := by
  have hapart : (nodes mixed).Apart := by unfold Nodes.Apart; decide
  have hsections : (nodes mixed).sections = [[], ["lsp"]] := by decide
  obtain ⟨hundotted, -, hkept⟩ := settings_expandDots ordered_mixed hapart
  exact ⟨ordered_mixed, hapart, hsections, hundotted, hkept.mpr (hsections ▸ by decide)⟩

/-- A section that is written in two places. -/
def twice : Json :=
  .object [("a", .object [("b", .object [("y", .number (.whole 2))])]),
    ("a.b", .object [("x", .number (.whole 1))])]

/-- The setting in the first place is lost. -/
theorem expandDots_twice :
    (nodes twice).Apart ∧ (["a", "b", "y"], .number (.whole 2)) ∈ (nodes twice).settings ∧
      (expandDots twice).at? ["a", "b", "y"] = none := by
  refine ⟨?_, by decide, by decide⟩
  unfold Nodes.Apart
  decide

end EditorHost.Json
