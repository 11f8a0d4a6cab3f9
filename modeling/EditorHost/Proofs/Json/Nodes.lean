import EditorHost.Json.Route
import EditorHost.Proofs.Table
import EditorHost.Proofs.Text.Octets
import Mathlib.Data.List.Nodup
import Mathlib.Data.List.Perm.Subperm

/-!
# Settings and sections of a tree

A setting is found by the parts of all the names that lead to it, so that it does not matter whether
a name stands for several sections by its dots or the sections are nested.  The same section may be
written in several places, with its settings in all of them.

Where no name has a dot, the parts are the names, and settings and sections are what is found by
following them (`Json.mem_nodes_iff`), each section in one place (`Json.nodup_sections`).

## Contents

* `Json.nodes`: settings and sections with the parts of the names that lead to them.
* `Json.Nodes.Apart`: no setting stands in the way of another one.
* `Json.Throughout`: a property of all objects of a tree, such as `Json.Ordered` and
  `Json.Undotted`.
-/

namespace EditorHost.Json

/-! ## Routes -/

theorem route_of_not_mem {name : String} (h : '.' ∉ name.toList) : route name = [name] := by
  rw [route, Text.splitText, Text.split_of_not_mem h, List.map_singleton, String.ofList_toList]

theorem route_ne_nil (name : String) : route name ≠ [] := by
  simp [route, Text.splitText, Text.split_ne_nil]

/-- A dotted name has a first part, and the others are those of the rest. -/
theorem route_of_splitOnce {name first rest : String}
    (h : Text.splitTextOnce '.' name = some (first, rest)) :
    route name = first :: route rest ∧ '.' ∉ first.toList ∧
      name.length = first.length + 1 + rest.length := by
  obtain ⟨⟨before, after⟩, hsplit, heq⟩ := Option.map_eq_some_iff.mp h
  cases heq
  obtain ⟨hname, hnot⟩ := Text.splitOnce_iff.mp hsplit
  have hfirst : '.' ∉ (String.ofList before).toList := by rwa [String.toList_ofList]
  refine ⟨?_, hfirst, ?_⟩
  · rw [route, Text.splitText, hname, Text.split_append, Text.split_of_not_mem hnot]
    simp [route, Text.splitText]
  · rw [← String.length_toList, hname]
    simp
    omega

theorem exists_splitOnce {name : String} (h : '.' ∈ name.toList) :
    ∃ first rest, Text.splitTextOnce '.' name = some (first, rest) := by
  obtain ⟨before, after, hname, hnot⟩ := List.eq_append_cons_of_mem h
  have hsplit := Text.splitOnce_iff.mpr ⟨hname, hnot⟩
  exact ⟨_, _, by rw [Text.splitTextOnce, hsplit]; rfl⟩

/-- A name is the only part of itself. -/
theorem eq_of_route {key first : String} (h : route key = [first]) : key = first := by
  by_cases hdot : '.' ∈ key.toList
  · obtain ⟨before, after, hsplit⟩ := exists_splitOnce hdot
    rw [(route_of_splitOnce hsplit).1] at h
    exact absurd (List.cons.inj h).2 (route_ne_nil after)
  · rw [route_of_not_mem hdot] at h
    exact (List.cons.inj h).1

/-! ## Settings and sections -/

/-- Whether a value is a section: an object with fields. -/
def isSection : Json → Bool
  | .object (_ :: _) => true
  | _ => false

/-- What is in a tree of settings, by the parts of all the names that lead there: settings with
their values, and sections. -/
abbrev Nodes := List (List String × Option Json)

namespace Nodes

/-- The settings, which are what is no section. -/
def settings (ns : Nodes) : List (List String × Json) :=
  ns.filterMap fun n => n.2.map fun value => (n.1, value)

/-- Where the sections are. -/
def sections (ns : Nodes) : List (List String) := (ns.filter fun n => n.2.isNone).map Prod.fst

/-- The same, below a section. -/
def below (parts : List String) (ns : Nodes) : Nodes := ns.map fun n => (parts ++ n.1, n.2)

/-- No setting stands in the way of another one. -/
def Apart (ns : Nodes) : Prop :=
  ns.settings.Pairwise fun a b => ¬ a.1 <+: b.1 ∧ ¬ b.1 <+: a.1

end Nodes

mutual
/-- What is in a tree; the tree itself is at the end of no parts. -/
def nodes : Json → Nodes
  | .object (field :: fields) => ([], none) :: nodesOf (field :: fields)
  | v => [([], some v)]

/-- What is in the fields of an object. -/
def nodesOf : List (String × Json) → Nodes
  | [] => []
  | (name, v) :: rest => (nodes v).below (route name) ++ nodesOf rest
end

namespace Nodes

variable {ns ns' ns'' ms ms' : Nodes} {parts : List String}

@[simp] theorem settings_append : (ns ++ ms).settings = ns.settings ++ ms.settings :=
  List.filterMap_append

@[simp] theorem sections_append : (ns ++ ms).sections = ns.sections ++ ms.sections := by
  simp [sections]

@[simp] theorem settings_cons_section : settings ((parts, none) :: ns) = ns.settings := rfl

@[simp] theorem sections_cons_section :
    sections ((parts, none) :: ns) = parts :: ns.sections := rfl

theorem settings_below :
    (ns.below parts).settings = ns.settings.map fun s => (parts ++ s.1, s.2) := by
  induction ns with
  | nil => rfl
  | cons n ns ih =>
      obtain ⟨path, value⟩ := n
      cases value with
      | none => exact ih
      | some value => exact congrArg (_ :: ·) ih

theorem sections_below : (ns.below parts).sections = ns.sections.map (parts ++ ·) := by
  induction ns with
  | nil => rfl
  | cons n ns ih =>
      obtain ⟨path, value⟩ := n
      cases value with
      | none => exact congrArg (_ :: ·) ih
      | some value => exact ih

theorem mem_settings {path : List String} {value : Json} :
    (path, value) ∈ ns.settings ↔ (path, some value) ∈ ns := by
  simp [settings]

theorem mem_sections {path : List String} : path ∈ ns.sections ↔ (path, none) ∈ ns := by
  simp [sections]

theorem perm_settings (h : ns.Perm ns') : ns.settings.Perm ns'.settings := h.filterMap _

theorem perm_sections (h : ns.Perm ns') : ns.sections.Perm ns'.sections := (h.filter _).map _

/-! ### Apart -/

theorem Apart.subperm (h : ns.Apart) (hsub : ns'.settings.Subperm ns.settings) : ns'.Apart := by
  obtain ⟨l, hperm, hsublist⟩ := hsub
  exact hperm.pairwise (h.sublist hsublist) fun hab => ⟨hab.2, hab.1⟩

theorem Apart.nodup (h : ns.Apart) : ns.settings.Nodup := by
  refine List.Pairwise.imp (fun {a b} hab heq => ?_) h
  exact hab.1 (heq ▸ List.prefix_refl a.1)

theorem apart_below : (ns.below parts).Apart ↔ ns.Apart := by
  simp [Apart, settings_below, List.pairwise_map, List.prefix_append_right_inj]

/-- Of two settings in different parts none leads to the other. -/
theorem Apart.not_prefix (h : ns.Apart) (hperm : ns.Perm (ms ++ ms')) {path path' : List String}
    {value value' : Json} (ha : (path, some value) ∈ ms) (hb : (path', some value') ∈ ms') :
    ¬ path <+: path' ∧ ¬ path' <+: path := by
  have hboth := (perm_settings hperm).pairwise h fun hab => ⟨hab.2, hab.1⟩
  rw [settings_append] at hboth
  exact (List.pairwise_append.mp hboth).2.2 _ (mem_settings.mpr ha) _ (mem_settings.mpr hb)

end Nodes

/-! ## Trees -/

/-- A property of the fields of all objects of a tree.  What is in arrays does not matter. -/
inductive Throughout (P : Table Json → Prop) : Json → Prop where
  | object {fields : List (String × Json)} (here : P fields)
      (below : ∀ field ∈ fields, Throughout P field.2) : Throughout P (.object fields)
  | other {v : Json} (h : v.isObject = false) : Throughout P v

/-- The fields of every object are in order, and each name stands once. -/
abbrev Ordered : Json → Prop := Throughout Table.Sorted

/-- No name of a field has a dot. -/
abbrev Undotted : Json → Prop := Throughout fun fields => ∀ field ∈ fields, '.' ∉ field.1.toList

theorem throughout_object {P : Table Json → Prop} {fields : List (String × Json)} :
    Throughout P (.object fields) ↔ P fields ∧ ∀ field ∈ fields, Throughout P field.2 := by
  constructor
  · intro h
    cases h with
    | object here below => exact ⟨here, below⟩
    | other h => cases h
  · exact fun h => .object h.1 h.2

theorem nodes_object (fields : List (String × Json)) :
    nodes (.object fields) =
      ([], if isSection (.object fields) then none else some (.object fields)) ::
        nodesOf fields := by
  cases fields <;> simp [nodes, nodesOf, isSection]

theorem nodes_section {fields : List (String × Json)} (h : fields ≠ []) :
    nodes (.object fields) = ([], none) :: nodesOf fields := by
  cases fields with
  | nil => exact absurd rfl h
  | cons field fields => rw [nodes]

theorem nodes_of_not_section {v : Json} (h : v.isSection = false) : nodes v = [([], some v)] := by
  rw [nodes.eq_def]
  split
  · cases h
  · rfl

theorem nodesOf_cons (field : String × Json) (fields : List (String × Json)) :
    nodesOf (field :: fields) = (nodes field.2).below (route field.1) ++ nodesOf fields := by
  rw [nodesOf]

theorem nodesOf_eq_flatMap (fields : List (String × Json)) :
    nodesOf fields = fields.flatMap fun field => (nodes field.2).below (route field.1) := by
  induction fields with
  | nil => rfl
  | cons field fields ih => rw [nodesOf_cons, List.flatMap_cons, ih]

theorem perm_nodesOf {fields fields' : List (String × Json)} (h : fields.Perm fields') :
    (nodesOf fields).Perm (nodesOf fields') := by
  rw [nodesOf_eq_flatMap, nodesOf_eq_flatMap]
  exact h.flatMap_right _

theorem mem_nodesOf {fields : List (String × Json)} {n : List String × Option Json} :
    n ∈ nodesOf fields ↔
      ∃ field ∈ fields, ∃ m ∈ nodes field.2, n = (route field.1 ++ m.1, m.2) := by
  rw [nodesOf_eq_flatMap]
  simp only [List.mem_flatMap, Nodes.below, List.mem_map, eq_comm]

/-- The way to what is in a field has a part. -/
theorem nil_not_mem_nodesOf (fields : List (String × Json)) (own : Option Json) :
    ([], own) ∉ nodesOf fields := by
  intro h
  obtain ⟨field, -, m, -, heq⟩ := mem_nodesOf.mp h
  exact route_ne_nil field.1 (List.append_eq_nil_iff.mp (Prod.mk.inj heq).1.symm).1

theorem nil_not_mem_sections (fields : List (String × Json)) : [] ∉ (nodesOf fields).sections :=
  fun h => nil_not_mem_nodesOf fields none (Nodes.mem_sections.mp h)

/-- There is a setting in every tree. -/
theorem exists_setting (v : Json) : ∃ setting, setting ∈ (nodes v).settings := by
  match v with
  | .object ((name, v) :: rest) =>
      obtain ⟨setting, h⟩ := exists_setting v
      rw [nodes_section (List.cons_ne_nil _ _), nodesOf_cons, Nodes.settings_cons_section,
        Nodes.settings_append, Nodes.settings_below]
      exact ⟨_, List.mem_append_left _ (List.mem_map_of_mem h)⟩
  | .object [] | .null | .bool _ | .number _ | .text _ | .array _ =>
      rw [nodes_of_not_section rfl]
      exact ⟨_, List.mem_cons_self⟩

theorem apart_of_mem {fields : List (String × Json)} (hapart : (nodesOf fields).Apart)
    {field : String × Json} (hmem : field ∈ fields) : (nodes field.2).Apart := by
  obtain ⟨before, behind, rfl⟩ := List.append_of_mem hmem
  rw [nodesOf_eq_flatMap, List.flatMap_append, List.flatMap_cons] at hapart
  have hbelow : ((nodes field.2).below (route field.1)).Apart := by
    refine hapart.subperm ?_
    rw [Nodes.settings_append, Nodes.settings_append]
    exact ((List.sublist_append_left _ _).trans (List.sublist_append_right _ _)).subperm
  exact Nodes.apart_below.mp hbelow

/-- A section below a name without dots is in no field of another name. -/
theorem disjoint_sections {name : String} {ns : Nodes} {rest : List (String × Json)}
    (hname : '.' ∉ name.toList) (hdots : ∀ field ∈ rest, '.' ∉ field.1.toList)
    (hother : ∀ field ∈ rest, name ≠ field.1) :
    (ns.below (route name)).sections.Disjoint (nodesOf rest).sections := by
  intro path hhere hthere
  rw [route_of_not_mem hname, Nodes.sections_below] at hhere
  obtain ⟨path, -, rfl⟩ := List.mem_map.mp hhere
  obtain ⟨field, hfield, m, -, heq⟩ := mem_nodesOf.mp (Nodes.mem_sections.mp hthere)
  rw [route_of_not_mem (hdots field hfield), Prod.mk.injEq] at heq
  exact hother field hfield (List.cons.inj heq.1).1

/-! ## Trees without dotted names -/

/-- Where no name has a dot, settings and sections are found by following their parts. -/
theorem mem_nodes_iff {v : Json} (hordered : v.Ordered) (hundotted : v.Undotted)
    (path : List String) (own : Option Json) :
    (path, own) ∈ nodes v ↔
      ∃ x, v.at? path = some x ∧ own = if x.isSection then none else some x := by
  induction path generalizing v with
  | nil =>
      cases v with
      | object fields =>
          rw [nodes_object, List.mem_cons, or_iff_left (nil_not_mem_nodesOf fields own)]
          simp [at?]
      | _ => simp [nodes, at?, isSection]
  | cons part path ih =>
      cases v with
      | object fields =>
          obtain ⟨hsorted, hbelow⟩ := throughout_object.mp hordered
          obtain ⟨hdots, hbelow'⟩ := throughout_object.mp hundotted
          have hfield : (part :: path, own) ∈ nodes (.object fields) ↔
              ∃ child, (part, child) ∈ fields ∧ (path, own) ∈ nodes child := by
            rw [nodes_object, List.mem_cons, or_iff_right (by simp), mem_nodesOf]
            constructor
            · rintro ⟨⟨name, child⟩, hmem, ⟨path', own'⟩, hchild, heq⟩
              rw [route_of_not_mem (hdots _ hmem)] at heq
              obtain ⟨⟨rfl, rfl⟩, rfl⟩ : (part = name ∧ path = path') ∧ own = own' := by
                simpa using heq
              exact ⟨child, hmem, hchild⟩
            · rintro ⟨child, hmem, hchild⟩
              have hroute : route part = [part] := route_of_not_mem (hdots _ hmem)
              exact ⟨_, hmem, _, hchild, by rw [hroute, List.singleton_append]⟩
          rw [hfield, at?, get?]
          constructor
          · rintro ⟨child, hmem, hchild⟩
            rw [hsorted.find?_of_mem hmem, Option.bind_some]
            exact (ih (hbelow _ hmem) (hbelow' _ hmem)).mp hchild
          · rintro ⟨x, hx, hown⟩
            obtain ⟨child, hfind, hx⟩ := Option.bind_eq_some_iff.mp hx
            have hmem := Table.mem_of_find? hfind
            exact ⟨child, hmem, (ih (hbelow _ hmem) (hbelow' _ hmem)).mpr ⟨x, hx, hown⟩⟩
      | _ => simp [nodes, at?, get?]

theorem nodup_sections_fields {fields : Table Json} (hsorted : fields.Sorted)
    (hdots : ∀ field ∈ fields, '.' ∉ field.1.toList)
    (h : ∀ field ∈ fields, (nodes field.2).sections.Nodup) :
    (nodesOf fields).sections.Nodup := by
  induction fields with
  | nil => exact List.nodup_nil
  | cons field fields ih =>
      obtain ⟨hless, hsorted⟩ := Table.sorted_cons.mp hsorted
      obtain ⟨hdot, hdots⟩ := List.forall_mem_cons.mp hdots
      obtain ⟨hhere, h⟩ := List.forall_mem_cons.mp h
      rw [nodesOf_cons, Nodes.sections_append, List.nodup_append', Nodes.sections_below]
      refine ⟨hhere.map (List.append_right_injective _), ih hsorted hdots h, ?_⟩
      rw [← Nodes.sections_below]
      exact disjoint_sections hdot hdots fun other hmem heq =>
        String.lt_irrefl _ (heq ▸ hless other hmem)

/-- Where no name has a dot, no section is written twice. -/
theorem nodup_sections {v : Json} (hordered : v.Ordered) (hundotted : v.Undotted) :
    (nodes v).sections.Nodup := by
  induction hundotted with
  | @object fields hdots _ ih =>
      obtain ⟨hsorted, hbelow⟩ := throughout_object.mp hordered
      by_cases hempty : fields = []
      · subst hempty
        exact List.nodup_nil
      rw [nodes_section hempty, Nodes.sections_cons_section, List.nodup_cons]
      exact ⟨nil_not_mem_sections fields, nodup_sections_fields hsorted hdots
        fun field hfield => ih field hfield (hbelow field hfield)⟩
  | @other v h =>
      have hsection : v.isSection = false := by cases v <;> first | rfl | cases h
      rw [nodes_of_not_section hsection]
      exact List.nodup_nil

/-- Where no name has a dot, the settings are what is found by following parts. -/
theorem mem_settings_iff {v : Json} (hordered : v.Ordered) (hundotted : v.Undotted)
    {path : List String} {value : Json} :
    (path, value) ∈ (nodes v).settings ↔ v.at? path = some value ∧ value.isSection = false := by
  rw [Nodes.mem_settings, mem_nodes_iff hordered hundotted]
  constructor
  · rintro ⟨x, hx, heq⟩
    cases hsection : x.isSection <;> simp [hsection] at heq
    exact ⟨heq ▸ hx, heq ▸ hsection⟩
  · rintro ⟨hx, hsection⟩
    exact ⟨value, hx, by simp [hsection]⟩

mutual
/-- What is a setting is no section. -/
theorem isSection_of_mem_settings (v : Json) (setting : List String × Json)
    (h : setting ∈ (nodes v).settings) : setting.2.isSection = false := by
  match v with
  | .object (field :: fields) =>
      rw [nodes_section (List.cons_ne_nil _ _), Nodes.settings_cons_section] at h
      exact isSection_of_mem_settings_fields (field :: fields) setting h
  | .object [] | .null | .bool _ | .number _ | .text _ | .array _ =>
      rw [nodes_of_not_section rfl] at h
      rw [List.mem_singleton.mp h]
      rfl

theorem isSection_of_mem_settings_fields (fields : List (String × Json))
    (setting : List String × Json) (h : setting ∈ (nodesOf fields).settings) :
    setting.2.isSection = false := by
  match fields with
  | [] => cases h
  | (name, v) :: rest =>
      rw [nodesOf_cons, Nodes.settings_append, Nodes.settings_below, List.mem_append] at h
      rcases h with h | h
      · obtain ⟨inner, hinner, rfl⟩ := List.mem_map.mp h
        exact isSection_of_mem_settings v inner hinner
      · exact isSection_of_mem_settings_fields rest setting h
end

end EditorHost.Json
