import EditorHost.Proofs.Json.Routes
import EditorHost.Settings.Store

/-!
# Settings by their keys

A key such as `editor.tabSize` stands for the route between its dots, and the empty key for the
whole tree.  A setting is read by `Json.lookup?` and written by `Settings.put`, which refuses a key
that is empty or has an empty part, and one on whose way a value stands that is not an object.

The tree may also be changed in place, part by part of the key (`Settings.putInPlace`).  Both come
to the same, also where the key is refused: nothing is left of a walk that did not come to its end.

## Contents

* `Settings.put_cases`: what becomes of a key, with the texts of the refusals.
* `Settings.put_lens`: reading and writing settings are the two halves of a lens.
-/

namespace EditorHost

/-- The route that a key stands for; the empty key stands for the whole tree. -/
def Json.keyRoute (key : String) : List String := if key = "" then [] else Json.route key

theorem Json.lookup?_eq (v : Json) (key : String) : v.lookup? key = v.at? (keyRoute key) := by
  unfold lookup? keyRoute
  split <;> rfl

theorem Json.keyRoute_of_ne {key : String} (h : key ≠ "") : keyRoute key = route key := if_neg h

namespace Settings

variable {tree tree' value : Json} {key : String}

/-- What becomes of a key: it is refused for its parts, or for what stands in its way, or the value
is put. -/
theorem put_cases (tree : Json) (key : String) (value : Json) :
    ((key = "" ∨ "" ∈ Json.route key) ∧
      put tree key value = .error (.configuration s!"Invalid key format: {key}")) ∨
    (¬ (key = "" ∨ "" ∈ Json.route key) ∧ tree.Blocked (Json.route key) ∧
      put tree key value =
        .error (.configuration s!"Cannot set {key}: intermediate value is not an object")) ∨
    ∃ tree', ¬ (key = "" ∨ "" ∈ Json.route key) ∧ ¬ tree.Blocked (Json.route key) ∧
      tree.put? value (Json.route key) = some tree' ∧ put tree key value = .ok tree' := by
  unfold put
  simp only [List.contains_iff_mem]
  by_cases hkey : key = "" ∨ "" ∈ Json.route key
  · exact .inl ⟨hkey, if_pos hkey⟩
  rw [if_neg hkey]
  cases hput : tree.put? value (Json.route key) with
  | none => exact .inr (.inl ⟨hkey, Json.put?_eq_none_iff.mp hput, rfl⟩)
  | some tree' =>
      refine .inr (.inr ⟨tree', hkey, fun hblocked => ?_, rfl, rfl⟩)
      rw [Json.put?_eq_none_iff.mpr hblocked] at hput
      cases hput

theorem put_error_iff : (∃ fault, put tree key value = .error fault) ↔
    key = "" ∨ "" ∈ Json.route key ∨ tree.Blocked (Json.route key) := by
  rw [← or_assoc]
  obtain ⟨hkey, hput⟩ | ⟨-, hblocked, hput⟩ | ⟨_, hkey, hfree, -, hput⟩ := put_cases tree key value
  · exact iff_of_true ⟨_, hput⟩ (.inl hkey)
  · exact iff_of_true ⟨_, hput⟩ (.inr hblocked)
  · refine iff_of_false (fun ⟨_, herror⟩ => ?_) (not_or_intro hkey hfree)
    rw [hput] at herror
    cases herror

theorem put_ok_iff (value : Json) : (∃ tree', put tree key value = .ok tree') ↔
    "" ∉ Json.route key ∧ ¬ tree.Blocked (Json.route key) := by
  have hempty : key = "" → "" ∈ Json.route key := fun h => by subst h; decide
  cases hput : put tree key value with
  | ok tree' =>
      have hnot : ¬ ∃ fault, put tree key value = .error fault := by simp [hput]
      rw [put_error_iff, not_or, not_or] at hnot
      exact iff_of_true ⟨tree', rfl⟩ hnot.2
  | error fault =>
      refine iff_of_false nofun fun ⟨hparts, hfree⟩ => ?_
      rcases put_error_iff.mp ⟨fault, hput⟩ with hkey | hmem | hblocked
      · exact hparts (hempty hkey)
      · exact hparts hmem
      · exact hfree hblocked

/-- A value that was written was put at the end of the route of its key. -/
theorem put?_of_put (hput : put tree key value = .ok tree') :
    key ≠ "" ∧ "" ∉ Json.route key ∧ tree.put? value (Json.keyRoute key) = some tree' := by
  rcases put_cases tree key value with ⟨-, h⟩ | ⟨-, -, h⟩ | ⟨_, hkey, -, hvalue, h⟩
  · rw [h] at hput
    cases hput
  · rw [h] at hput
    cases hput
  · rw [h] at hput
    cases hput
    obtain ⟨hne, hparts⟩ := not_or.mp hkey
    exact ⟨hne, hparts, by rwa [Json.keyRoute_of_ne hne]⟩

theorem put_of_put? (hne : key ≠ "") (hparts : "" ∉ Json.route key)
    (hput : tree.put? value (Json.keyRoute key) = some tree') : put tree key value = .ok tree' := by
  rw [Json.keyRoute_of_ne hne] at hput
  unfold put
  rw [if_neg (by simp [hne, hparts]), hput]

/-! ## In place -/

/-- Gives a key a value by changing the tree itself. -/
def putInPlace (tree : Json) (key : String) (value : Json) : Except Fault Unit × Json :=
  if key = "" ∨ (Json.route key).contains "" then
    (.error (.configuration s!"Invalid key format: {key}"), tree)
  else
    match Json.putInPlace value (Json.route key) tree with
    | (true, tree) => (.ok (), tree)
    | (false, tree) =>
      (.error (.configuration s!"Cannot set {key}: intermediate value is not an object"), tree)

/-- A tree that is changed in place becomes the new tree, or stays as it is. -/
theorem putInPlace_eq (hordered : tree.Ordered) (key : String) (value : Json) :
    putInPlace tree key value =
      match put tree key value with
      | .ok tree' => (.ok (), tree')
      | .error fault => (.error fault, tree) := by
  unfold putInPlace put
  by_cases hkey : key = "" ∨ (Json.route key).contains "" = true
  · rw [if_pos hkey, if_pos hkey]
  rw [if_neg hkey, if_neg hkey]
  cases hput : tree.put? value (Json.route key) with
  | none => rw [Json.putInPlace_of_none hordered hput]
  | some tree' => rw [Json.putInPlace_of_some hput]

/-! ## Reading and writing -/

/-- **Reading and writing by keys.**  Writing fails just when the key is empty or has an empty part,
or something that is not an object stands on its way, and then a tree that is changed in place is as
it was.  Otherwise the value that was written is read; all keys but those above and below read as
before; of two values the last one counts; and to write what is read changes nothing. -/
theorem put_lens (hordered : tree.Ordered) (key : String) (value : Json) :
    ((∃ fault, put tree key value = .error fault) ↔
      key = "" ∨ "" ∈ Json.route key ∨ tree.Blocked (Json.route key)) ∧
    (putInPlace tree key value =
      match put tree key value with
      | .ok tree' => (.ok (), tree')
      | .error fault => (.error fault, tree)) ∧
    ∀ tree', put tree key value = .ok tree' →
      tree'.lookup? key = some value ∧
      (∀ other, ¬ Json.keyRoute other <+: Json.keyRoute key →
        ¬ Json.keyRoute key <+: Json.keyRoute other → tree'.lookup? other = tree.lookup? other) ∧
      (∀ last, put tree' key last = put tree key last) ∧
      (tree.lookup? key = some value → tree' = tree) := by
  refine ⟨put_error_iff, putInPlace_eq hordered key value, fun tree' hput => ?_⟩
  obtain ⟨-, -, hvalue⟩ := put?_of_put hput
  refine ⟨?_, fun other houter hinner => ?_, fun last => ?_, fun hsame => ?_⟩
  · rw [Json.lookup?_eq, Json.at?_put?_self hvalue]
  · rw [Json.lookup?_eq, Json.lookup?_eq, Json.at?_put? hvalue houter hinner]
  · have hlast : tree'.put? last (Json.route key) = tree.put? last (Json.route key) := by
      rw [← Json.keyRoute_of_ne (put?_of_put hput).1, Json.put?_put? hvalue]
    rw [put, put, hlast]
  · rw [Json.lookup?_eq] at hsame
    rw [Json.put?_of_at? hordered hsame] at hvalue
    exact (Option.some.inj hvalue).symm

/-- Settings with a list in the place of a section. -/
def tabs : Json :=
  .object [("editor", .object [("tabSize", .whole 4)]), ("rulers", .array [.whole 80])]

theorem ordered_tabs : tabs.Ordered := by
  refine .object (by unfold Table.Sorted; decide) (List.forall_mem_cons.mpr ⟨?_, ?_⟩)
  · exact .object (by unfold Table.Sorted; decide) (List.forall_mem_singleton.mpr (.other rfl))
  · exact List.forall_mem_singleton.mpr (.other rfl)

/-- The same settings, with one in a new section. -/
def wrappedTabs : Json :=
  .object [("editor", .object [("tabSize", .whole 4), ("wrap", .object [("column", .whole 72)])]),
    ("rulers", .array [.whole 80])]

/-- A setting is written into a new section beside another one, and none is written below a list. -/
theorem put_lens_tabs : tabs.Ordered ∧
    put tabs "editor.wrap.column" (.whole 72) = .ok wrappedTabs ∧
    wrappedTabs.lookup? "editor.wrap.column" = some (.whole 72) ∧
    wrappedTabs.lookup? "editor.tabSize" = tabs.lookup? "editor.tabSize" ∧
    ∃ fault, put tabs "rulers.first.color" .null = .error fault := by
  obtain ⟨-, -, hwritten⟩ := put_lens ordered_tabs "editor.wrap.column" (.whole 72)
  obtain ⟨hrefused, -, -⟩ := put_lens ordered_tabs "rulers.first.color" .null
  have hput : put tabs "editor.wrap.column" (.whole 72) = .ok wrappedTabs :=
    put_of_put? (by decide) (by decide) (by decide +kernel)
  obtain ⟨hread, hother, -⟩ := hwritten _ hput
  refine ⟨ordered_tabs, hput, hread, hother _ (by decide) (by decide), hrefused.mpr ?_⟩
  exact .inr (.inr ⟨["rulers"], by decide, by decide, _, rfl, rfl⟩)

end Settings

end EditorHost
