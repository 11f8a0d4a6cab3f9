import EditorHost.Api
import EditorHost.Proofs.Settings.Keys

/-!
# Defaults of settings

Extensions declare defaults for their settings, and the tree of settings is filled with them, one
after another.  A default is taken if its key can be written and has no value yet
(`Configuration.Accepts`); any other one leaves the tree alone.

So the tree only grows (`Json.Grows`): what has a value keeps one, and a value that is not an object
stays what it is.  A key that is not accepted is not accepted by a tree that has grown either.  And
no key is accepted any more once a default for it had its turn, whether that was taken or not: the
first default that is taken for a key wins, and to fill in the same defaults again changes nothing
(`Configuration.seed_respects`).
-/

namespace EditorHost

namespace Json

/-! ## Growing -/

/-- What has a value in the one tree has one in the other: the same value, or an object for an
object. -/
def Grows (v v' : Json) : Prop :=
  ∀ path w, v.at? path = some w → ∃ w', v'.at? path = some w' ∧
    w'.isObject = w.isObject ∧ (w.isObject = false → w' = w)

variable {v v' v'' value : Json} {route path : List String}

theorem Grows.refl (v : Json) : v.Grows v := fun _ w hw => ⟨w, hw, rfl, fun _ => rfl⟩

theorem Grows.trans (h : v.Grows v') (h' : v'.Grows v'') : v.Grows v'' := by
  intro path w hw
  obtain ⟨w', hw', hobject, hsame⟩ := h path w hw
  obtain ⟨w'', hw'', hobject', hsame'⟩ := h' path w' hw'
  refine ⟨w'', hw'', hobject'.trans hobject, fun hleaf => ?_⟩
  rw [hsame' (hobject.trans hleaf), hsame hleaf]

/-- A value that is not an object stays. -/
theorem Grows.at?_eq (h : v.Grows v') (hvalue : v.at? path = some value)
    (hleaf : value.isObject = false) : v'.at? path = some value := by
  obtain ⟨w', hw', -, hsame⟩ := h path value hvalue
  rw [hw', hsame hleaf]

/-- What stands in the way goes on to do so. -/
theorem Grows.blocked (h : v.Grows v') (hblocked : v.Blocked route) : v'.Blocked route := by
  obtain ⟨before, hlead, hne, w, hw, hleaf⟩ := hblocked
  exact ⟨before, hlead, hne, w, h.at?_eq hw hleaf, hleaf⟩

/-- To put a value where there is none lets a tree grow. -/
theorem grows_put? (hput : v.put? value route = some v') (hnone : v.at? route = none) :
    v.Grows v' := by
  intro path w hw
  by_cases hinner : route <+: path
  · -- nothing has a value below an end without one
    obtain ⟨more, rfl⟩ := hinner
    rw [at?_append, hnone] at hw
    cases hw
  by_cases houter : path <+: route
  · -- above the end there are objects, before and behind
    have hne : path ≠ route := fun heq => hinner (heq ▸ List.prefix_refl _)
    have hobject : w.isObject = true := by
      by_contra hleaf
      have hblocked : v.Blocked route :=
        ⟨path, houter, hne, w, hw, Bool.eq_false_iff.mpr hleaf⟩
      rw [put?_eq_none_iff.mpr hblocked] at hput
      cases hput
    obtain ⟨w', hw', hobject'⟩ := exists_above (at?_put?_self hput) houter hne
    exact ⟨w', hw', hobject'.trans hobject.symm, fun hleaf => by simp [hobject] at hleaf⟩
  · exact ⟨w, (at?_put? hput houter hinner).trans hw, rfl, fun _ => rfl⟩

end Json

namespace Configuration

open Settings (put)

variable {tree tree' default : Json} {key : String} {defaults : List (String × Json)}

/-! ## One default -/

/-- Whether a default for a key is taken: the key can be written, and has no value. -/
def Accepts (tree : Json) (key : String) : Prop :=
  "" ∉ Json.route key ∧ tree.lookup? key = none ∧ ¬ tree.Blocked (Json.route key)

/-- A key that is not accepted is not accepted later. -/
theorem not_accepts_of_grows (hgrows : tree.Grows tree') (h : ¬ Accepts tree key) :
    ¬ Accepts tree' key := by
  rintro ⟨hparts, hnone, hfree⟩
  refine h ⟨hparts, ?_, fun hblocked => hfree (hgrows.blocked hblocked)⟩
  rw [Json.lookup?_eq] at hnone ⊢
  by_contra hbound
  obtain ⟨w, hw⟩ := Option.ne_none_iff_exists'.mp hbound
  obtain ⟨w', hw', -⟩ := hgrows _ w hw
  rw [hnone] at hw'
  cases hw'

theorem seed_one (tree : Json) (key : String) (default : Json) :
    seed tree [(key, default)] =
      match tree.lookup? key with
      | some _ => tree
      | none => (put tree key default).toOption.getD tree := rfl

theorem seed_append (tree : Json) (first second : List (String × Json)) :
    seed tree (first ++ second) = seed (seed tree first) second :=
  List.foldl_append

/-- A default that is accepted is written, and can be read. -/
theorem seed_of_accepts (h : Accepts tree key) (default : Json) :
    put tree key default = .ok (seed tree [(key, default)]) ∧
      (seed tree [(key, default)]).lookup? key = some default ∧
      tree.Grows (seed tree [(key, default)]) := by
  obtain ⟨hparts, hnone, hfree⟩ := h
  obtain ⟨tree', hput⟩ := (Settings.put_ok_iff default).mpr ⟨hparts, hfree⟩
  have hseed : seed tree [(key, default)] = tree' := by
    rw [seed_one, hnone, hput]
    rfl
  obtain ⟨-, -, hvalue⟩ := Settings.put?_of_put hput
  rw [Json.lookup?_eq] at hnone
  rw [hseed, Json.lookup?_eq]
  exact ⟨hput, Json.at?_put?_self hvalue, Json.grows_put? hvalue hnone⟩

/-- Any other default leaves the tree alone. -/
theorem seed_of_not_accepts (h : ¬ Accepts tree key) (default : Json) :
    seed tree [(key, default)] = tree := by
  rw [seed_one]
  split
  · rfl
  next hnone =>
    cases hput : put tree key default with
    | error fault => rfl
    | ok tree' =>
        obtain ⟨hparts, hfree⟩ := (Settings.put_ok_iff default).mp ⟨tree', hput⟩
        exact absurd ⟨hparts, hnone, hfree⟩ h

theorem grows_seed_one (tree : Json) (key : String) (default : Json) :
    tree.Grows (seed tree [(key, default)]) := by
  by_cases h : Accepts tree key
  · exact (seed_of_accepts h default).2.2
  · rw [seed_of_not_accepts h]
    exact .refl tree

/-- Once a default for a key had its turn, no other one is taken. -/
theorem not_accepts_seed_one (tree : Json) (key : String) (default : Json) :
    ¬ Accepts (seed tree [(key, default)]) key := by
  by_cases h : Accepts tree key
  · rintro ⟨-, hnone, -⟩
    rw [(seed_of_accepts h default).2.1] at hnone
    cases hnone
  · rwa [seed_of_not_accepts h]

/-! ## All defaults -/

theorem grows_seed (tree : Json) (defaults : List (String × Json)) :
    tree.Grows (seed tree defaults) := by
  induction defaults generalizing tree with
  | nil => exact .refl tree
  | cons entry rest ih => exact (grows_seed_one tree entry.1 entry.2).trans (ih _)

theorem not_accepts_seed (tree : Json) {entry : String × Json} (hmem : entry ∈ defaults) :
    ¬ Accepts (seed tree defaults) entry.1 := by
  obtain ⟨before, behind, rfl⟩ := List.append_of_mem hmem
  rw [List.append_cons, seed_append, seed_append]
  exact not_accepts_of_grows (grows_seed _ behind) (not_accepts_seed_one _ entry.1 entry.2)

theorem seed_of_none_accepted (h : ∀ entry ∈ defaults, ¬ Accepts tree entry.1) :
    seed tree defaults = tree := by
  induction defaults with
  | nil => rfl
  | cons entry rest ih =>
      obtain ⟨hentry, hrest⟩ := List.forall_mem_cons.mp h
      rw [← List.singleton_append, seed_append, seed_of_not_accepts hentry, ih hrest]

/-! ### In place -/

/-- Fills in defaults by changing the tree itself; what a refused default leaves is kept. -/
def seedInPlace (tree : Json) (defaults : List (String × Json)) : Json :=
  defaults.foldl (fun tree entry =>
    match tree.lookup? entry.1 with
    | some _ => tree
    | none => (Settings.putInPlace tree entry.1 entry.2).2) tree

/-- A tree that is filled in place becomes the same. -/
theorem seedInPlace_eq (hordered : tree.Ordered) (h : ∀ entry ∈ defaults, entry.2.Ordered) :
    seedInPlace tree defaults = seed tree defaults := by
  induction defaults generalizing tree with
  | nil => rfl
  | cons entry rest ih =>
      obtain ⟨key, default⟩ := entry
      obtain ⟨hdefault, hrest⟩ := List.forall_mem_cons.mp h
      have hone : seedInPlace tree [(key, default)] = seed tree [(key, default)] := by
        rw [seed_one]
        simp only [seedInPlace, List.foldl_cons, List.foldl_nil, Settings.putInPlace_eq hordered]
        cases put tree key default <;> rfl
      have hseeded : (seed tree [(key, default)]).Ordered := by
        by_cases haccepts : Accepts tree key
        · obtain ⟨-, -, hvalue⟩ := Settings.put?_of_put (seed_of_accepts haccepts default).1
          exact hordered.put? hdefault hvalue
        · rwa [seed_of_not_accepts haccepts]
      rw [← List.singleton_append, seed_append, ← ih hseeded hrest, ← hone]
      rfl

/-! ### Calls -/

theorem seed_calls (api : Api) (calls : List (List (String × Json))) :
    calls.foldl Api.seed api =
      { api with configuration := seed api.configuration calls.flatten } := by
  induction calls generalizing api with
  | nil => rfl
  | cons defaults calls ih => rw [List.foldl_cons, ih, List.flatten_cons, seed_append]; rfl

/-- What becomes of a default behind some others, and in front of more. -/
structure Turn (start : Json) (before : List (String × Json)) (key : String) (default : Json)
    (behind : List (String × Json)) : Prop where
  /-- It is written, and read, if it is accepted by the tree as it is then. -/
  taken : Accepts (seed start before) key →
    put (seed start before) key default = .ok (seed start (before ++ [(key, default)])) ∧
      (seed start (before ++ [(key, default)])).lookup? key = some default
  /-- Otherwise the tree stays as it is. -/
  passed : ¬ Accepts (seed start before) key →
    seed start (before ++ [(key, default)]) = seed start before
  /-- What is written stays; only its objects may become larger. -/
  kept : Accepts (seed start before) key → ∀ path value, default.at? path = some value →
    value.isObject = false →
      (seed start (before ++ (key, default) :: behind)).at? (Json.route key ++ path) = some value
  /-- No later default for the same key is written. -/
  first : ∀ later other, later ++ [(key, other)] <+: behind →
    seed start (before ++ (key, default) :: (later ++ [(key, other)])) =
      seed start (before ++ (key, default) :: later)

theorem turn (start : Json) (before : List (String × Json)) (key : String) (default : Json)
    (behind : List (String × Json)) : Turn start before key default behind where
  taken h := by
    obtain ⟨hput, hread, -⟩ := seed_of_accepts h default
    rw [seed_append]
    exact ⟨hput, hread⟩
  passed h := by rw [seed_append, seed_of_not_accepts h]
  kept h path value hvalue hleaf := by
    obtain ⟨hput, hread, -⟩ := seed_of_accepts h default
    rw [Json.lookup?_eq, Json.keyRoute_of_ne (Settings.put?_of_put hput).1] at hread
    rw [List.append_cons, seed_append, seed_append]
    refine (grows_seed _ behind).at?_eq ?_ hleaf
    rw [Json.at?_append, hread, Option.bind_some, hvalue]
  first later other _ := by
    have hmem : (key, default) ∈ before ++ (key, default) :: later := by simp
    rw [← List.cons_append, ← List.append_assoc, seed_append,
      seed_of_not_accepts (not_accepts_seed start hmem)]

/-- **Defaults never override.**  Whatever defaults are filled in, in whatever calls: every value
that is not an object stays where it is, each default is taken or passed over at its turn, and
filling in all of them a second time changes nothing.  A tree that is filled in place becomes the
same. -/
theorem seed_respects (api : Api) (calls : List (List (String × Json))) :
    let start := api.configuration
    let last := calls.foldl Api.seed api
    last = { api with configuration := seed start calls.flatten } ∧
    (∀ path value, start.at? path = some value → value.isObject = false →
      last.configuration.at? path = some value) ∧
    (∀ before key default behind, calls.flatten = before ++ (key, default) :: behind →
      Turn start before key default behind) ∧
    calls.foldl Api.seed last = last ∧
    (start.Ordered → (∀ entry ∈ calls.flatten, entry.2.Ordered) →
      seedInPlace start calls.flatten = last.configuration) := by
  intro start last
  have hlast : last = { api with configuration := seed start calls.flatten } :=
    seed_calls api calls
  refine ⟨hlast, fun path value hvalue hleaf => ?_, fun before key default behind _ => ?_, ?_,
    fun hordered hdefaults => ?_⟩
  · rw [hlast]
    exact (grows_seed start calls.flatten).at?_eq hvalue hleaf
  · exact turn start before key default behind
  · rw [seed_calls, hlast, seed_of_none_accepted fun entry hentry => not_accepts_seed start hentry]
  · rw [hlast, seedInPlace_eq hordered hdefaults]

end Configuration

end EditorHost
