import EditorHost.Proofs.Json.Nodes

/-!
# Values put at the ends of routes

A route is looked up by `at?`, and its end is given a value by `put?`.  The two belong together as
the two halves of a lens:

* `at?_put?_self`: the value that was put is the one that is found;
* `at?_put?`: what is found at the end of any other route, if that neither leads there nor goes on
  from there, is what was found before;
* `put?_put?`: of two values put at the same end the last one counts;
* `put?_of_at?`: to put what is there changes nothing.

A value cannot be put just where another value that is not an object stands on the way
(`put?_eq_none_iff`).

`put?` makes a new tree.  A tree that is changed while the route is walked (`putInPlace`) gets its
missing objects on the way, before the end is reached.  A walk that has made an object meets nothing
but objects of its own making from there on.  So it comes to the end, and one that does not has made
none: the tree is as it was (`putInPlace_of_none`).
-/

namespace EditorHost.Json

variable {v v' value : Json} {route path : List String} {part : String}

/-! ## Looking up -/

@[simp] theorem at?_nil (v : Json) : v.at? [] = some v := rfl

@[simp] theorem at?_cons (v : Json) (part : String) (rest : List String) :
    v.at? (part :: rest) = (v.get? part).bind fun child => child.at? rest := rfl

theorem at?_append (v : Json) (first second : List String) :
    v.at? (first ++ second) = (v.at? first).bind fun w => w.at? second := by
  induction first generalizing v with
  | nil => rfl
  | cons part first ih =>
      rw [List.cons_append, at?_cons, at?_cons, Option.bind_assoc]
      exact Option.bind_congr fun child _ => ih child

/-- Only objects have something below them. -/
theorem isObject_of_get? (h : v.get? part = some value) : v.isObject = true := by
  cases v <;> first | rfl | cases h

/-- What lies above the end of a route is an object. -/
theorem exists_above (h : v.at? route = some value) (hlead : path <+: route)
    (hne : path ≠ route) : ∃ w, v.at? path = some w ∧ w.isObject = true := by
  obtain ⟨more, rfl⟩ := hlead
  rw [at?_append] at h
  obtain ⟨w, hw, hmore⟩ := Option.bind_eq_some_iff.mp h
  cases more with
  | nil => exact absurd (List.append_nil path).symm hne
  | cons part more =>
      obtain ⟨child, hchild, -⟩ := Option.bind_eq_some_iff.mp hmore
      exact ⟨w, hw, isObject_of_get? hchild⟩

/-! ## What stands in the way -/

/-- A value that is not an object stands on the way along a route, before its end. -/
def Blocked (v : Json) (route : List String) : Prop :=
  ∃ before, before <+: route ∧ before ≠ route ∧ ∃ w, v.at? before = some w ∧ w.isObject = false

theorem not_blocked_nil (v : Json) : ¬ v.Blocked [] := by
  rintro ⟨before, hlead, hne, -⟩
  exact hne (List.prefix_nil.mp hlead)

theorem blocked_cons {rest : List String} : v.Blocked (part :: rest) ↔
    v.isObject = false ∨ ∃ child, v.get? part = some child ∧ child.Blocked rest := by
  constructor
  · rintro ⟨before, hlead, hne, w, hw, hobject⟩
    cases before with
    | nil =>
        cases hw
        exact .inl hobject
    | cons first before =>
        obtain ⟨rfl, hrest⟩ := List.cons_prefix_cons.mp hlead
        obtain ⟨child, hchild, hw⟩ := Option.bind_eq_some_iff.mp hw
        exact .inr ⟨child, hchild, before, hrest, fun heq => hne (heq ▸ rfl), w, hw, hobject⟩
  · rintro (hobject | ⟨child, hchild, before, hlead, hne, w, hw, hobject⟩)
    · exact ⟨[], List.nil_prefix, List.cons_ne_nil _ _ ∘ Eq.symm, v, rfl, hobject⟩
    · refine ⟨part :: before, List.cons_prefix_cons.mpr ⟨rfl, hlead⟩,
        fun heq => hne (List.cons.inj heq).2, w, ?_, hobject⟩
      rw [at?_cons, hchild, Option.bind_some, hw]

theorem not_blocked_empty (route : List String) : ¬ empty.Blocked route := by
  cases route with
  | nil => exact not_blocked_nil _
  | cons part rest =>
      rw [blocked_cons]
      rintro (h | ⟨child, hchild, -⟩)
      · cases h
      · cases hchild

/-! ## Putting -/

/-- The way to a new value leads through an object that is there, or through a new one. -/
theorem put?_object (fields : Table Json) (part : String) (rest : List String) (value : Json) :
    put? (.object fields) value (part :: rest) =
      (put? ((Table.find? fields part).getD .empty) value rest).map fun child =>
        .object (Table.insert fields part child) := rfl

/-- A value can be put at the end of every route on which nothing but objects stands. -/
theorem put?_eq_none_iff : v.put? value route = none ↔ v.Blocked route := by
  induction route generalizing v with
  | nil => exact iff_of_false (by simp [put?]) (not_blocked_nil v)
  | cons part rest ih =>
      rw [blocked_cons]
      cases v with
      | object fields =>
          rw [put?_object, Option.map_eq_none_iff, ih]
          cases hfind : Table.find? fields part with
          | none => simp [get?, hfind, isObject, not_blocked_empty]
          | some child => simp [get?, hfind, isObject]
      | _ => exact iff_of_true rfl (.inl rfl)

theorem at?_put?_self (hput : v.put? value route = some v') : v'.at? route = some value := by
  induction route generalizing v v' with
  | nil => exact hput.symm
  | cons part rest ih =>
      cases v with
      | object fields =>
          obtain ⟨child, hchild, rfl⟩ := Option.map_eq_some_iff.mp hput
          rw [at?_cons, get?, Table.find?_insert_self, Option.bind_some, ih hchild]
      | _ => cases hput

/-- A value put at the end of a route is seen at no end of a route that neither leads there nor goes
on from there, not even where objects were made on the way. -/
theorem at?_put? (hput : v.put? value route = some v') (houter : ¬ path <+: route)
    (hinner : ¬ route <+: path) : v'.at? path = v.at? path := by
  induction route generalizing v v' path with
  | nil => exact absurd List.nil_prefix hinner
  | cons part route ih =>
      cases path with
      | nil => exact absurd List.nil_prefix houter
      | cons first path =>
          cases v with
          | object fields =>
              obtain ⟨child, hchild, rfl⟩ := Option.map_eq_some_iff.mp hput
              simp only [at?, get?, Table.find?_insert]
              by_cases hfirst : first = part
              · subst hfirst
                simp only [List.cons_prefix_cons, true_and] at houter hinner
                rw [if_pos rfl, Option.bind_some, ih hchild houter hinner]
                cases Table.find? fields first with
                | some old => rfl
                | none =>
                    -- nothing is below the object that is made when there is none
                    cases path with
                    | nil => exact absurd List.nil_prefix houter
                    | cons next path => rfl
              · rw [if_neg hfirst]
          | _ => simp [put?] at hput

/-- Of two values put at the same end the last one counts. -/
theorem put?_put? (hput : v.put? value route = some v') (last : Json) :
    v'.put? last route = v.put? last route := by
  induction route generalizing v v' with
  | nil => rfl
  | cons part rest ih =>
      cases v with
      | object fields =>
          obtain ⟨child, hchild, rfl⟩ := Option.map_eq_some_iff.mp hput
          rw [put?_object, put?_object, Table.find?_insert_self, Option.getD_some, ih hchild]
          exact Option.map_congr fun child _ => by rw [Table.insert_insert]
      | _ => cases hput

/-- To put what is there changes nothing. -/
theorem put?_of_at? (hordered : v.Ordered) (h : v.at? route = some value) :
    v.put? value route = some v := by
  induction route generalizing v with
  | nil => exact h.symm
  | cons part rest ih =>
      obtain ⟨child, hchild, hrest⟩ := Option.bind_eq_some_iff.mp h
      cases v with
      | object fields =>
          obtain ⟨hsorted, hbelow⟩ := throughout_object.mp hordered
          have hfind : Table.find? fields part = some child := hchild
          rw [put?_object, hfind, Option.getD_some,
            ih (hbelow _ (Table.mem_of_find? hfind)) hrest, Option.map_some,
            hsorted.insert_of_find? hfind]
      | _ => cases hchild

/-- The fields stay in order. -/
theorem Ordered.put? (hordered : v.Ordered) (hvalue : value.Ordered)
    (hput : v.put? value route = some v') : v'.Ordered := by
  induction route generalizing v v' with
  | nil =>
      cases hput
      exact hvalue
  | cons part rest ih =>
      cases v with
      | object fields =>
          obtain ⟨hsorted, hbelow⟩ := throughout_object.mp hordered
          obtain ⟨child, hchild, rfl⟩ := Option.map_eq_some_iff.mp hput
          have hold : ((Table.find? fields part).getD .empty).Ordered := by
            cases hfind : Table.find? fields part with
            | none => exact .object Table.sorted_nil fun field hfield => nomatch hfield
            | some old => exact hbelow _ (Table.mem_of_find? hfind)
          refine .object (hsorted.insert part child) fun field hfield => ?_
          rcases Table.mem_insert hfield with rfl | hfield
          · exact ih hold hchild
          · exact hbelow field hfield
      | _ => cases hput

/-! ## Putting in place -/

/-- Gives the end of a route a value while walking along it, and tells whether the walk came there.
An object that is missing is made in passing, and stays when the walk stops behind it. -/
def putInPlace (value : Json) : (route : List String) → Json → Bool × Json
  | [], _ => (true, value)
  | part :: rest, .object fields =>
    let (arrived, child) := putInPlace value rest ((Table.find? fields part).getD .empty)
    (arrived, .object (Table.insert fields part child))
  | _ :: _, v => (false, v)

theorem putInPlace_of_some (hput : v.put? value route = some v') :
    putInPlace value route v = (true, v') := by
  induction route generalizing v v' with
  | nil =>
      cases hput
      rfl
  | cons part rest ih =>
      cases v with
      | object fields =>
          obtain ⟨child, hchild, rfl⟩ := Option.map_eq_some_iff.mp hput
          rw [putInPlace, ih hchild]
      | _ => cases hput

/-- A walk that stops has changed nothing. -/
theorem putInPlace_of_none (hordered : v.Ordered) (hput : v.put? value route = none) :
    putInPlace value route v = (false, v) := by
  induction route generalizing v with
  | nil => cases hput
  | cons part rest ih =>
      cases v with
      | object fields =>
          obtain ⟨hsorted, hbelow⟩ := throughout_object.mp hordered
          rw [put?_object, Option.map_eq_none_iff] at hput
          cases hfind : Table.find? fields part with
          | none =>
              -- from an object that was made the walk goes on to the end
              rw [hfind, Option.getD_none, put?_eq_none_iff] at hput
              exact absurd hput (not_blocked_empty rest)
          | some child =>
              rw [hfind, Option.getD_some] at hput
              rw [putInPlace, hfind, Option.getD_some,
                ih (hbelow _ (Table.mem_of_find? hfind)) hput]
              exact congrArg (fun t => (false, Json.object t)) (hsorted.insert_of_find? hfind)
      | _ => rfl

end EditorHost.Json
