import EditorHost.Disk
import EditorHost.Proofs.Path
import EditorHost.Proofs.Table

/-!
# What is seen at the places of a tree

A place is a list of names from the root.  What is seen there, its face, is the content of a file,
the target of a link, or that there is a folder; a tree is known by the faces of its places but for
the order in which folders list their entries.

## Contents

* `Node.faceAt`, and the faces behind `Node.put` and `Node.remove`.
* `Node.Proper`: names that can be names, in order, all the way down.
-/

namespace EditorHost

/-- What is seen of a node without looking into it. -/
inductive Face where
  | file (content : Content)
  | link (target : Path)
  | folder
  deriving DecidableEq

namespace Node

def face : Node → Face
  | file content => .file content
  | link target => .link target
  | folder _ => .folder

/-- What is seen at the end of a list of names. -/
def faceAt (node : Node) (place : List String) : Option Face := (node.get? place).map face

/-! ## Look-ups -/

@[simp] theorem get?_nil (node : Node) : node.get? [] = some node := by
  cases node <;> rfl

theorem get?_append (node : Node) (first second : List String) :
    node.get? (first ++ second) = (node.get? first).bind fun child => child.get? second := by
  induction first generalizing node with
  | nil => simp
  | cons name first ih =>
      cases node with
      | folder entries =>
          simp only [List.cons_append, get?, Option.bind_assoc]
          exact congrArg _ (funext fun child => ih child)
      | _ => rfl

/-- What stands in a folder. -/
theorem get?_of_folder {node : Node} {place : List String} {entries : Table Node}
    (h : node.get? place = some (.folder entries)) (name : String) (rest : List String) :
    node.get? (place ++ name :: rest) =
      (entries.find? name).bind fun child => child.get? rest := by
  rw [get?_append, h]
  rfl

/-- Only folders have something in them. -/
theorem get?_of_concat {node : Node} {place : List String} {name : String} {rest : List String}
    (h : (node.get? (place ++ name :: rest)).isSome = true) :
    ∃ entries : Table Node, node.get? place = some (.folder entries) := by
  rw [get?_append] at h
  cases hplace : node.get? place with
  | none => simp [hplace] at h
  | some child =>
      cases child with
      | folder entries => exact ⟨entries, rfl⟩
      | _ => simp [hplace, get?] at h

theorem faceAt_cons (entries : List (String × Node)) (name : String) (rest : List String) :
    (folder entries).faceAt (name :: rest) =
      (Table.find? entries name).bind fun child => child.faceAt rest := by
  rw [faceAt, get?]
  cases Table.find? entries name <;> rfl

theorem faceAt_eq_some_folder {node : Node} {place : List String} :
    node.faceAt place = some .folder ↔ ∃ entries, node.get? place = some (.folder entries) := by
  rw [faceAt]
  cases node.get? place with
  | none => simp
  | some child => cases child <;> simp [face]

theorem faceAt_eq_none {node : Node} {place : List String} :
    node.faceAt place = none ↔ node.get? place = none := by
  simp [faceAt]

/-- Above a folder there are folders. -/
theorem faceAt_folder_above {node : Node} {place other : List String}
    (h : node.faceAt place = some .folder) (hother : other <+: place) :
    node.faceAt other = some .folder := by
  obtain ⟨rest, rfl⟩ := hother
  cases rest with
  | nil => rwa [List.append_nil] at h
  | cons name rest =>
      obtain ⟨entries, hentries⟩ := faceAt_eq_some_folder.mp h
      exact faceAt_eq_some_folder.mpr (get?_of_concat (by rw [hentries]; rfl))

/-- Below what is missing everything is missing. -/
theorem faceAt_none_append {node : Node} {place : List String} (h : node.faceAt place = none)
    (rest : List String) : node.faceAt (place ++ rest) = none := by
  rw [faceAt_eq_none] at h ⊢
  rw [get?_append, h]
  rfl

/-! ## Changes -/

/-- What is put into a place is there. -/
theorem get?_put_below {node value : Node} {place : List String} {entries : Table Node}
    {name : String} (h : node.get? place = some (.folder entries)) (rest : List String) :
    (node.put value (place ++ [name])).get? (place ++ name :: rest) = value.get? rest := by
  induction place generalizing node with
  | nil =>
      obtain rfl : node = .folder entries := by simpa using h
      simp [put, get?, Table.find?_insert]
  | cons first place ih =>
      cases node with
      | folder others =>
          obtain ⟨child, hchild, hplace⟩ := Option.bind_eq_some_iff.mp h
          have hput := ih hplace
          simpa [put, get?, Table.find?_insert, hchild] using hput
      | _ => cases h

/-- What stands elsewhere looks as it did. -/
theorem faceAt_put {node value : Node} {place : List String} {entries : Table Node}
    {name : String} (h : node.get? place = some (.folder entries)) {other : List String}
    (hother : ¬ place ++ [name] <+: other) :
    (node.put value (place ++ [name])).faceAt other = node.faceAt other := by
  induction place generalizing node other with
  | nil =>
      obtain rfl : node = .folder entries := by simpa using h
      cases other with
      | nil => simp [faceAt, put, face]
      | cons first rest =>
          have hne : first ≠ name := by
            rintro rfl
            exact hother ⟨rest, rfl⟩
          simp [faceAt, put, get?, Table.find?_insert, hne]
  | cons first place ih =>
      cases node with
      | folder others =>
          obtain ⟨child, hchild, hplace⟩ := Option.bind_eq_some_iff.mp h
          cases other with
          | nil => simp [faceAt, put, face]
          | cons second rest =>
              by_cases hne : second = first
              · subst hne
                have hrest : ¬ place ++ [name] <+: rest := by
                  rintro ⟨more, rfl⟩
                  exact hother ⟨more, rfl⟩
                have hput := ih hplace hrest
                simpa [faceAt, put, get?, Table.find?_insert, hchild] using hput
              · simp [faceAt, put, get?, Table.find?_insert, hne]
      | _ => cases h

theorem remove_cons_cons (entries : Table Node) (name next : String) (rest : List String) :
    (folder entries).remove (name :: next :: rest) =
      .folder (entries.adjust name fun child => child.remove (next :: rest)) := rfl

/-- What is removed is not there, and what stands elsewhere looks as it did. -/
theorem faceAt_remove (node : Node) {place : List String} (hne : place ≠ [])
    (other : List String) : (node.remove place).faceAt other =
      if place <+: other then none else node.faceAt other := by
  induction place generalizing node other with
  | nil => exact absurd rfl hne
  | cons name rest ih =>
      cases node with
      | folder entries =>
          cases other with
          | nil =>
              rw [if_neg (by simp)]
              cases rest <;> rfl
          | cons first more =>
              by_cases hfirst : first = name
              · subst hfirst
                cases rest with
                | nil => simp [faceAt, remove, get?, Table.find?_erase]
                | cons next rest =>
                    rw [remove_cons_cons]
                    cases hchild : Table.find? entries first with
                    | none => simp [faceAt, get?, Table.find?_adjust, hchild]
                    | some child =>
                        have hremove := ih child (List.cons_ne_nil _ _) more
                        simpa [faceAt, get?, Table.find?_adjust, hchild] using hremove
              · have hnot : ¬ name :: rest <+: first :: more := by
                  rw [List.cons_prefix_cons]
                  exact fun h => hfirst h.1.symm
                rw [if_neg hnot]
                cases rest with
                | nil => simp [faceAt, remove, get?, Table.find?_erase, hfirst]
                | cons next rest =>
                    rw [remove_cons_cons]
                    simp [faceAt, get?, Table.find?_adjust, hfirst]
      | file content =>
          have hsame : (file content).remove (name :: rest) = .file content := by
            cases rest <;> rfl
          rw [hsame]
          split
          next habove =>
            obtain ⟨more, rfl⟩ := habove
            rfl
          · rfl
      | link target =>
          have hsame : (link target).remove (name :: rest) = .link target := by
            cases rest <;> rfl
          rw [hsame]
          split
          next habove =>
            obtain ⟨more, rfl⟩ := habove
            rfl
          · rfl

/-! ## Trees without links -/

/-- No link stands in the tree. -/
inductive Linkless : Node → Prop where
  | file (content : Content) : Linkless (.file content)
  | folder {entries : List (String × Node)} (nodes : ∀ entry ∈ entries, Linkless entry.2) :
      Linkless (.folder entries)

theorem linkless_folder_iff {entries : List (String × Node)} :
    Linkless (.folder entries) ↔ ∀ entry ∈ entries, Linkless entry.2 :=
  ⟨fun h => by cases h with | folder nodes => exact nodes, .folder⟩

theorem Linkless.faceAt_ne_link {node : Node} (h : node.Linkless) (place : List String)
    (target : Path) : node.faceAt place ≠ some (.link target) := by
  induction place generalizing node with
  | nil => cases h <;> simp [faceAt, face]
  | cons name rest ih =>
      cases h with
      | file content => simp [faceAt, get?]
      | folder nodes =>
          intro hlink
          rw [faceAt_cons] at hlink
          obtain ⟨child, hchild, hlink⟩ := Option.bind_eq_some_iff.mp hlink
          exact ih (nodes _ (Table.mem_of_find? hchild)) hlink

/-! ## Well-formed trees -/

/-- Folders list entries by proper names, in order and each name once. -/
inductive Proper : Node → Prop where
  | file (content : Content) : Proper (.file content)
  | link (target : Path) : Proper (.link target)
  | folder {entries : List (String × Node)} (sorted : Table.Sorted entries)
      (names : ∀ entry ∈ entries, Path.IsName entry.1)
      (nodes : ∀ entry ∈ entries, Proper entry.2) : Proper (.folder entries)

theorem proper_folder_iff {entries : List (String × Node)} : Proper (.folder entries) ↔
    Table.Sorted entries ∧ (∀ entry ∈ entries, Path.IsName entry.1) ∧
      ∀ entry ∈ entries, Proper entry.2 :=
  ⟨fun h => by cases h with | folder sorted names nodes => exact ⟨sorted, names, nodes⟩,
    fun ⟨sorted, names, nodes⟩ => .folder sorted names nodes⟩

theorem proper_folder_nil : Proper (.folder []) :=
  .folder Table.sorted_nil (fun _ h => (nomatch h)) fun _ h => (nomatch h)

theorem Proper.get? {node child : Node} {place : List String} (h : node.Proper)
    (hchild : node.get? place = some child) : child.Proper := by
  induction place generalizing node with
  | nil =>
      obtain rfl : node = child := by simpa using hchild
      exact h
  | cons name rest ih =>
      cases h with
      | folder sorted names nodes =>
          obtain ⟨next, hnext, hrest⟩ := Option.bind_eq_some_iff.mp hchild
          exact ih (nodes _ (Table.mem_of_find? hnext)) hrest
      | _ => cases hchild

/-- The names on the way to what is there are proper ones. -/
theorem Proper.isName {node : Node} {place : List String} (h : node.Proper)
    (hexists : (node.get? place).isSome = true) : ∀ name ∈ place, Path.IsName name := by
  induction place generalizing node with
  | nil => exact fun _ h => (nomatch h)
  | cons name rest ih =>
      cases h with
      | @folder entries sorted names nodes =>
          cases hchild : Table.find? entries name with
          | none => simp [Node.get?, hchild] at hexists
          | some child =>
              have hmem := Table.mem_of_find? hchild
              refine List.forall_mem_cons.mpr ⟨names _ hmem, ih (nodes _ hmem) ?_⟩
              simpa [Node.get?, hchild] using hexists
      | _ => cases hexists

theorem Proper.put {node value : Node} {place : List String} (h : node.Proper)
    (hvalue : value.Proper) (hnames : ∀ name ∈ place, Path.IsName name) :
    (node.put value place).Proper := by
  induction place generalizing node with
  | nil => exact hvalue
  | cons name rest ih =>
      obtain ⟨hname, hrest⟩ := List.forall_mem_cons.mp hnames
      cases h with
      | @folder entries sorted names nodes =>
          have hchild : ((Table.find? entries name).getD (.folder [])).Proper := by
            cases hfind : Table.find? entries name with
            | none => exact proper_folder_nil
            | some child => exact nodes _ (Table.mem_of_find? hfind)
          refine .folder (sorted.insert _ _) (fun entry hentry => ?_) fun entry hentry => ?_
          · rcases Table.mem_insert hentry with rfl | hentry
            · exact hname
            · exact names entry hentry
          · rcases Table.mem_insert hentry with rfl | hentry
            · exact ih hchild hrest
            · exact nodes entry hentry
      | file content => exact .file content
      | link target => exact .link target

theorem Proper.remove {node : Node} (h : node.Proper) (place : List String) :
    (node.remove place).Proper := by
  induction place generalizing node with
  | nil => exact proper_folder_nil
  | cons name rest ih =>
      cases h with
      | @folder entries sorted names nodes =>
          cases rest with
          | nil =>
              exact .folder (sorted.erase name)
                (fun entry hentry => names entry (Table.mem_erase.mp hentry).1)
                fun entry hentry => nodes entry (Table.mem_erase.mp hentry).1
          | cons next rest =>
              rw [remove_cons_cons]
              refine .folder (sorted.adjust name _) (fun entry hentry => ?_) fun entry hentry => ?_
              · obtain ⟨old, hold, rfl⟩ := List.mem_map.mp hentry
                have hkey := names old hold
                dsimp only
                split <;> exact hkey
              · obtain ⟨old, hold, rfl⟩ := List.mem_map.mp hentry
                dsimp only
                split
                · exact ih (nodes old hold)
                · exact nodes old hold
      | file content => cases rest <;> exact .file content
      | link target => cases rest <;> exact .link target

end Node

end EditorHost
