import EditorHost.Disk

/-!
# Touring a tree

A tour comes past what is in a folder, down to a depth: the entries of a folder in the order of
their names, and behind a folder what is in it.  A link leads nowhere.

A tour is steered while it is under way.  `Tour.skip` leaves out what is still to come in the folder
that was entered last; behind a stop at a folder, that is all that is in it.  `Tour.nextKept?` comes
past some entries only, and does not go into the folders among the others.
-/

namespace EditorHost

namespace Node

mutual
/-- How many nodes a tree has. -/
def size : Node → Nat
  | .folder entries => 1 + sizeOfAll entries
  | _ => 1

/-- How many nodes there are in a folder. -/
def sizeOfAll : List (String × Node) → Nat
  | [] => 0
  | (_, node) :: rest => size node + sizeOfAll rest
end

end Node

namespace Disk

namespace Tour

/-- A folder that a tour is in: its path, and the entries that are still to come. -/
structure Level where
  path : Path
  entries : List (String × Node)

/-- An entry that a tour comes past. -/
structure Stop where
  /-- The path of the folder that it is in. -/
  folder : Path
  name : String
  node : Node

namespace Stop

def path (s : Stop) : Path := s.folder.join s.name

def isFolder (s : Stop) : Bool := s.node matches .folder _

/-- The folder that a tour is in behind a stop, if the stop is at one. -/
def inside (s : Stop) : List Level :=
  match s.node with
  | .folder entries => [⟨s.path, entries⟩]
  | _ => []

end Stop

end Tour

/-- A tour under way: the folders that it is in, the innermost first. -/
abbrev Tour := List Tour.Level

namespace Tour

/-- The next stop, and the tour behind it.  The entries of the folder where a tour begins have
depth one. -/
def next? (maxDepth : Nat) : Tour → Option (Stop × Tour)
  | [] => none
  | ⟨path, entries⟩ :: outer =>
    if maxDepth < outer.length + 1 then next? maxDepth outer
    else
      match entries with
      | [] => next? maxDepth outer
      | (name, node) :: rest =>
        let stop : Stop := ⟨path, name, node⟩
        some (stop, stop.inside ++ ⟨path, rest⟩ :: outer)

/-- Leaves the folder that was entered last. -/
def skip (tour : Tour) : Tour := tour.tail

/-- How many nodes a tour has not come past. -/
def left : Tour → Nat
  | [] => 0
  | level :: outer => Node.sizeOfAll level.entries + left outer

theorem left_skip_le (tour : Tour) : tour.skip.left ≤ tour.left := by
  cases tour with
  | nil => exact Nat.le_refl _
  | cons level outer => exact Nat.le_add_left _ _

theorem left_next {maxDepth : Nat} {tour behind : Tour} {stop : Stop}
    (h : tour.next? maxDepth = some (stop, behind)) : behind.left < tour.left := by
  fun_induction next? maxDepth tour with
  | case1 => cases h
  | case2 path entries outer hdeep ih => exact Nat.lt_of_lt_of_le (ih h) (Nat.le_add_left _ _)
  | case3 path outer hdeep ih => exact Nat.lt_of_lt_of_le (ih h) (Nat.le_add_left _ _)
  | case4 path outer hdeep name node rest stop' =>
    obtain ⟨rfl, rfl⟩ := Prod.mk.inj (Option.some.inj h)
    cases node <;> simp [stop', Stop.inside, left, Node.size, Node.sizeOfAll] <;> omega

/-- The next stop among those that are kept. -/
def nextKept? (maxDepth : Nat) (keep : Stop → Bool) (tour : Tour) : Option (Stop × Tour) :=
  match _h : tour.next? maxDepth with
  | none => none
  | some (stop, behind) =>
    if keep stop then some (stop, behind)
    else if stop.isFolder then nextKept? maxDepth keep behind.skip
    else nextKept? maxDepth keep behind
termination_by tour.left
decreasing_by
  · exact Nat.lt_of_le_of_lt (left_skip_le _) (left_next _h)
  · exact left_next _h

theorem left_nextKept {maxDepth : Nat} {keep : Stop → Bool} {tour behind : Tour} {stop : Stop}
    (h : tour.nextKept? maxDepth keep = some (stop, behind)) : behind.left < tour.left := by
  fun_induction nextKept? maxDepth keep tour with
  | case1 => cases h
  | case2 tour stop behind hnext hkeep =>
    obtain ⟨rfl, rfl⟩ := Prod.mk.inj (Option.some.inj h)
    exact left_next hnext
  | case3 tour stop behind hnext hkeep hfolder ih =>
    exact Nat.lt_trans (Nat.lt_of_lt_of_le (ih h) (left_skip_le _)) (left_next hnext)
  | case4 tour stop behind hnext hkeep hfolder ih => exact Nat.lt_trans (ih h) (left_next hnext)

end Tour

end Disk

end EditorHost
