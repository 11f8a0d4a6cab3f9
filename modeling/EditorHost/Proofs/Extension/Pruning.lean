import EditorHost.Extension.Discovery

/-!
# Tours that are cut short

The tour on which packages are looked for is steered on its way: it does not go into folders that
are left out, nor into a package that was found.  What it finds is found by recursion over the tree
as well, where a folder that is not gone into has no part in what is found beside it
(`Discovery.packages_eq`).

The proof is by what is ahead of a tour, which a stop splits into what is found there and what is
ahead behind it.
-/

namespace EditorHost.Discovery

open Disk (Tour)

variable {d : Disk} {tour behind : Tour} {stop : Tour.Stop}

mutual
/-- The outermost packages in a folder at a path, down to a depth. -/
def packagesIn (disk : Disk) (path : Path) (depth : Nat) : Node → List Path
  | .folder entries =>
    match depth with
    | 0 => []
    | depth + 1 => packagesAmong disk path depth entries
  | _ => []

/-- The outermost packages among the entries of a folder and below them. -/
def packagesAmong (disk : Disk) (path : Path) (depth : Nat) : List (String × Node) → List Path
  | [] => []
  | (name, .folder entries) :: rest =>
    let child := path.join name
    let found :=
      if name = skippedName then []
      else if isPackage disk child then [child]
      else packagesIn disk child depth (.folder entries)
    found ++ packagesAmong disk path depth rest
  | _ :: rest => packagesAmong disk path depth rest
end

/-- What there is to find in the folders that a tour is in, each at its depth. -/
def ahead (disk : Disk) : Tour → List Path
  | [] => []
  | ⟨path, entries⟩ :: outer =>
    packagesIn disk path (maxDepth - outer.length) (.folder entries) ++ ahead disk outer

theorem ahead_cons (path : Path) (entries : List (String × Node)) (outer : Tour) :
    ahead d (⟨path, entries⟩ :: outer) =
      packagesIn d path (maxDepth - outer.length) (.folder entries) ++ ahead d outer := rfl

/-- A folder that is too deep adds nothing. -/
theorem ahead_deep {level : Tour.Level} {outer : Tour} (h : maxDepth < outer.length + 1) :
    ahead d (level :: outer) = ahead d outer := by
  rw [ahead_cons, Nat.sub_eq_zero_of_le (Nat.lt_succ_iff.mp h)]
  rfl

theorem ahead_nil (path : Path) (outer : Tour) : ahead d (⟨path, []⟩ :: outer) = ahead d outer := by
  rw [ahead_cons]
  cases maxDepth - outer.length <;> rfl

/-- What is ahead where a tour goes on: nothing inside a folder that is left out, and of a package
only the package itself. -/
theorem ahead_next (tour : Tour) : ahead d tour =
    match tour.next? maxDepth with
    | none => []
    | some (stop, behind) =>
      if isKept stop then
        if isPackage d stop.path then stop.path :: ahead d behind.skip else ahead d behind
      else if stop.isFolder then ahead d behind.skip
      else ahead d behind := by
  fun_induction Tour.next? maxDepth tour with
  | case1 => rfl
  | case2 path entries outer hdeep ih => rw [ahead_deep hdeep, ih]
  | case3 path outer hdeep ih => rw [ahead_nil, ih]
  | case4 path outer hdeep name node rest stop =>
      -- A folder is entered at the stop, so that leaving the innermost folder leaves this one and
      -- not the one that the stop is in.
      obtain ⟨depth, hdepth⟩ : ∃ depth, maxDepth - outer.length = depth + 1 :=
        ⟨maxDepth - outer.length - 1, by omega⟩
      have hhere (entries : List (String × Node)) : ahead d (⟨path, entries⟩ :: outer) =
          packagesAmong d path depth entries ++ ahead d outer := by
        rw [ahead_cons, hdepth]
        rfl
      cases node with
      | folder others =>
          have hinside : ahead d (⟨path.join name, others⟩ :: ⟨path, rest⟩ :: outer) =
              packagesIn d (path.join name) depth (.folder others) ++
                ahead d (⟨path, rest⟩ :: outer) := by
            rw [ahead_cons, List.length_cons, show maxDepth - (outer.length + 1) = depth by omega]
          simp only [stop, Tour.Stop.inside, Tour.Stop.path, Tour.Stop.isFolder, Tour.skip, isKept,
            List.singleton_append, List.tail_cons, hinside, hhere, packagesAmong]
          by_cases hname : name = skippedName
          · simp [hname]
          · cases hpackage : isPackage d (path.join name) <;> simp [hname]
      | _ => simp [stop, isKept, Tour.Stop.isFolder, Tour.Stop.inside, hhere, packagesAmong]

/-- What is ahead up to the next stop that is kept: only what is found there and behind it. -/
theorem ahead_nextKept (tour : Tour) : ahead d tour =
    match tour.nextKept? maxDepth isKept with
    | none => []
    | some (stop, behind) =>
      if isPackage d stop.path then stop.path :: ahead d behind.skip else ahead d behind := by
  fun_induction Tour.nextKept? maxDepth isKept tour with
  | case1 tour hend => rw [ahead_next, hend]
  | case2 tour stop behind hstop hkeep =>
      rw [ahead_next, hstop]
      exact if_pos hkeep
  | case3 tour stop behind hstop hkeep hfolder ih =>
      rw [ahead_next, hstop]
      dsimp only
      rw [if_neg hkeep, if_pos hfolder, ih]
  | case4 tour stop behind hstop hkeep hfolder ih =>
      rw [ahead_next, hstop]
      dsimp only
      rw [if_neg hkeep, if_neg hfolder, ih]

/-- A tour finds what is ahead of it. -/
theorem collect_eq (d : Disk) (tour : Tour) : collect d tour = ahead d tour := by
  fun_induction collect d tour with
  | case1 tour hend => rw [ahead_nextKept, hend]
  | case2 tour stop behind hstop hpackage ih =>
      rw [ahead_nextKept, hstop, ih]
      exact (if_pos hpackage).symm
  | case3 tour stop behind hstop hpackage ih =>
      rw [ahead_nextKept, hstop, ih]
      exact (if_neg hpackage).symm

/-- The packages below a root, by recursion over the tree. -/
theorem packages_eq (d : Disk) (root : Path) : packages d root =
    match d.find? root with
    | some node => packagesIn d root maxDepth node
    | none => [] := by
  rw [packages]
  cases d.find? root with
  | none => rfl
  | some node =>
      cases node with
      | file content => rfl
      | link target => rfl
      | folder entries => exact (collect_eq d _).trans (List.append_nil _)

end EditorHost.Discovery
