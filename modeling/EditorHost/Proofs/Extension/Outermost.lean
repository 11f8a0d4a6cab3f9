import EditorHost.Proofs.Extension.Walking

/-!
# The outermost packages below a root

What a search below a root returns is settled by the tree and by which folders have a manifest that
is accepted: a folder is returned exactly if it is in reach, has such a manifest, and lies in no
other folder below the root that has one (`Discovery.packages_outermost`).  So a folder whose
manifest is refused hides nothing, and nothing inside a package is returned.
-/

namespace EditorHost.Discovery

open EditorHost.Path (IsName)

variable {d : Disk} {root : Path} {place names : List String}

/-- A folder has a manifest that is accepted. -/
def HasManifest (d : Disk) (path : Path) : Prop :=
  ∃ text m, d.readText (path.join "package.json") = .ok text ∧ Manifest.parse text = .ok m

/-- A folder in which a package is looked for, by the names on the way to it from the root's place:
at most three levels down, through folders and not through links, none of them called
`node_modules`. -/
structure InReach (d : Disk) (place names : List String) : Prop where
  below : 1 ≤ names.length
  short : names.length ≤ 3
  folders : ∀ front, front <+: names → d.faceAt (place ++ front) = some .folder
  kept : "node_modules" ∉ names

theorem InReach.beginning {front : List String} (h : InReach d place names) (hne : front ≠ [])
    (hfront : front <+: names) : InReach d place front where
  below := List.length_pos_iff.mpr hne
  short := hfront.length_le.trans h.short
  folders := fun other hother => h.folders other (hother.trans hfront)
  kept := fun hmem => h.kept (hfront.mem hmem)

theorem InReach.isName (h : InReach d place names) (hproper : d.Proper) :
    ∀ name ∈ names, IsName name := by
  obtain ⟨entries, hentries⟩ :=
    Disk.faceAt_eq_some_folder.mp (h.folders names (List.prefix_refl names))
  exact fun name hname =>
    hproper.isName (by rw [hentries]; rfl) name (List.mem_append_right _ hname)

theorem hasManifest_iff {path : Path} : HasManifest d path ↔ isPackage d path = true := by
  rw [isPackage_iff]
  simp only [Manifest.ofFolder_eq_ok]
  constructor
  · rintro ⟨text, m, hread, hparse⟩
    exact ⟨m, text, hread, hparse⟩
  · rintro ⟨m, text, hread, hparse⟩
    exact ⟨text, m, hread, hparse⟩

/-- What is found is in reach, and the first on its way with a manifest. -/
theorem found_iff : Found d root place names ↔ InReach d place names ∧
    HasManifest d (root.descend names) ∧ ∀ front, front ≠ [] → front <+: names → front ≠ names →
      ¬ HasManifest d (root.descend front) := by
  simp only [hasManifest_iff, Bool.not_eq_true]
  constructor
  · intro h
    refine ⟨⟨List.length_pos_iff.mpr h.ne, h.short, fun front hfront => ?_, fun hmem =>
      h.kept _ hmem rfl⟩, h.package, h.first⟩
    exact Disk.faceAt_folder_above h.folder ((List.prefix_append_right_inj place).mpr hfront)
  · rintro ⟨hreach, hpackage, hfirst⟩
    exact {
      ne := List.length_pos_iff.mp hreach.below
      kept := by
        rintro name hmem rfl
        exact hreach.kept hmem
      package := hpackage
      first := hfirst
      short := hreach.short
      folder := hreach.folders names (List.prefix_refl names) }

/-- On the way to a folder with a manifest something is found. -/
theorem exists_found (hreach : InReach d place names) (h : HasManifest d (root.descend names)) :
    ∃ front, front <+: names ∧ Found d root place front := by
  -- By induction on the length: either nothing above has a manifest, or what is above is shorter.
  induction hlength : names.length using Nat.strong_induction_on generalizing names with
  | _ length ih =>
      by_cases habove : ∃ front, front ≠ [] ∧ front <+: names ∧ front ≠ names ∧
          HasManifest d (root.descend front)
      · obtain ⟨front, hne, hfront, hnot, hmanifest⟩ := habove
        have hshorter : front.length < length := by
          rw [← hlength]
          exact Nat.lt_of_le_of_ne hfront.length_le fun heq => hnot (hfront.eq_of_length heq)
        obtain ⟨first, hfirst, hfound⟩ :=
          ih front.length hshorter (hreach.beginning hne hfront) hmanifest rfl
        exact ⟨first, hfirst.trans hfront, hfound⟩
      · refine ⟨names, List.prefix_refl names, found_iff.mpr ⟨hreach, h, ?_⟩⟩
        intro front hne hfront hnot hmanifest
        exact habove ⟨front, hne, hfront, hnot, hmanifest⟩

/-- Of two folders that are found, none lies in the other. -/
theorem Found.eq_of_beginning {others : List String} (h : Found d root place names)
    (hothers : Found d root place others) (hbeginning : names <+: others) : names = others := by
  by_contra hne
  have hnone := hothers.first names h.ne hbeginning hne
  rw [h.package] at hnone
  cases hnone

/-- What is returned, in the order of a walk: the folders in reach that have a manifest and lie in
no other folder below the root that has one, each once.  A folder that has a manifest is returned or
lies in one that is. -/
theorem packages_outermost (hproper : d.Proper) (root : Path) :
    ∃ ways : List (List String),
      packages d root = ways.map root.descend ∧ (packages d root).Nodup ∧
      ways.Pairwise (· < ·) ∧
      (∀ names, names ∈ ways ↔ ∃ place, d.locate root = .ok place ∧ InReach d place names ∧
        HasManifest d (root.descend names) ∧ ∀ front, front ≠ [] → front <+: names →
          front ≠ names → ¬ HasManifest d (root.descend front)) ∧
      (∀ p ∈ packages d root, ∀ q ∈ packages d root, q.startsWith p = true → q = p) ∧
      ∀ place names, d.locate root = .ok place → InReach d place names →
        HasManifest d (root.descend names) →
          ∃ p ∈ packages d root, (root.descend names).startsWith p = true := by
  obtain ⟨ways, ⟨hfound, hsorted⟩, hways⟩ := exists_walk hproper root
  have hnames : ∀ names ∈ ways, ∀ name ∈ names, IsName name := by
    intro names hmem
    obtain ⟨place, -, hway⟩ := (hfound names).mp hmem
    exact hway.isName hproper
  refine ⟨ways, hways, ?_, hsorted, ?_, ?_, ?_⟩
  · rw [hways]
    exact hsorted.nodup.map_on fun names hmem others hothers heq =>
      Path.descend_inj (hnames names hmem) (hnames others hothers) heq
  · simpa only [found_iff] using hfound
  · rw [hways]
    intro p hp q hq hinside
    obtain ⟨names, hmem, rfl⟩ := List.mem_map.mp hp
    obtain ⟨others, hothers, rfl⟩ := List.mem_map.mp hq
    obtain ⟨place, hplace, hway⟩ := (hfound names).mp hmem
    obtain ⟨place', hplace', hother⟩ := (hfound others).mp hothers
    obtain rfl := Except.ok.inj (hplace.symm.trans hplace')
    have hroot := Disk.text_ne_empty (Disk.locate_eq_ok.mp hplace).1
    have hbeginning := (Path.startsWith_descend_iff hroot (hnames names hmem)
      (hnames others hothers)).mp hinside
    rw [hway.eq_of_beginning hother hbeginning]
  · intro place names hplace hreach hmanifest
    obtain ⟨front, hfront, hway⟩ := exists_found hreach hmanifest
    refine ⟨root.descend front, ?_, ?_⟩
    · rw [hways]
      exact List.mem_map_of_mem ((hfound front).mpr ⟨place, hplace, hway⟩)
    · have hroot := Disk.text_ne_empty (Disk.locate_eq_ok.mp hplace).1
      exact (Path.startsWith_descend_iff hroot (hway.isName hproper)
        (hreach.isName hproper)).mpr hfront

/-! ## A tree with packages at all depths -/

/-- The manifest of a package. -/
def nestedText : String := "\x7b\"publisher\":\"p\",\"name\":\"n\"\x7d"

/-- A package with other folders in it. -/
def nestedFolder (entries : List (String × Node)) : Node :=
  .folder (entries ++ [("package.json", .file (.text nestedText))])

/-- A disk whose root `/r`, to which `/s` links, holds a folder with a manifest that is refused, a
package in that folder and one more in this, what packages depend on, and a package four levels
down. -/
def nestedDisk : Disk where
  root := .folder [
    ("r", .folder [
      ("a", .folder [
        ("node_modules", .folder [("dependency", nestedFolder [])]),
        ("package.json", .file (.text "\x7b\"publisher\":\" \"\x7d")),
        ("sub", nestedFolder [("inner", nestedFolder [])])]),
      ("b", nestedFolder []),
      ("c", .folder [("d", .folder [
        ("e", nestedFolder []), ("f", .folder [("g", nestedFolder [])])])]),
      ("l", .link ⟨"b"⟩)]),
    ("s", .link ⟨"r"⟩)]

theorem proper_nestedDisk : nestedDisk.Proper := by
  have hfile (text : String) : (Node.file (.text text)).Proper := .file _
  have hlink (target : Path) : (Node.link target).Proper := .link _
  simp only [Disk.Proper, nestedDisk, nestedFolder, Node.proper_folder_iff, hfile, hlink,
    Table.Sorted, Table.keys, List.forall_mem_cons, List.not_mem_nil, false_imp_iff, implies_true,
    and_true, List.map_cons, List.map_nil, List.cons_append, List.nil_append]
  decide

/-- The package behind the refused manifest is returned, and what is in it is not. -/
theorem packages_outermost_nested : nestedDisk.Proper ∧
    packages nestedDisk ⟨"/s"⟩ = [⟨"/s/a/sub"⟩, ⟨"/s/b"⟩, ⟨"/s/c/d/e"⟩] ∧
      ∃ ways : List (List String), packages nestedDisk ⟨"/s"⟩ = ways.map (⟨"/s"⟩ : Path).descend ∧
        ["a", "sub"] ∈ ways ∧ ["a", "sub", "inner"] ∉ ways := by
  obtain ⟨ways, hways, -, -, hmem, -, -⟩ := packages_outermost proper_nestedDisk ⟨"/s"⟩
  have hfolder : nestedDisk.faceAt (["r"] ++ ["a", "sub"]) = some .folder := rfl
  have hsub : HasManifest nestedDisk ((⟨"/s"⟩ : Path).descend ["a", "sub"]) :=
    hasManifest_iff.mpr (by decide +kernel)
  have ha : ¬ HasManifest nestedDisk ((⟨"/s"⟩ : Path).descend ["a"]) := by
    rw [hasManifest_iff]
    decide +kernel
  refine ⟨proper_nestedDisk, by decide +kernel, ways, hways, ?_, fun h => ?_⟩
  · refine (hmem _).mpr ⟨["r"], by decide +kernel, ⟨by decide, by decide, fun front hfront => ?_,
      by decide⟩, hsub, fun front hne hfront hnot => ?_⟩
    · exact Disk.faceAt_folder_above hfolder ((List.prefix_append_right_inj _).mpr hfront)
    · obtain ⟨name, rest, rfl⟩ := List.exists_cons_of_ne_nil hne
      obtain ⟨rfl, hrest⟩ := List.cons_prefix_cons.mp hfront
      rcases List.prefix_concat_iff.mp (show rest <+: [] ++ ["sub"] from hrest) with rfl | hnil
      · exact absurd rfl hnot
      · rwa [List.prefix_nil.mp hnil]
  · obtain ⟨place, -, -, -, hfirst⟩ := (hmem _).mp h
    exact hfirst ["a", "sub"] (by decide) ⟨["inner"], rfl⟩ (by decide) hsub

end EditorHost.Discovery
