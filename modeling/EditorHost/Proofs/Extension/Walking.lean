import EditorHost.Proofs.Extension.Discovering

/-!
# In which order packages are found

The packages below a root are found in the order of a walk that takes the entries of every folder in
the order of their names, and each is found once: by the names on the way to them they come in
lexicographic order (`Discovery.exists_walk`).  That is so for every root, also for one to which
links or dots lead.
-/

namespace EditorHost

open EditorHost.Path (IsName)

variable {d : Disk} {root : Path}

namespace Discovery

/-- The names on the way to the packages below a root, in the order of a walk. -/
structure Walk (d : Disk) (root : Path) (ways : List (List String)) : Prop where
  found : ∀ names, names ∈ ways ↔
    ∃ place, d.locate root = .ok place ∧ Found d root place names
  sorted : ways.Pairwise (· < ·)

/-- What a walk comes past among the entries of a folder, if it is known what it comes past in each
of them. -/
theorem exists_ways_among {path : Path} {depth : Nat} {entries : Table Node}
    (hsorted : Table.Sorted entries) (hkeys : ∀ entry ∈ entries, IsName entry.1)
    (hin : ∀ name others, (name, Node.folder others) ∈ entries → ∃ ways : List (List String),
      packagesIn d (path.join name) depth (.folder others) =
          ways.map (path.join name).descend ∧
        ways.Pairwise (· < ·) ∧ ∀ names ∈ ways, ∀ name ∈ names, IsName name) :
    ∃ ways : List (List String), packagesAmong d path depth entries = ways.map path.descend ∧
      ways.Pairwise (· < ·) ∧ (∀ names ∈ ways, ∀ name ∈ names, IsName name) ∧
        ∀ names ∈ ways, ∃ name ∈ entries.keys, names.head? = some name := by
  induction entries with
  | nil => exact ⟨[], rfl, .nil, nofun, nofun⟩
  | cons entry rest ih =>
      obtain ⟨name, node⟩ := entry
      obtain ⟨hfirst, hrest⟩ := List.pairwise_cons.mp hsorted
      obtain ⟨hname, hkeys⟩ := List.forall_mem_cons.mp hkeys
      obtain ⟨later, hlater, hpairwise, hnames, hheads⟩ := ih hrest hkeys fun other others hmem =>
        hin other others (List.mem_cons_of_mem _ hmem)
      have hbehind (names : List String) (hmem : names ∈ later) :
          ∃ other ∈ Table.keys ((name, node) :: rest), names.head? = some other := by
        obtain ⟨other, hother, hhead⟩ := hheads names hmem
        exact ⟨other, List.mem_cons_of_mem _ hother, hhead⟩
      cases node with
      | file content => exact ⟨later, hlater, hpairwise, hnames, hbehind⟩
      | link target => exact ⟨later, hlater, hpairwise, hnames, hbehind⟩
      | folder others =>
          obtain ⟨ways, hways, hown, hinner⟩ : ∃ ways : List (List String),
              (if name = skippedName then []
                else if isPackage d (path.join name) then [path.join name]
                else packagesIn d (path.join name) depth (.folder others)) =
                  ways.map (path.join name).descend ∧
                ways.Pairwise (· < ·) ∧ ∀ names ∈ ways, ∀ name ∈ names, IsName name := by
            split
            · exact ⟨[], rfl, .nil, nofun⟩
            · split
              · exact ⟨[[]], rfl, List.pairwise_singleton _ _, by simp⟩
              · exact hin name others List.mem_cons_self
          refine ⟨ways.map (name :: ·) ++ later, ?_, ?_, ?_, ?_⟩
          · rw [packagesAmong, hways, hlater, List.map_append, List.map_map]
            rfl
          · -- What is found behind the first name comes before all that is found later.
            refine List.pairwise_append.mpr ⟨hown.map _ fun first second hlt =>
              List.cons_lt_cons_iff.mpr (.inr ⟨rfl, hlt⟩), hpairwise, ?_⟩
            intro names hmem others hothers
            obtain ⟨way, -, rfl⟩ := List.mem_map.mp hmem
            obtain ⟨other, hother, hhead⟩ := hheads others hothers
            obtain ⟨more, rfl⟩ := List.head?_eq_some_iff.mp hhead
            exact List.cons_lt_cons_iff.mpr (.inl (hfirst other hother))
          · intro names hmem
            rcases List.mem_append.mp hmem with hmem | hmem
            · obtain ⟨way, hway, rfl⟩ := List.mem_map.mp hmem
              exact List.forall_mem_cons.mpr ⟨hname, hinner way hway⟩
            · exact hnames names hmem
          · intro names hmem
            rcases List.mem_append.mp hmem with hmem | hmem
            · obtain ⟨way, -, rfl⟩ := List.mem_map.mp hmem
              exact ⟨name, List.mem_cons_self, rfl⟩
            · exact hbehind names hmem

/-- The packages in a folder come in the order of a walk. -/
theorem exists_ways {node : Node} (h : node.Proper) (path : Path) (depth : Nat) :
    ∃ ways : List (List String), packagesIn d path depth node = ways.map path.descend ∧
      ways.Pairwise (· < ·) ∧ ∀ names ∈ ways, ∀ name ∈ names, IsName name := by
  induction depth generalizing node path with
  | zero =>
      have hnone : packagesIn d path 0 node = [] := by cases node <;> rfl
      exact ⟨[], hnone, .nil, nofun⟩
  | succ depth ih =>
      cases h with
      | file content => exact ⟨[], rfl, .nil, nofun⟩
      | link target => exact ⟨[], rfl, .nil, nofun⟩
      | @folder entries sorted names nodes =>
          obtain ⟨ways, hways, hpairwise, hnames, -⟩ :=
            exists_ways_among sorted names fun name others hmem =>
              ih (nodes _ hmem) (path.join name)
          exact ⟨ways, hways, hpairwise, hnames⟩

/-- What is found in a folder, by the names on the way to it. -/
theorem mem_ways {node : Node} (h : node.Proper) {path : Path} {depth : Nat}
    {ways : List (List String)} (hways : packagesIn d path depth node = ways.map path.descend)
    (hnames : ∀ names ∈ ways, ∀ name ∈ names, IsName name) (names : List String) :
    names ∈ ways ↔ Outermost d path names ∧ names.length ≤ depth ∧
      node.faceAt names = some .folder := by
  have hproper (others : List String) (hfolder : node.faceAt others = some .folder) :
      ∀ name ∈ others, IsName name := by
    obtain ⟨entries, hentries⟩ := Node.faceAt_eq_some_folder.mp hfolder
    exact h.isName (by rw [hentries]; rfl)
  constructor
  · intro hmem
    have hfound : path.descend names ∈ packagesIn d path depth node :=
      hways ▸ List.mem_map_of_mem hmem
    obtain ⟨others, houtermost, hshort, hfolder, heq⟩ := (mem_packagesIn h).mp hfound
    obtain rfl := Path.descend_inj (hnames names hmem) (hproper others hfolder) heq
    exact ⟨houtermost, hshort, hfolder⟩
  · rintro ⟨houtermost, hshort, hfolder⟩
    have hfound := (mem_packagesIn h).mpr ⟨names, houtermost, hshort, hfolder, rfl⟩
    rw [hways] at hfound
    obtain ⟨others, hmem, heq⟩ := List.mem_map.mp hfound
    obtain rfl := Path.descend_inj (hnames others hmem) (hproper names hfolder) heq
    exact hmem

/-- The packages below a root come in the order of a walk. -/
theorem exists_walk (hproper : d.Proper) (root : Path) :
    ∃ ways, Walk d root ways ∧ packages d root = ways.map root.descend := by
  rw [packages_eq, Disk.find?]
  cases hnode : d.nodeAt root with
  | error e =>
      refine ⟨[], ⟨fun names => ⟨fun hmem => absurd hmem List.not_mem_nil, ?_⟩, .nil⟩, rfl⟩
      rintro ⟨place, hplace, hfound⟩
      obtain ⟨entries, hentries⟩ := Disk.faceAt_eq_some_folder.mp hfound.folder
      rw [Node.get?_append] at hentries
      obtain ⟨node, hget, -⟩ := Option.bind_eq_some_iff.mp hentries
      rw [Disk.nodeAt_eq_ok.mpr ⟨place, hplace, hget⟩] at hnode
      cases hnode
  | ok node =>
      obtain ⟨place, hplace, hget⟩ := Disk.nodeAt_eq_ok.mp hnode
      have hnodeProper := hproper.get? hget
      obtain ⟨ways, hways, hsorted, hnames⟩ := exists_ways hnodeProper root maxDepth
      have hbelow (names : List String) : d.faceAt (place ++ names) = node.faceAt names := by
        rw [Disk.faceAt, Node.faceAt, Node.get?_append, hget]
        rfl
      refine ⟨ways, ⟨fun names => (mem_ways hnodeProper hways hnames names).trans ?_, hsorted⟩,
        hways⟩
      constructor
      · rintro ⟨houtermost, hshort, hfolder⟩
        exact ⟨place, hplace, houtermost, hshort, (hbelow names).trans hfolder⟩
      · rintro ⟨other, hother, houtermost, hshort, hfolder⟩
        obtain rfl := Except.ok.inj (hplace.symm.trans hother)
        exact ⟨houtermost, hshort, (hbelow names).symm.trans hfolder⟩

end Discovery

end EditorHost
