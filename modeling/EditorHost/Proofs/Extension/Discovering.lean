import EditorHost.Proofs.Extension.Installing
import EditorHost.Proofs.Extension.Pruning

/-!
# Which extensions are found below an install root

A package is found below an install root exactly if it is a folder with a manifest at most three
levels deep, none of the folders on the way has a manifest, and none is called `node_modules`
(`Discovery.mem_packages`).  Whether that is so shows in the faces of the places below the root.

A host that discovers what there is takes the first package of each identifier, those of the user's
root before the bundled ones (`Host.source?_discovered`).

## Contents

* `Manifest.ofFolder_plain`: the manifest of a folder, in terms of what is seen.
* `Discovery.Found`, and `Discovery.mem_packages`.
* `Manifest.ofFolders`: the folders that have a readable manifest, with their manifests.
* `World.discover_alone`, and which extension a host then lists under an identifier.
-/

namespace EditorHost

open Disk (checkName checkPath)
open EditorHost.Path (IsName)

variable {d d' : Disk} {place : List String}

/-! ## Manifests -/

/-- The manifest of a folder, in terms of what is seen. -/
theorem Manifest.ofFolder_plain {p : Path} {m : Manifest} (hp : p.Plain place)
    (hstraight : d.Straight (place ++ [Manifest.fileName])) :
    Manifest.ofFolder d p = .ok m ↔ checkPath (p.join Manifest.fileName) = .ok () ∧
      (∀ name ∈ place ++ [Manifest.fileName], checkName name = .ok ()) ∧
      ∃ text, d.faceAt (place ++ [Manifest.fileName]) = some (.file (.text text)) ∧
        Manifest.parse text = .ok m := by
  have hplain := hp.join_name Manifest.isName_fileName
  have hslash := Manifest.isName_fileName.endsInSlash_join p
  have hface (text : String) : d.faceAt (place ++ [Manifest.fileName]) =
      some (.file (.text text)) ↔
        d.root.get? (place ++ [Manifest.fileName]) = some (.file (.text text)) := by
    rw [Disk.faceAt, Node.faceAt]
    cases d.root.get? (place ++ [Manifest.fileName]) with
    | none => simp
    | some node => cases node <;> simp [Node.face]
  rw [Manifest.ofFolder_eq_ok]
  simp only [Disk.readText_eq_ok, Disk.nodeAt_eq_ok_iff hplain hslash hstraight, hface]
  constructor
  · rintro ⟨text, ⟨hpath, hchecks, hfile⟩, hparse⟩
    exact ⟨hpath, hchecks, text, hfile, hparse⟩
  · rintro ⟨hpath, hchecks, text, hfile, hparse⟩
    exact ⟨text, ⟨hpath, hchecks, hfile⟩, hparse⟩

/-- Where a manifest looks the same, it is read the same. -/
theorem Manifest.ofFolder_congr {p : Path} {m : Manifest} (hp : p.Plain place)
    (hstraight : d.Straight (place ++ [Manifest.fileName]))
    (hstraight' : d'.Straight (place ++ [Manifest.fileName]))
    (hsame : d'.faceAt (place ++ [Manifest.fileName]) = d.faceAt (place ++ [Manifest.fileName])) :
    Manifest.ofFolder d' p = .ok m ↔ Manifest.ofFolder d p = .ok m := by
  rw [Manifest.ofFolder_plain hp hstraight, Manifest.ofFolder_plain hp hstraight', hsame]

/-- No link stands directly in a folder, and none below it is called as manifests are. -/
def Disk.Settled (d : Disk) (place : List String) : Prop :=
  ∀ rest name target, d.faceAt (place ++ rest ++ [name]) = some (.link target) →
    rest ≠ [] ∧ name ≠ Manifest.fileName

/-- In a settled folder no link stands on the way to the manifest of a folder. -/
theorem Disk.Settled.straight_manifest (h : d.Settled place) {names : List String}
    (hfolder : d.faceAt (place ++ names) = some .folder) :
    d.Straight (place ++ names ++ [Manifest.fileName]) :=
  (Disk.straight_of_folder hfolder).concat fun target hlink => (h names _ target hlink).2 rfl

theorem Disk.Confined.settled {other : List String} (h : Disk.Confined other d d')
    (hsettled : d.Settled place) : d'.Settled place :=
  fun rest name target hlink => hsettled rest name target (h.links _ target hlink)

namespace Discovery

/-- A package is a folder whose manifest can be read. -/
theorem isPackage_iff {p : Path} : isPackage d p = true ↔ ∃ m, Manifest.ofFolder d p = .ok m := by
  rw [isPackage, Bool.and_eq_true]
  constructor
  · rintro ⟨-, hmanifest⟩
    cases h : Manifest.ofFolder d p with
    | error e =>
        rw [h] at hmanifest
        cases hmanifest
    | ok m => exact ⟨m, rfl⟩
  · rintro ⟨m, hm⟩
    refine ⟨?_, by rw [hm]; rfl⟩
    obtain ⟨text, hread, -⟩ := Manifest.ofFolder_eq_ok.mp hm
    rw [Disk.isFile, Disk.find?, Disk.readText_eq_ok.mp hread]
    rfl

/-! ## Packages in a folder -/

/-- The outermost package on the way from a path to the folder some folders below. -/
structure Outermost (d : Disk) (path : Path) (names : List String) : Prop where
  ne : names ≠ []
  kept : ∀ name ∈ names, name ≠ skippedName
  package : isPackage d (path.descend names) = true
  first : ∀ front, front ≠ [] → front <+: names → front ≠ names →
    isPackage d (path.descend front) = false

theorem outermost_singleton {path : Path} {name : String} :
    Outermost d path [name] ↔ name ≠ skippedName ∧ isPackage d (path.join name) = true := by
  constructor
  · exact fun h => ⟨h.kept name List.mem_cons_self, h.package⟩
  · rintro ⟨hkept, hpackage⟩
    refine ⟨by simp, by simpa using hkept, hpackage, fun front hne hfront hnot => ?_⟩
    rcases List.prefix_concat_iff.mp (show front <+: [] ++ [name] from hfront) with heq | hnil
    · exact absurd heq hnot
    · exact absurd (List.prefix_nil.mp hnil) hne

/-- Further down, the first folder on the way is not a package. -/
theorem outermost_cons {path : Path} {name : String} {rest : List String} (hrest : rest ≠ []) :
    Outermost d path (name :: rest) ↔ name ≠ skippedName ∧
      isPackage d (path.join name) = false ∧ Outermost d (path.join name) rest := by
  constructor
  · intro h
    obtain ⟨hname, hkept⟩ := List.forall_mem_cons.mp h.kept
    refine ⟨hname, h.first [name] (by simp) ⟨rest, rfl⟩ (by simpa using hrest.symm),
      hrest, hkept, h.package, fun front hne hfront hnot => ?_⟩
    exact h.first (name :: front) (by simp) (List.cons_prefix_cons.mpr ⟨rfl, hfront⟩)
      (by simpa using hnot)
  · rintro ⟨hname, hfirst, h⟩
    refine ⟨by simp, List.forall_mem_cons.mpr ⟨hname, h.kept⟩, h.package, ?_⟩
    intro front hne hfront hnot
    obtain ⟨first, more, rfl⟩ := List.exists_cons_of_ne_nil hne
    obtain ⟨rfl, hmore⟩ := List.cons_prefix_cons.mp hfront
    cases more with
    | nil => exact hfirst
    | cons next more => exact h.first _ (by simp) hmore (by simpa using hnot)

theorem mem_packagesAmong {path p : Path} {depth : Nat} {entries : Table Node} :
    p ∈ packagesAmong d path depth entries ↔ ∃ name others, (name, Node.folder others) ∈ entries ∧
      name ≠ skippedName ∧
        ((isPackage d (path.join name) = true ∧ p = path.join name) ∨
          (isPackage d (path.join name) = false ∧
            p ∈ packagesIn d (path.join name) depth (.folder others))) := by
  induction entries with
  | nil => simp [packagesAmong]
  | cons entry rest ih =>
      obtain ⟨name, node⟩ := entry
      cases node with
      | file content => simp [packagesAmong, ih]
      | link target => simp [packagesAmong, ih]
      | folder others =>
          have hfirst : (p ∈ if name = skippedName then []
              else if isPackage d (path.join name) then [path.join name]
              else packagesIn d (path.join name) depth (.folder others)) ↔ name ≠ skippedName ∧
                ((isPackage d (path.join name) = true ∧ p = path.join name) ∨
                  (isPackage d (path.join name) = false ∧
                    p ∈ packagesIn d (path.join name) depth (.folder others))) := by
            by_cases hname : name = skippedName
            · simp [hname]
            · cases isPackage d (path.join name) <;> simp [hname]
          rw [packagesAmong, List.mem_append, hfirst, ih]
          constructor
          · rintro (hhere | ⟨other, below, hmem, hrest⟩)
            · exact ⟨name, others, List.mem_cons_self, hhere⟩
            · exact ⟨other, below, List.mem_cons_of_mem _ hmem, hrest⟩
          · rintro ⟨other, below, hmem, hrest⟩
            rcases List.mem_cons.mp hmem with heq | hmem
            · obtain ⟨rfl, hfolder⟩ := Prod.mk.inj heq
              obtain rfl := Node.folder.inj hfolder
              exact .inl hrest
            · exact .inr ⟨other, below, hmem, hrest⟩

/-- The packages in a folder, by the names on the way to them. -/
theorem mem_packagesIn {node : Node} (h : node.Proper) {path p : Path} {depth : Nat} :
    p ∈ packagesIn d path depth node ↔ ∃ names, Outermost d path names ∧ names.length ≤ depth ∧
      node.faceAt names = some .folder ∧ p = path.descend names := by
  induction depth generalizing node path with
  | zero =>
      have hnone : packagesIn d path 0 node = [] := by cases node <;> rfl
      rw [hnone]
      refine ⟨fun h => (nomatch h), fun ⟨names, houtermost, hshort, _⟩ => ?_⟩
      exact absurd (List.length_eq_zero_iff.mp (Nat.le_zero.mp hshort)) houtermost.ne
  | succ depth ih =>
      cases h with
      | @folder entries sorted names nodes =>
          have hin : packagesIn d path (depth + 1) (.folder entries) =
              packagesAmong d path depth entries := rfl
          rw [hin, mem_packagesAmong]
          constructor
          · rintro ⟨name, others, hmem, hname, ⟨hpackage, rfl⟩ | ⟨hnot, hp⟩⟩
            · refine ⟨[name], outermost_singleton.mpr ⟨hname, hpackage⟩, by simp, ?_, rfl⟩
              rw [Node.faceAt_cons, sorted.find?_of_mem hmem]
              rfl
            · obtain ⟨rest, houtermost, hshort, hfolder, rfl⟩ := (ih (nodes _ hmem)).mp hp
              refine ⟨name :: rest, (outermost_cons houtermost.ne).mpr ⟨hname, hnot, houtermost⟩,
                Nat.succ_le_succ hshort, ?_, rfl⟩
              rw [Node.faceAt_cons, sorted.find?_of_mem hmem]
              exact hfolder
          · rintro ⟨way, houtermost, hshort, hfolder, rfl⟩
            obtain ⟨name, rest, rfl⟩ := List.exists_cons_of_ne_nil houtermost.ne
            rw [Node.faceAt_cons] at hfolder
            obtain ⟨child, hchild, hfolder⟩ := Option.bind_eq_some_iff.mp hfolder
            have hmem := Table.mem_of_find? hchild
            obtain ⟨others, rfl⟩ : ∃ others, child = .folder others := by
              cases child with
              | folder others => exact ⟨others, rfl⟩
              | _ => cases rest <;> cases hfolder
            refine ⟨name, others, hmem, houtermost.kept name List.mem_cons_self, ?_⟩
            cases rest with
            | nil => exact .inl ⟨houtermost.package, rfl⟩
            | cons next rest =>
                obtain ⟨-, hnot, hrest⟩ := (outermost_cons (List.cons_ne_nil _ _)).mp houtermost
                exact .inr ⟨hnot, (ih (nodes _ hmem)).mpr
                  ⟨next :: rest, hrest, Nat.le_of_succ_le_succ hshort, hfolder, rfl⟩⟩
      | file content =>
          refine ⟨fun h => (nomatch h), fun ⟨names, houtermost, _, hfolder, _⟩ => ?_⟩
          obtain ⟨name, rest, rfl⟩ := List.exists_cons_of_ne_nil houtermost.ne
          cases hfolder
      | link target =>
          refine ⟨fun h => (nomatch h), fun ⟨names, houtermost, _, hfolder, _⟩ => ?_⟩
          obtain ⟨name, rest, rfl⟩ := List.exists_cons_of_ne_nil houtermost.ne
          cases hfolder

/-! ## Packages below a root -/

section Root

variable {root p : Path}

/-- A package that is found below a root, by the names on the way to it. -/
structure Found (d : Disk) (root : Path) (place names : List String) : Prop
    extends Outermost d root names where
  short : names.length ≤ maxDepth
  folder : d.faceAt (place ++ names) = some .folder

/-- A path that can be followed can be followed up to each of its folders. -/
theorem exists_locate_of_descend {names : List String} (hnames : ∀ name ∈ names, IsName name)
    (hne : p.text ≠ "") (hslash : p.endsInSlash = false) {found : List String}
    (h : d.locate (p.descend names) = .ok found) : ∃ front, d.locate p = .ok front := by
  induction names generalizing p with
  | nil => exact ⟨found, h⟩
  | cons name rest ih =>
      obtain ⟨hname, hrest⟩ := List.forall_mem_cons.mp hnames
      have hrelative := Path.isAbsolute_of_not_mem hname.no_slash
      have hnext : (p.join name).text ≠ "" := by
        rcases Path.join_cases hrelative p with ⟨hempty, -⟩ | ⟨-, -, hjoin⟩ | ⟨-, hjoin⟩
        · exact absurd hempty hne
        · simp [hjoin, hne]
        · simp [hjoin, hne]
      obtain ⟨front, hfront⟩ := ih hrest hnext (hname.endsInSlash_join p) h
      exact Disk.exists_locate_of_join hrelative hne hslash hfront

/-- The packages below a root, by the names on the way to them. -/
theorem mem_packages (hproper : d.Proper) (hroot : root.Plain place)
    (hslash : root.endsInSlash = false) (hstraight : d.Straight place) :
    p ∈ packages d root ↔ ∃ names, Found d root place names ∧ p = root.descend names := by
  rw [packages_eq, Disk.find?]
  constructor
  · intro h
    cases hnode : d.nodeAt root with
    | error e =>
        rw [hnode] at h
        cases h
    | ok node =>
        rw [hnode] at h
        have hget := ((Disk.nodeAt_eq_ok_iff hroot hslash hstraight).mp hnode).2.2
        obtain ⟨names, houtermost, hshort, hfolder, rfl⟩ :=
          (mem_packagesIn (hproper.get? hget)).mp h
        exact ⟨names, ⟨houtermost, hshort, (Disk.faceAt_append hget names).trans hfolder⟩, rfl⟩
  · rintro ⟨names, ⟨houtermost, hshort, hfolder⟩, rfl⟩
    obtain ⟨entries, hentries⟩ := Disk.faceAt_eq_some_folder.mp hfolder
    have hnames : ∀ name ∈ names, IsName name := fun name hname =>
      hproper.isName (by rw [hentries]; rfl) name (List.mem_append_right _ hname)
    -- The root is found, since the manifest is.
    obtain ⟨m, hm⟩ := isPackage_iff.mp houtermost.package
    obtain ⟨text, hread, -⟩ := Manifest.ofFolder_eq_ok.mp hm
    obtain ⟨found, hlocate, -⟩ := Disk.nodeAt_eq_ok.mp (Disk.readText_eq_ok.mp hread)
    have hjoin : (root.descend names).join Manifest.fileName =
        root.descend (names ++ [Manifest.fileName]) := by
      simp [Path.descend]
    rw [hjoin] at hlocate
    obtain ⟨front, hfront⟩ := exists_locate_of_descend (List.forall_mem_append.mpr
      ⟨hnames, List.forall_mem_singleton.mpr Manifest.isName_fileName⟩) hroot.text_ne_empty hslash
      hlocate
    obtain ⟨hpath, hchecks, -, hexists⟩ :=
      (Disk.locate_eq_ok_iff hroot hslash hstraight).mp hfront
    obtain ⟨node, hget⟩ := Option.isSome_iff_exists.mp (Option.isSome_map.symm.trans hexists)
    have hnode := (Disk.nodeAt_eq_ok_iff hroot hslash hstraight).mpr ⟨hpath, hchecks, hget⟩
    rw [hnode]
    exact (mem_packagesIn (hproper.get? hget)).mpr
      ⟨names, houtermost, hshort, (Disk.faceAt_append hget names).symm.trans hfolder, rfl⟩

/-- Whatever is found below a root begins with the root's path. -/
theorem startsWith_of_mem_packages (hproper : d.Proper) (h : p ∈ packages d root) :
    p.startsWith root = true := by
  rw [packages_eq, Disk.find?] at h
  cases hnode : d.nodeAt root with
  | error e =>
      rw [hnode] at h
      cases h
  | ok node =>
      rw [hnode] at h
      obtain ⟨found, -, hget⟩ := Disk.nodeAt_eq_ok.mp hnode
      have hnodeProper := hproper.get? hget
      obtain ⟨names, -, -, hfolder, rfl⟩ := (mem_packagesIn hnodeProper).mp h
      obtain ⟨entries, hentries⟩ := Node.faceAt_eq_some_folder.mp hfolder
      exact Path.startsWith_descend (hnodeProper.isName (by rw [hentries]; rfl))

/-- A package stays one where nothing changes. -/
theorem isPackage_congr {own : List String} (hp : p.Plain own)
    (hstraight : d.Straight (own ++ [Manifest.fileName]))
    (hstraight' : d'.Straight (own ++ [Manifest.fileName]))
    (hsame : d'.faceAt (own ++ [Manifest.fileName]) = d.faceAt (own ++ [Manifest.fileName])) :
    isPackage d' p = isPackage d p := by
  rw [Bool.eq_iff_iff, isPackage_iff, isPackage_iff]
  exact exists_congr fun m => Manifest.ofFolder_congr hp hstraight hstraight' hsame

theorem Found.isName {names : List String} (h : Found d root place names) (hproper : d.Proper) :
    ∀ name ∈ names, IsName name := by
  obtain ⟨entries, hentries⟩ := Disk.faceAt_eq_some_folder.mp h.folder
  exact fun name hname =>
    hproper.isName (by rw [hentries]; rfl) name (List.mem_append_right _ hname)

/-- What is found behind a first name depends on what is below it only. -/
theorem Found.congr (hroot : root.Plain place) (hproper : d.Proper) (hsettled : d.Settled place)
    (hsettled' : d'.Settled place) {first : String} {rest : List String}
    (hsame : ∀ more, d'.faceAt (place ++ first :: more) = d.faceAt (place ++ first :: more))
    (h : Found d root place (first :: rest)) : Found d' root place (first :: rest) := by
  have hnames := h.isName hproper
  have hpackage (front : List String) (hne : front ≠ []) (hfront : front <+: first :: rest) :
      isPackage d' (root.descend front) = isPackage d (root.descend front) := by
    obtain ⟨name, more, rfl⟩ := List.exists_cons_of_ne_nil hne
    obtain ⟨rfl, hmore⟩ := List.cons_prefix_cons.mp hfront
    have hfolder : d.faceAt (place ++ name :: more) = some .folder :=
      Disk.faceAt_folder_above h.folder ((List.prefix_append_right_inj place).mpr hfront)
    have hplain := hroot.descend fun name hname => hnames name (hfront.mem hname)
    have hmanifest := hsame (more ++ [Manifest.fileName])
    rw [← List.cons_append, ← List.append_assoc] at hmanifest
    exact isPackage_congr hplain (hsettled.straight_manifest hfolder)
      (hsettled'.straight_manifest ((hsame more).trans hfolder)) hmanifest
  exact {
    ne := h.ne
    kept := h.kept
    package := (hpackage _ h.ne (List.prefix_refl _)).trans h.package
    first := fun front hne hfront hnot =>
      (hpackage front hne hfront).trans (h.first front hne hfront hnot)
    short := h.short
    folder := (hsame rest).trans h.folder }

end Root

end Discovery

/-! ## What a host takes -/

section Sources

variable {χ : Type}

/-- The folder and the manifest of a loaded extension. -/
def Host.source? (h : Host) (id : String) : Option (Path × Manifest) :=
  (h.find? id).map fun e => (e.path, e.manifest)

/-- The folder with its manifest, if that is the manifest of an extension. -/
def Manifest.offered (disk : Disk) (id : String) (path : Path) : Option (Path × Manifest) :=
  match Manifest.ofFolder disk path with
  | .ok m => if m.id = id then some (path, m) else none
  | .error _ => none

theorem Manifest.offered_eq_some {id : String} {path p : Path} {m : Manifest} :
    Manifest.offered d id path = some (p, m) ↔
      p = path ∧ Manifest.ofFolder d path = .ok m ∧ m.id = id := by
  rw [Manifest.offered]
  cases Manifest.ofFolder d path with
  | error e => simp
  | ok own =>
      by_cases h : own.id = id
      · simp only [h, if_true, Option.some.injEq, Prod.mk.injEq, Except.ok.injEq]
        constructor
        · rintro ⟨rfl, rfl⟩
          exact ⟨rfl, rfl, h⟩
        · rintro ⟨rfl, rfl, -⟩
          exact ⟨rfl, rfl⟩
      · simp only [h, if_false, Except.ok.injEq]
        constructor
        · rintro ⟨⟩
        · rintro ⟨-, rfl, hid⟩
          exact absurd hid h

/-- An extension is loaded unless there is one of its name. -/
theorem Host.source?_loaded (h : Host) (path : Path) (id : String) :
    (h.loaded d path).source? id = (h.source? id).or (Manifest.offered d id path) := by
  rw [Host.loaded, Manifest.offered]
  cases Manifest.ofFolder d path with
  | error e => simp
  | ok m =>
      by_cases hid : m.id = id
      · subst hid
        cases hfind : h.find? m.id with
        | some e => simp [Host.source?, hfind]
        | none => simp [Host.source?, hfind, Host.find?_add]
      · simp only [hid, if_false, Option.or_none]
        split
        · rfl
        · rw [Host.source?, Host.find?_add, if_neg (Ne.symm hid), Host.source?]

/-- Of several folders the first one counts. -/
theorem Host.source?_foldl_loaded (h : Host) (paths : List Path) (id : String) :
    (paths.foldl (fun h path => h.loaded d path) h).source? id =
      (h.source? id).or (paths.findSome? (Manifest.offered d id)) := by
  induction paths generalizing h with
  | nil => simp
  | cons path rest ih =>
      rw [List.foldl_cons, ih, Host.source?_loaded, List.findSome?_cons, Option.or_assoc]
      cases Manifest.offered d id path <;> simp

@[simp] theorem Host.layout_foldl_loaded (h : Host) (paths : List Path) :
    (paths.foldl (fun h path => h.loaded d path) h).layout = h.layout := by
  induction paths generalizing h with
  | nil => rfl
  | cons path rest ih => rw [List.foldl_cons, ih, Host.layout_loaded]

/-- The folders that have a readable manifest, with their manifests. -/
def Manifest.ofFolders (disk : Disk) (paths : List Path) : List (Path × Manifest) :=
  paths.filterMap fun path => (ofFolder disk path).toOption.map fun m => (path, m)

theorem Manifest.ofFolders_cons (disk : Disk) (path : Path) (rest : List Path) :
    ofFolders disk (path :: rest) = match ofFolder disk path with
      | .ok m => (path, m) :: ofFolders disk rest
      | .error _ => ofFolders disk rest := by
  rw [ofFolders, List.filterMap_cons]
  cases ofFolder disk path <;> rfl

theorem Manifest.ofFolders_append (disk : Disk) (paths rest : List Path) :
    ofFolders disk (paths ++ rest) = ofFolders disk paths ++ ofFolders disk rest :=
  List.filterMap_append

/-- The host behind a discovery. -/
def Host.discovered (disk : Disk) (h : Host) : Host :=
  (Discovery.packages disk h.layout.userExtensions ++
    Discovery.packages disk h.layout.bundledExtensions).foldl
      (fun h path => h.loaded disk path) h

namespace World

theorem loadAll_alone_loaded (paths : List Path) (w : World χ) : (loadAll paths).alone w =
    some ((Manifest.ofFolders w.disk paths).map fun copy => copy.2.id, paths.foldl loaded w) := by
  have hmap : ∃ results, (Flow.mapEach paths load).alone w = some (results, paths.foldl loaded w) ∧
      results.filterMap (fun result => result.toOption.map Descriptor.id) =
        (Manifest.ofFolders w.disk paths).map fun copy => copy.2.id := by
    induction paths generalizing w with
    | nil => exact ⟨[], rfl, rfl⟩
    | cons path rest ih =>
        obtain ⟨result, hload, -, hid⟩ := load_alone_loaded path w
        obtain ⟨results, hrest, hids⟩ := ih (w.loaded path)
        refine ⟨result :: results, ?_, ?_⟩
        · rw [Flow.mapEach, Flow.alone_bind, hload, Option.bind_some, Flow.alone_bind, hrest]
          rfl
        · rw [disk_loaded] at hids
          rw [List.filterMap_cons, hid, hids, Manifest.ofFolders_cons]
          cases Manifest.ofFolder w.disk path <;> rfl
  obtain ⟨results, hmap, hids⟩ := hmap
  rw [loadAll, Flow.bind_eq, Flow.alone_bind, hmap, ← hids]
  rfl

@[simp] theorem disk_foldl_loaded (w : World χ) (paths : List Path) :
    (paths.foldl loaded w).disk = w.disk := by
  induction paths generalizing w with
  | nil => rfl
  | cons path rest ih => exact (ih _).trans (disk_loaded w path)

theorem host_foldl_loaded (w : World χ) (paths : List Path) :
    (paths.foldl loaded w).host = paths.foldl (fun h path => h.loaded w.disk path) w.host := by
  induction paths generalizing w with
  | nil => rfl
  | cons path rest ih => rw [List.foldl_cons, ih, disk_loaded, host_loaded, List.foldl_cons]

/-- A discovery loads what is found below the user's root, and then what came with the
application. -/
theorem discover_alone_loaded (w : World χ) :
    let found := Discovery.packages w.disk w.host.layout.userExtensions ++
      Discovery.packages w.disk w.host.layout.bundledExtensions
    discover.alone w = some ((Manifest.ofFolders w.disk found).map fun copy => copy.2.id,
      found.foldl loaded w) := by
  have hhost (paths : List Path) :
      (paths.foldl loaded w).host.layout.bundledExtensions = w.host.layout.bundledExtensions := by
    rw [host_foldl_loaded, Host.layout_foldl_loaded]
  simp only [discover, Flow.bind_eq, Flow.alone_read_bind]
  rw [Flow.alone_bind, loadAll_alone_loaded, Option.bind_some, Flow.alone_read_bind,
    Flow.alone_bind, loadAll_alone_loaded, Option.bind_some, disk_foldl_loaded, hhost,
    List.foldl_append, Manifest.ofFolders_append, List.map_append]
  rfl

/-- A discovery comes to an end, and changes nothing but what is loaded. -/
theorem discover_alone (w : World χ) : ∃ ids w', discover.alone w = some (ids, w') ∧
    w'.disk = w.disk ∧ w'.host = w.host.discovered w.disk :=
  ⟨_, _, discover_alone_loaded w, disk_foldl_loaded w _, host_foldl_loaded w _⟩

end World

end Sources

end EditorHost
