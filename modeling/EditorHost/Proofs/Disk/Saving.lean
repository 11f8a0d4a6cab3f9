import EditorHost.Proofs.Disk.Making

/-!
# Saving a file

A file is saved by making the folders on its way and writing it.  Making folders adds folders and
nothing else, wherever their path leads (`Disk.spares_createFolders`).  What has been written can be
read (`Disk.readText_writeText`), and when that fails, what can be read from the file is what could
be read before: the disk is as it was but for new folders.
-/

namespace EditorHost.Disk

variable {d d' d'' : Disk} {place : List String}

/-! ## What stays -/

/-- From one disk to another the file at a place stays as it is, and no links are made. -/
structure Spares (place : List String) (d d' : Disk) : Prop where
  file : ∀ content, d'.faceAt place = some (.file content) ↔ d.faceAt place = some (.file content)
  links : ∀ other target, d'.faceAt other = some (.link target) →
    d.faceAt other = some (.link target)

namespace Spares

theorem refl (place : List String) (d : Disk) : Spares place d d :=
  ⟨fun _ => .rfl, fun _ _ h => h⟩

theorem trans (h : Spares place d d') (h' : Spares place d' d'') : Spares place d d'' :=
  ⟨fun content => (h'.file content).trans (h.file content),
    fun other target hlink => h.links other target (h'.links other target hlink)⟩

theorem straight {other : List String} (h : Spares place d d') (hstraight : d.Straight other) :
    d'.Straight other :=
  fun first hfirst target hlink => hstraight first hfirst target (h.links first target hlink)

/-- The same can be read from the file. -/
theorem readText_eq_ok_iff {p : Path} (h : Spares place d d') (hp : p.Plain place)
    (hslash : p.endsInSlash = false) (hstraight : d.Straight place) (text : String) :
    d'.readText p = .ok text ↔ d.readText p = .ok text := by
  have hface (disk : Disk) : disk.root.get? place = some (.file (.text text)) ↔
      disk.faceAt place = some (.file (.text text)) := by
    rw [faceAt, Node.faceAt]
    cases disk.root.get? place with
    | none => simp
    | some node => cases node <;> simp [Node.face]
  rw [readText_eq_ok, readText_eq_ok, nodeAt_eq_ok_iff hp hslash hstraight,
    nodeAt_eq_ok_iff hp hslash (h.straight hstraight), hface, hface, h.file]

end Spares

/-- When the same can be read, either it is, or nothing can be read. -/
theorem readText_same_or_error {p : Path}
    (h : ∀ text, d'.readText p = .ok text ↔ d.readText p = .ok text) :
    d'.readText p = d.readText p ∨ ∃ e e', d.readText p = .error e ∧ d'.readText p = .error e' := by
  cases hread : d.readText p with
  | ok text => exact .inl ((h text).mpr hread)
  | error e =>
      cases hread' : d'.readText p with
      | ok text => cases hread.symm.trans ((h text).mp hread')
      | error e' => exact .inr ⟨e, e', rfl, rfl⟩

/-- What changes elsewhere, and neither above nor below. -/
theorem Confined.spares {own : List String} (h : Confined own d d') (hbelow : ¬ own <+: place)
    (habove : ¬ place <+: own) : Spares place d d' :=
  ⟨fun content => by rw [h.faceAt_eq hbelow habove], h.links⟩

/-! ## Folders -/

theorem Grows.spares (h : Grows d d') (place : List String) : Spares place d d' where
  file content := by
    rcases h.faces place with hsame | ⟨hnone, hnew⟩
    · rw [hsame]
    · simp [hnone, hnew]
  links := h.links

/-- An action that makes nothing but folders. -/
def MakesFolders {α : Type} (action : Action α) : Prop := ∀ d : Disk, Grows d (d.perform action).2

section Parts

variable {α β : Type}

theorem makesFolders_pure (value : α) : MakesFolders (pure value : Action α) := .refl

theorem MakesFolders.bind {action : Action α} {k : α → Action β} (haction : MakesFolders action)
    (hk : ∀ value, MakesFolders (k value)) : MakesFolders (action >>= k) := by
  intro d
  have hfirst := haction d
  rw [perform_bind]
  cases hresult : d.perform action with
  | mk result d₁ =>
      rw [hresult] at hfirst
      cases result with
      | ok value => exact hfirst.trans (hk value d₁)
      | error e => exact hfirst

theorem MakesFolders.forM {items : List α} {body : α → Action PUnit}
    (h : ∀ item, MakesFolders (body item)) : MakesFolders (items.forM body) := by
  induction items with
  | nil => exact makesFolders_pure _
  | cons item items ih => exact (h item).bind fun _ => ih

end Parts

theorem makesFolders_createFolder (p : Path) : MakesFolders (createFolder p) := by
  intro d
  rcases perform_createFolder d p with ⟨e, herror⟩ | ⟨s, hspot, hnew, hdone⟩
  · rw [herror]
    exact .refl d
  · have hentries := (spot?_eq_ok_some.mp hspot).2.2.2
    rw [hdone]
    refine ⟨rfl, fun other => ?_⟩
    by_cases hbelow : s.folder ++ [s.last] <+: other
    · obtain ⟨rest, rfl⟩ := hbelow
      have hnone : d.faceAt (s.folder ++ [s.last]) = none := by
        rw [faceAt_concat hentries, hnew]
        rfl
      have hmissing : d.faceAt (s.folder ++ [s.last] ++ rest) = none :=
        Node.faceAt_none_append hnone rest
      rw [hmissing, List.append_assoc, List.singleton_append, Spot.place,
        faceAt_put_self hentries rest]
      cases rest with
      | nil => exact .inr ⟨rfl, rfl⟩
      | cons name rest => exact .inl (IsLeaf.folder.faceAt_cons name rest)
    · exact .inl (Node.faceAt_put hentries hbelow)

theorem makesFolders_ensureFolder (p : Path) : MakesFolders (ensureFolder p) := fun d =>
  disk_ensureFolder d p ▸ makesFolders_createFolder p d

theorem makesFolders_createFolders (p : Path) : MakesFolders (createFolders p) := fun d =>
  createFolders_induction (P := Grows d)
    (fun q _ d₁ hgrows => hgrows.trans (makesFolders_createFolder q d₁)) (.refl d)

/-! ## Files -/

section Files

variable {p : Path} {content : Content} {text : String}

theorem checkName_of_writeFile {s : Spot} (hspot : d.spot? p = .ok (some s))
    (h : d.perform (writeFile p content) = (.ok (), d')) : checkName s.last = .ok () := by
  cases hcheck : checkName s.last with
  | ok _ => rfl
  | error e =>
      rw [writeFile, perform_bind, perform_look, hspot] at h
      dsimp only at h
      split at h
      · cases h
      · rw [perform_bind, perform_look, hcheck] at h
        cases h

/-- Where a file has been written, its path is one that a disk takes. -/
theorem checks_of_writeFile (hp : p.Plain place) (hstraight : d.Straight place)
    (h : d.perform (writeFile p content) = (.ok (), d')) :
    checkPath p = .ok () ∧ ∀ name ∈ place, checkName name = .ok () := by
  rcases perform_writeFile d p content with ⟨e, herror⟩ | ⟨s, hspot, -, -⟩
  · rw [herror] at h
    cases h
  obtain ⟨hpath, hlast, hfolder, -⟩ := spot?_eq_ok_some.mp hspot
  have hstart : startOf p d.here = [] := by simp [startOf, hp.isAbsolute]
  rw [hp.parts] at hlast hfolder
  obtain ⟨folder, rfl⟩ := List.getLast?_eq_some_iff.mp hlast
  rw [List.dropLast_concat, hstart] at hfolder
  have hnames := (List.forall_mem_append.mp hp.names).1
  have habove : d.Straight ([] ++ folder) := hstraight.mono (List.prefix_append folder _)
  exact ⟨hpath, List.forall_mem_append.mpr ⟨((follow_eq_ok_iff hnames habove).mp hfolder).2.2,
    List.forall_mem_singleton.mpr (checkName_of_writeFile hspot h)⟩⟩

/-- A file that is written makes no links. -/
theorem links_of_writeFile (hp : p.Plain place) (hstraight : d.Straight place)
    (h : d.perform (writeFile p content) = (.ok (), d')) (other : List String) (target : Path)
    (hlink : d'.faceAt other = some (.link target)) : d.faceAt other = some (.link target) := by
  rcases perform_writeFile_plain hp hstraight content with
    ⟨e, herror⟩ | ⟨folder, last, entries, rfl, hentries, hdone⟩
  · rw [herror] at h
    cases h
  rw [hdone] at h
  obtain ⟨-, rfl⟩ := Prod.mk.inj h
  by_cases hbelow : folder ++ [last] <+: other
  · obtain ⟨rest, rfl⟩ := hbelow
    rw [List.append_assoc, List.singleton_append, faceAt_put_self hentries] at hlink
    exact absurd hlink ((IsLeaf.file content).faceAt_ne_link rest target)
  · exact (Node.faceAt_put hentries hbelow).symm.trans hlink

/-- A text that has been written can be read. -/
theorem readText_writeText (hp : p.Plain place) (hslash : p.endsInSlash = false)
    (hstraight : d.Straight place) (h : d.perform (writeText p text) = (.ok (), d')) :
    d'.readText p = .ok text := by
  obtain ⟨hpath, hnames⟩ := checks_of_writeFile hp hstraight h
  have hstraight' : d'.Straight place := fun other hother target hlink =>
    hstraight other hother target (links_of_writeFile hp hstraight h other target hlink)
  refine readText_eq_ok.mpr ((nodeAt_eq_ok_iff hp hslash hstraight').mpr ⟨hpath, hnames, ?_⟩)
  obtain ⟨node, hnode, hface⟩ := Option.map_eq_some_iff.mp (faceAt_writeFile hp hstraight h)
  cases node <;> cases hface
  exact hnode

/-- A text that cannot be written leaves the disk as it is. -/
theorem eq_of_writeText_error (hp : p.Plain place) (hstraight : d.Straight place) {e : DiskError}
    (h : d.perform (writeText p text) = (.error e, d')) : d' = d := by
  rcases perform_writeFile_plain hp hstraight (.text text) with
    ⟨e', herror⟩ | ⟨folder, last, entries, -, -, hdone⟩
  · exact (Prod.mk.inj (herror.symm.trans h)).2.symm
  · cases hdone.symm.trans h

end Files

end EditorHost.Disk
