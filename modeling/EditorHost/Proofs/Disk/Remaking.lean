import EditorHost.Proofs.Disk.Saving

/-!
# Folders that are made again

Folders that have been made, with all that were missing above them, can be made again as long as
nothing is taken away: they are found, wherever links lead, and nothing changes.

## Contents

* `Disk.isFolder_of_createFolders`: what has been made is a folder.
* `Disk.createFolders_again`, and `Disk.forM_createFolders_again` for several.
-/

namespace EditorHost.Disk

variable {d d' d'' : Disk} {p : Path}

theorem isFolder_iff : d.isFolder p = true ↔
    ∃ place, d.locate p = .ok place ∧ d.faceAt place = some .folder := by
  rw [isFolder, find?]
  simp only [faceAt_eq_some_folder]
  constructor
  · intro h
    split at h
    next entries hfind =>
      have hnode : d.nodeAt p = .ok (.folder entries) := by
        cases hnode : d.nodeAt p <;> rw [hnode] at hfind <;> cases hfind
        rfl
      obtain ⟨place, hlocate, hget⟩ := nodeAt_eq_ok.mp hnode
      exact ⟨place, hlocate, entries, hget⟩
    · cases h
  · rintro ⟨place, hlocate, entries, hget⟩
    rw [nodeAt_eq_ok.mpr ⟨place, hlocate, hget⟩]
    rfl

/-- A folder is still one when more are made. -/
theorem Grows.isFolder (h : Grows d d') (hfolder : d.isFolder p = true) :
    d'.isFolder p = true := by
  obtain ⟨place, hlocate, hface⟩ := isFolder_iff.mp hfolder
  exact isFolder_iff.mpr ⟨place, locate_mono h.here h.faceAt hlocate, h.faceAt place _ hface⟩

/-! ## A folder that is there -/

theorem createFolder_of_isFolder (h : d.isFolder p = true) :
    d.perform (createFolder p) = (.error .alreadyThere, d) := by
  obtain ⟨place, hlocate, hface⟩ := isFolder_iff.mp h
  obtain ⟨hpath, -⟩ := locate_eq_ok.mp hlocate
  have hfollow := follow_of_locate hlocate
  rw [createFolder, perform_bind, perform_look]
  cases hlast : p.parts.getLast? with
  | none => rw [spot?_eq_ok_none.mpr ⟨hpath, List.getLast?_eq_none_iff.mp hlast⟩]; rfl
  | some last =>
      obtain ⟨front, hparts⟩ := List.getLast?_eq_some_iff.mp hlast
      rw [hparts] at hfollow
      obtain ⟨between, hfront, fewer, hend⟩ := follow_append hfollow
      obtain ⟨jump, hjump⟩ := exists_follow_eq_walk d fewer
      rw [hjump] at hend
      obtain ⟨hbetween, hstep⟩ := walk_cons_eq_ok.mp hend
      obtain ⟨entries, hentries⟩ := faceAt_eq_some_folder.mp hbetween
      have hspot : d.spot? p = .ok (some ⟨between, entries, last⟩) :=
        spot?_eq_ok_some.mpr ⟨hpath, hlast, by rwa [hparts, List.dropLast_concat], hentries⟩
      rw [hspot]
      rcases hstep with ⟨rfl, -⟩ | ⟨rfl, -⟩ | ⟨hdot, hdots, hcheck, face, hseen, -⟩
      · rfl
      · rfl
      · rw [faceAt_concat hentries] at hseen
        have hhas : (Table.has entries last) = true := by
          rw [Table.has, ← Option.isSome_map, hseen]
          rfl
        have hname : (⟨between, entries, last⟩ : Spot).isName = true := by
          simp [Spot.isName, hdot, hdots]
        simp [hname, perform_bind, perform_look, hcheck, hhas]

theorem ensureFolder_of_isFolder (h : d.isFolder p = true) :
    d.perform (ensureFolder p) = (.ok (), d) := by
  have hget : d.perform (get : Action Disk) = (.ok d, d) := rfl
  rw [ensureFolder, perform_tryCatch, createFolder_of_isFolder h]
  dsimp only
  rw [perform_bind, hget]
  simp [h]

/-! ## A folder that has been made -/

theorem isFolder_of_follow (hpath : checkPath p = .ok ()) {place : List String}
    (hfollow : d.follow maxLinks (startOf p d.here) p.parts = .ok place)
    (hface : d.faceAt place = some .folder) : d.isFolder p = true :=
  isFolder_iff.mpr ⟨place, locate_of_follow hpath hfollow hface, hface⟩

theorem isFolder_of_createFolder (h : d.perform (createFolder p) = (.ok (), d')) :
    d'.isFolder p = true := by
  have hgrows := makesFolders_createFolder p d
  rw [h] at hgrows
  rcases perform_createFolder d p with ⟨e, herror⟩ | ⟨s, hspot, -, hdone⟩
  · cases herror.symm.trans h
  obtain ⟨hname, hcheck⟩ := name_of_createFolder hspot h
  obtain ⟨hdot, hdots⟩ : s.last ≠ "." ∧ s.last ≠ ".." := by simpa [Spot.isName] using hname
  obtain ⟨hpath, hlast, hfolder, hentries⟩ := spot?_eq_ok_some.mp hspot
  obtain ⟨front, hparts⟩ := List.getLast?_eq_some_iff.mp hlast
  rw [hparts, List.dropLast_concat] at hfolder
  have hnew : d'.faceAt (s.folder ++ [s.last]) = some .folder := by
    obtain ⟨-, rfl⟩ := Prod.mk.inj (hdone.symm.trans h)
    exact faceAt_put_self hentries []
  have habove : d'.faceAt s.folder = some .folder :=
    hgrows.faceAt _ _ (faceAt_eq_some_folder.mpr ⟨_, hentries⟩)
  have hfollow : d'.follow maxLinks (startOf p d'.here) p.parts = .ok (s.folder ++ [s.last]) := by
    rw [hparts, hgrows.here]
    refine follow_behind (follow_mono hgrows.faceAt hfolder) fun jump => ?_
    exact walk_cons_eq_ok.mpr
      ⟨habove, .inr (.inr ⟨hdot, hdots, hcheck, .folder, hnew, rfl⟩)⟩
  exact isFolder_of_follow hpath hfollow hnew

theorem isFolder_of_ensureFolder (h : d.perform (ensureFolder p) = (.ok (), d')) :
    d'.isFolder p = true := by
  rw [ensureFolder, perform_tryCatch] at h
  cases hmade : d.perform (createFolder p) with
  | mk result d₁ =>
      rw [hmade] at h
      cases result with
      | ok _ =>
          obtain ⟨-, rfl⟩ := Prod.mk.inj h
          exact isFolder_of_createFolder hmade
      | error e =>
          have hget : d₁.perform (get : Action Disk) = (.ok d₁, d₁) := rfl
          dsimp only at h
          rw [perform_bind, hget] at h
          dsimp only at h
          split at h
          next hthere =>
            obtain ⟨-, rfl⟩ := Prod.mk.inj h
            exact hthere.2
          · cases h

/-- What is still to be made when a folder could be made lies in front of what was. -/
theorem suffix_of_climb {outer inner found : List Path}
    (h : d.perform (climb outer inner) = (.ok found, d')) : inner <:+ found := by
  induction outer generalizing inner d with
  | nil =>
      cases h
      exact List.suffix_refl _
  | cons q outer ih =>
      rw [climb, perform_tryCatch] at h
      cases hfirst : d.perform (do ensureFolder q; return inner) with
      | mk result d₁ =>
          rw [hfirst] at h
          cases result with
          | ok value =>
              obtain ⟨_, d₂, -, hvalue⟩ := perform_bind_eq_ok hfirst
              cases hvalue
              cases h
              exact List.suffix_refl _
          | error e =>
              cases e with
              | notFound => exact (List.suffix_cons q inner).trans (ih h)
              | _ => cases h

theorem isFolder_of_forM {folders : List Path} (hmem : p ∈ folders)
    (h : d.perform (folders.forM ensureFolder) = (.ok (), d')) : d'.isFolder p = true := by
  induction folders generalizing d with
  | nil => cases hmem
  | cons q folders ih =>
      obtain ⟨_, d₁, hfirst, hrest⟩ := perform_bind_eq_ok h
      rcases List.mem_cons.mp hmem with rfl | hmem
      · have hmakes : MakesFolders (folders.forM ensureFolder) := .forM makesFolders_ensureFolder
        have hgrows := hmakes d₁
        rw [hrest] at hgrows
        exact hgrows.isFolder (isFolder_of_ensureFolder hfirst)
      · exact ih hmem hrest

/-! ## Folders with those above them -/

theorem ancestors_cases (p : Path) : p.ancestors = [] ∨ ∃ outer, p.ancestors = p :: outer := by
  rw [Path.ancestors]
  cases p.parts.length with
  | zero => exact .inl rfl
  | succ n =>
      rw [Path.upwards]
      split
      · exact .inr ⟨_, rfl⟩
      · exact .inl rfl

/-- What has been made is a folder, unless there was nothing to make. -/
theorem isFolder_of_createFolders (hne : p.ancestors ≠ [])
    (h : d.perform (createFolders p) = (.ok (), d')) : d'.isFolder p = true := by
  obtain ⟨outer, houter⟩ := (ancestors_cases p).resolve_left hne
  obtain ⟨found, d₁, hclimb, hrest⟩ := perform_bind_eq_ok h
  rw [houter, climb, perform_tryCatch] at hclimb
  cases hfirst : d.perform (do ensureFolder p; return []) with
  | mk result d₂ =>
      rw [hfirst] at hclimb
      cases result with
      | ok value =>
          obtain ⟨_, d₃, hensure, hvalue⟩ := perform_bind_eq_ok hfirst
          cases hvalue
          cases hclimb
          cases hrest
          exact isFolder_of_ensureFolder hensure
      | error e =>
          cases e with
          | notFound =>
              have hmem : p ∈ found := (suffix_of_climb hclimb).subset List.mem_cons_self
              exact isFolder_of_forM hmem hrest
          | _ => cases hclimb

/-- A folder that has been made, with those on the way to it, is at its place. -/
theorem faceAt_createFolders {parts place : List String} {name : String}
    (hleads : d.Leads (startOf p d.here) parts place) (hname : Path.IsName name)
    (hparts : p.parts = parts ++ [name])
    (hfree : ∀ target, d.faceAt (place ++ [name]) ≠ some (.link target))
    (h : d.perform (createFolders p) = (.ok (), d')) :
    d'.faceAt (place ++ [name]) = some .folder := by
  have hne : p.ancestors ≠ [] := Path.ancestors_ne_nil hname (by simp [hparts])
  obtain ⟨found, hlocate, hface⟩ := isFolder_iff.mp (isFolder_of_createFolders hne h)
  have hpaves := paves_createFolders hleads hname hparts
  rw [h] at hpaves
  have hfollow := follow_of_locate hlocate
  rw [hpaves.here, hparts] at hfollow
  rwa [← (hpaves.leads (hleads.name hname hfree)).eq_of_follow hfollow]

/-- A folder that is made where nothing is found is made where nothing is.  A link that leads
nowhere would not be found either, but no folder could be made there. -/
theorem faceAt_none_of_createFolders {parts place : List String} {name : String}
    (hleads : d.Leads (startOf p d.here) parts place) (hname : Path.IsName name)
    (hparts : p.parts = parts ++ [name])
    (hexists : d.checkExists p = .ok false)
    (h : d.perform (createFolders (p.join "")) = (.ok (), d')) :
    d.faceAt (place ++ [name]) = none := by
  by_contra hthere
  have hempty : (⟨""⟩ : Path).isAbsolute = false := rfl
  have hstart : startOf (p.join "") d.here = startOf p d.here := by
    simp only [startOf, Path.isAbsolute_join hempty]
  have hjoin : (p.join "").parts = parts ++ [name] := by
    rw [Path.parts_join hempty, hparts]
    exact List.append_nil _
  -- All folders on the way are there, so that none is new.
  have hpaves := paves_createFolders (hstart ▸ hleads) hname hjoin
  rw [h] at hpaves
  have hsame (other : List String) : d'.faceAt other = d.faceAt other := by
    rcases hpaves.faces other, hpaves.way other with ⟨hsame | ⟨hnone, -⟩, hsame' | hway⟩
    · exact hsame
    · exact hsame
    · exact hsame'
    · have hsome := isSome_faceAt_above hway (Option.isSome_iff_ne_none.mpr hthere)
      rw [hnone] at hsome
      cases hsome
  have hne : (p.join "").ancestors ≠ [] := Path.ancestors_ne_nil hname (by simp [hjoin])
  obtain ⟨found, hlocate, hface⟩ := isFolder_iff.mp (isFolder_of_createFolders hne h)
  have htext : p.text ≠ "" := Path.text_ne_empty_of_parts (by simp [hparts])
  have hfollow := follow_of_locate hlocate
  rw [hpaves.here, hstart, hjoin, ← hparts] at hfollow
  have hfolder : d.isFolder p = true :=
    isFolder_of_follow (checkPath_of_join hempty htext (locate_eq_ok.mp hlocate).1)
      (follow_mono (fun other face hface => (hsame other).symm.trans hface) hfollow)
      ((hsame found).symm.trans hface)
  obtain ⟨place, hplace, hplaceFace⟩ := isFolder_iff.mp hfolder
  obtain ⟨entries, hentries⟩ := faceAt_eq_some_folder.mp hplaceFace
  rw [checkExists, nodeAt_eq_ok.mpr ⟨place, hplace, hentries⟩] at hexists
  cases hexists

/-- Folders that have been made can be made again, and then nothing changes. -/
theorem createFolders_again (h : d.perform (createFolders p) = (.ok (), d'))
    (hgrows : Grows d' d'') : d''.perform (createFolders p) = (.ok (), d'') := by
  rcases ancestors_cases p with hnone | ⟨outer, houter⟩
  · rw [createFolders, hnone]
    rfl
  · have hfolder := isFolder_of_createFolders (by rw [houter]; exact List.cons_ne_nil _ _) h
    have hclimb : d''.perform (climb p.ancestors []) = (.ok [], d'') := by
      rw [houter, climb, perform_tryCatch, perform_bind,
        ensureFolder_of_isFolder (hgrows.isFolder hfolder)]
      rfl
    rw [createFolders, perform_bind, hclimb]
    rfl

theorem forM_createFolders_again {folders : List Path}
    (h : d.perform (folders.forM createFolders) = (.ok (), d')) (hgrows : Grows d' d'') :
    d''.perform (folders.forM createFolders) = (.ok (), d'') := by
  induction folders generalizing d with
  | nil => rfl
  | cons p folders ih =>
      obtain ⟨_, d₁, hfirst, hrest⟩ := perform_bind_eq_ok h
      have hmakes : MakesFolders (folders.forM createFolders) := .forM makesFolders_createFolders
      have hbetween := hmakes d₁
      rw [hrest] at hbetween
      have hagain := createFolders_again hfirst (hbetween.trans hgrows)
      have hcons : (p :: folders).forM createFolders =
          (createFolders p >>= fun _ => folders.forM createFolders) := rfl
      rw [hcons, perform_bind, hagain]
      exact ih hrest

end EditorHost.Disk
