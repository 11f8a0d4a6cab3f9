import EditorHost.Proofs.Disk.Copying
import EditorHost.Proofs.Disk.Remaking
import EditorHost.Proofs.Extension.Installing

/-!
# Replacing what stands at a place

Where a folder is to be put, a link may stand.  A link that leads somewhere is removed, and what it
leads to stays.  One that leads nowhere is not found, so that it is in the way of the new folder,
and nothing is done.  Either way no more changes than the place itself.

## Contents

* `Disk.disk_createFolders`: nothing changes where something stands already.
* `Disk.disk_copyTree_of_hidden`: nothing is copied to where something stands that is not found.
* `World.replaceTree_confined`: no link needs to be kept away from what is replaced.
* `World.replaceTree_eq_ok`: nothing is left of what is replaced.
-/

namespace EditorHost

namespace Disk

open EditorHost.Path (IsName)

variable {d d' : Disk} {p source target : Path} {place : List String}

/-! ## Folders where something stands -/

theorem createFolder_of_isSome {last : String} (hp : p.Plain (place ++ [last]))
    (hthere : (d.faceAt (place ++ [last])).isSome = true) :
    ∃ e, d.perform (createFolder p) = (.error e, d) := by
  rcases perform_createFolder d p with herror | ⟨s, hspot, hnew, -⟩
  · exact herror
  · have hfolder := straight_of_folder (faceAt_folder_of_isSome hthere)
    obtain ⟨rfl, rfl, hentries⟩ := spot?_plain hp hfolder hspot
    rw [faceAt_concat hentries, hnew] at hthere
    cases hthere

/-- Where something stands, all folders above it do, and no folder is made. -/
theorem disk_createFolders (hp : p.Plain place) (hthere : (d.faceAt place).isSome = true) :
    (d.perform (createFolders p)).2 = d := by
  refine createFolders_induction (P := (· = d)) (fun q hq d₁ hsame => ?_) rfl
  obtain ⟨above, last, habove, hplain⟩ := hp.of_mem_ancestors hq
  subst hsame
  obtain ⟨e, herror⟩ := createFolder_of_isSome hplain (isSome_faceAt_above habove hthere)
  rw [herror]

/-- Nor does a file go to a path that asks for a folder. -/
theorem disk_copyFile_join_empty (htarget : target.Plain place) (source : Path) :
    (d.perform (copyFile source (target.join ""))).2 = d := by
  rw [copyFile, perform_bind, perform_look]
  cases d.nodeAt source with
  | error e => rfl
  | ok node =>
      cases node with
      | file content =>
          dsimp only
          rcases perform_writeFile d (target.join "") content with ⟨e, herror⟩ | ⟨s, -, hslash, -⟩
          · rw [herror]
          · rw [Path.endsInSlash_join_empty htarget.text_ne_empty] at hslash
            cases hslash
      | _ => rfl

/-- Nothing is copied to a place where something stands that is not found, such as a link that leads
nowhere. -/
theorem disk_copyTree_of_hidden {last : String} (htarget : target.Plain (place ++ [last]))
    (source : Path) (hthere : (d.faceAt (place ++ [last])).isSome = true)
    (hnone : d.checkExists target = .ok false) : (d.perform (copyTree source target)).2 = d := by
  have hfolders : ∃ e, d.perform (createFolders (target.join "")) = (.error e, d) := by
    have hsame := disk_createFolders htarget.join_empty hthere
    cases hmade : d.perform (createFolders (target.join "")) with
    | mk result d₁ =>
        rw [hmade] at hsame
        obtain rfl : d₁ = d := hsame
        cases result with
        | error e => exact ⟨e, rfl⟩
        | ok _ =>
            have hstraight := straight_of_folder (faceAt_folder_of_isSome hthere)
            have hleads := leads_of_plain hstraight htarget
            rw [faceAt_none_of_createFolders ((Confined.refl _ d₁).leads hleads)
              (htarget.names last (by simp)) htarget.parts hnone hmade] at hthere
            cases hthere
  obtain ⟨e, hfailed⟩ := hfolders
  rw [copyTree, perform_bind, perform_look]
  cases d.entryAt source with
  | error e => rfl
  | ok node =>
      cases node with
      | folder entries =>
          dsimp only
          rw [perform_bind, hfailed]
      | file content => exact disk_copyFile_join_empty htarget source
      | link goal => exact disk_copyFile_join_empty htarget source

end Disk

namespace World

variable {χ : Type} {w w' : World χ} {source target : Path} {place : List String} {last : String}

/-- Whatever stands at a place that is replaced, no more changes than the place. -/
theorem replaceTree_confined (htarget : target.Plain (place ++ [last]))
    (hslash : target.endsInSlash = false) (hproper : w.disk.Proper)
    (hstraight : w.disk.Straight place) {result : Except Fault Unit}
    (h : (replaceTree source target).alone w = some (result, w')) :
    Disk.Confined (place ++ [last]) w.disk w'.disk := by
  obtain ⟨cleared, w₁, hclear, h⟩ := Flow.alone_bind_eq_some h
  -- Nothing is left at the place then, or nothing is copied.
  obtain ⟨hdisk, hcopy⟩ : Disk.Confined (place ++ [last]) w.disk w₁.disk ∧
      (cleared = .ok () → Disk.Confined (place ++ [last]) w₁.disk
        (w₁.disk.perform (Disk.copyTree source target)).2) := by
    have hbareCopy (d : Disk) (hd : Disk.Confined (place ++ [last]) w.disk d)
        (hbare : d.Bare (place ++ [last])) :
        Disk.Confined (place ++ [last]) d (d.perform (Disk.copyTree source target)).2 := by
      have hway := (hd.straight hstraight).concat fun other hlink => by
        cases hbare.folder _ hlink
      exact Disk.stays_copyTree htarget source d (hd.proper hproper) (hbare.isOpen hway)
    obtain ⟨-, ⟨hsame, hnone⟩ | hcleared⟩ :=
      clear_leads (Disk.leads_of_plain hstraight htarget) htarget.parts
        (htarget.names last (by simp)) hslash hclear
    · rw [hsame]
      refine ⟨.refl _ _, fun hok => ?_⟩
      cases hface : w.disk.faceAt (place ++ [last]) with
      | none => exact hbareCopy w.disk (.refl _ _) (Disk.bare_of_none hface)
      | some face =>
          rw [Disk.disk_copyTree_of_hidden htarget source (by rw [hface]; rfl) (hnone hok)]
          exact .refl _ _
    · exact ⟨hcleared.confined, fun _ => hbareCopy _ hcleared.confined hcleared.bare⟩
  cases cleared with
  | error fault =>
      obtain ⟨-, rfl⟩ := Prod.mk.inj (Option.some.inj h)
      exact hdisk
  | ok _ =>
      simp only [Flow.bind_eq, Flow.alone_pause_bind, Flow.alone_read_bind] at h
      split at h
      · obtain ⟨-, rfl⟩ := Prod.mk.inj (Option.some.inj h)
        exact hdisk
      · obtain ⟨-, rfl⟩ := Prod.mk.inj (Option.some.inj ((onDisk_alone _ w₁).symm.trans h))
        exact hdisk.trans (hcopy rfl)

/-- Where a folder is replaced, nothing was left of the old one when the new one was copied. -/
theorem replaceTree_eq_ok {parts : List String} {name : String}
    (hleads : (w.disk.without (place ++ [name])).Leads (Disk.startOf target w.disk.here) parts
      place) (hparts : target.parts = parts ++ [name]) (hname : Path.IsName name)
    (hslash : target.endsInSlash = false)
    (h : (replaceTree source target).alone w = some (.ok (), w')) :
    w' = { w with disk := w'.disk } ∧ ∃ d, Disk.Cleared (place ++ [name]) w.disk d ∧
      d.perform (Disk.copyTree source target) = (.ok (), w'.disk) := by
  obtain ⟨cleared, w₁, hclear, h⟩ := Flow.alone_bind_eq_some h
  obtain ⟨hw₁, hcleared⟩ := clear_leads hleads hparts hname hslash hclear
  cases cleared with
  | error fault => cases h
  | ok _ =>
      simp only [Flow.bind_eq, Flow.alone_pause_bind, Flow.alone_read_bind] at h
      split at h
      · cases h
      next entry hentry =>
        obtain ⟨hresult, rfl⟩ := Prod.mk.inj (Option.some.inj ((onDisk_alone _ w₁).symm.trans h))
        have hcopy : w₁.disk.perform (Disk.copyTree source target) =
            (.ok (), (w₁.disk.perform (Disk.copyTree source target)).2) := by
          refine Prod.ext ?_ rfl
          cases hcopied : (w₁.disk.perform (Disk.copyTree source target)).1 with
          | ok _ => rfl
          | error e =>
              rw [hcopied] at hresult
              cases hresult
        refine ⟨by rw [hw₁], w₁.disk, ?_, hcopy⟩
        rcases hcleared with ⟨hsame, hnone⟩ | hcleared
        · -- Nothing was found, and a folder could be made there.
          have htext : target.text ≠ "" := Path.text_ne_empty_of_parts (by simp [hparts])
          obtain ⟨entries, d, -, hcreate, -⟩ := Disk.copyTree_eq_ok htext hcopy
          rw [hsame] at hcreate ⊢
          have hfree := Disk.faceAt_none_of_createFolders
            ((Disk.Confined.refl _ w.disk).leads hleads) hname hparts (hnone rfl) hcreate
          exact ⟨.refl _ _, Disk.bare_of_none hfree, fun _ _ hface => hface⟩
        · exact hcleared

end World

end EditorHost
