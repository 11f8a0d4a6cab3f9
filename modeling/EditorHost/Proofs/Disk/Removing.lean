import EditorHost.Proofs.Disk.Making

/-!
# Removing a folder

A folder that is removed with all that is in it is first emptied; whether the empty one goes as well
may depend on whether its path can still be followed.  A link is removed, and what it leads to
stays.  Neither reaches farther than the place.

## Contents

* `Disk.Cleared`: nothing is left at a place but an empty folder, and nothing is new elsewhere.
* `Disk.removeTree_leads`, wherever the way leads, and `Disk.removeTree_plain` for plain paths.
* `Disk.faceAt_of_removeTree`: only a folder can be removed.
-/

namespace EditorHost.Disk

open EditorHost.Path (IsName)

variable {d d' : Disk} {place : List String}

/-! ## Removing -/

section Removing

variable {p : Path} {folder : List String} {last : String}

/-- An empty folder is removed, or nothing is done. -/
theorem perform_removeFolder (d : Disk) (p : Path) :
    (∃ e, d.perform (removeFolder p) = (.error e, d)) ∨
      ∃ s, d.spot? p = .ok (some s) ∧
        d.perform (removeFolder p) = (.ok (), d.without s.place) := by
  rw [removeFolder, perform_bind, perform_look]
  cases hspot : d.spot? p with
  | error e => exact .inl ⟨e, rfl⟩
  | ok spot =>
      cases spot with
      | none => exact .inl ⟨_, rfl⟩
      | some s =>
          by_cases hdot : s.last = "."
          · exact .inl ⟨.invalidPath, by simp [hdot]⟩
          · by_cases hdots : s.last = ".."
            · exact .inl ⟨.notEmpty, by simp [hdots]⟩
            · match hfind : s.entries.find? s.last with
              | some (.folder []) => exact .inr ⟨s, rfl, by simp [hdot, hdots, hfind]⟩
              | some (.folder (_ :: _)) =>
                  exact .inl ⟨.notEmpty, by simp [hdot, hdots, hfind]⟩
              | some (.file _) => exact .inl ⟨.notFolder, by simp [hdot, hdots, hfind]⟩
              | some (.link _) => exact .inl ⟨.notFolder, by simp [hdot, hdots, hfind]⟩
              | none => exact .inl ⟨.notFound, by simp [hdot, hdots, hfind]⟩

/-- Where no link stands, an entry is what stands at the place of its path. -/
theorem entryAt_plain {place : List String} (hp : p.Plain place) (hslash : p.endsInSlash = false)
    (hstraight : d.Straight place) {node : Node} (h : d.entryAt p = .ok node) :
    d.root.get? place = some node := by
  rcases entryAt_cases h with ⟨hspot, hroot⟩ | ⟨s, hspot, hentry⟩
  · obtain ⟨-, hparts⟩ := spot?_eq_ok_none.mp hspot
    obtain rfl : place = [] := hp.parts.symm.trans hparts
    exact (Node.get?_nil _).trans (congrArg some hroot.symm)
  · rcases hentry with ⟨-, -, -, hfind⟩ | ⟨-, hnode⟩
    · rcases List.eq_nil_or_concat place with rfl | ⟨folder, last, rfl⟩
      · have hlast := (spot?_eq_ok_some.mp hspot).2.1
        rw [hp.parts] at hlast
        cases hlast
      · rw [List.concat_eq_append] at hp hstraight ⊢
        obtain ⟨rfl, rfl, hentries⟩ :=
          spot?_plain hp (hstraight.mono (List.prefix_append _ _)) hspot
        rw [Node.get?_of_folder hentries, hfind]
        simp
    · exact ((nodeAt_eq_ok_iff hp hslash hstraight).mp hnode).2.2

/-- Only a folder can be removed with all that is in it. -/
theorem faceAt_of_removeTree {place : List String} (hp : p.Plain place)
    (hslash : p.endsInSlash = false) (hstraight : d.Straight place)
    (h : d.perform (removeTree p) = (.ok (), d')) : d.faceAt place = some .folder := by
  obtain ⟨node, d₁, hlook, h⟩ := perform_bind_eq_ok h
  rw [perform_look] at hlook
  obtain ⟨hentry, rfl⟩ := Prod.mk.inj hlook
  have hnode := entryAt_plain hp hslash hstraight hentry
  cases node with
  | file content => cases h
  | link target =>
      refine absurd ?_ (hstraight place (List.prefix_refl _) target)
      rw [faceAt, Node.faceAt, hnode]
      rfl
  | folder entries => exact faceAt_eq_some_folder.mpr ⟨entries, hnode⟩

/-- Parts that lead to a place while nothing is there lead there whatever is made of it. -/
theorem Confined.leads {start parts : List String} {name : String}
    (h : Confined (place ++ [name]) d d')
    (hleads : (d.without (place ++ [name])).Leads start parts place) :
    d'.Leads start parts place := by
  have hne : place ++ [name] ≠ [] := by simp
  refine hleads.mono (h.extends_without hne) fun other hother target hlink => ?_
  refine (faceAt_without_eq_some hne).mpr ⟨fun hbelow => ?_, h.links other target hlink⟩
  have hlong := (hbelow.trans hother).length_le
  rw [List.length_append, List.length_singleton] at hlong
  omega

/-- What is left where an entry has been removed, or a folder emptied. -/
structure Cleared (place : List String) (d d' : Disk) : Prop where
  confined : Confined place d d'
  bare : d'.Bare place
  less : Extends d' d

theorem cleared_without (hne : place ≠ []) : Cleared place d (d.without place) where
  confined := confined_without hne (List.prefix_refl _)
  bare := bare_without hne
  less _ _ hface := ((faceAt_without_eq_some hne).mp hface).2

/-- A folder that is emptied. -/
theorem cleared_put {entries : Table Node} (h : d.root.get? folder = some (.folder entries))
    (hname : IsName last) (hfolder : d.faceAt (folder ++ [last]) = some .folder) :
    Cleared (folder ++ [last]) d { d with root := d.root.put (.folder []) (folder ++ [last]) } := by
  have hself := @faceAt_put_self d folder entries last (.folder []) h
  refine ⟨confined_put h hname .folder (List.prefix_refl _), ⟨fun face hface => ?_,
    fun name rest => ?_⟩, fun other face hface => ?_⟩
  · rw [hself []] at hface
    exact (Option.some.inj hface).symm
  · rw [List.append_assoc, List.singleton_append, hself]
    rfl
  · by_cases hbelow : folder ++ [last] <+: other
    · obtain ⟨rest, rfl⟩ := hbelow
      cases rest with
      | nil =>
          rw [List.append_nil, hself []] at hface
          rw [List.append_nil, hfolder]
          exact hface
      | cons name rest =>
          rw [List.append_assoc, List.singleton_append, hself] at hface
          cases hface
    · exact (Node.faceAt_put h hbelow).symm.trans hface

/-- An entry is removed with all that is in it, or a folder at least emptied, unless nothing is
done. -/
theorem removeTree_leads {parts : List String} {name : String}
    (hleads : (d.without (place ++ [name])).Leads (startOf p d.here) parts place)
    (hparts : p.parts = parts ++ [name]) (hname : IsName name) (hslash : p.endsInSlash = false) :
    (∃ e, d.perform (removeTree p) = (.error e, d)) ∨
      Cleared (place ++ [name]) d (d.perform (removeTree p)).2 := by
  have hne : place ++ [name] ≠ [] := by simp
  have hown := (Confined.refl _ d).leads hleads
  rw [removeTree, perform_bind, perform_look]
  cases hentry : d.entryAt p with
  | error e => exact .inl ⟨e, rfl⟩
  | ok node =>
      rcases entryAt_cases hentry with ⟨hspot, -⟩ | ⟨s, hspot, hentry⟩
      · have hnone := (spot?_eq_ok_none.mp hspot).2
        rw [hparts] at hnone
        simp at hnone
      obtain ⟨rfl, rfl, hentries⟩ := hown.spot? hparts hspot
      rcases hentry with ⟨-, -, -, hfind⟩ | ⟨hdots | hend, -⟩
      · have hface : d.faceAt (s.folder ++ [s.last]) = some node.face := by
          rw [faceAt_concat hentries, hfind]
          rfl
        cases node with
        | file content => exact .inl ⟨_, rfl⟩
        | link target =>
            refine .inr ?_
            simp only [perform_bind, perform_look, hspot, perform_removeEntry]
            exact cleared_without hne
        | folder others =>
            simp only [perform_bind, perform_look]
            cases hlocate : d.locate p with
            | error e => exact .inl ⟨e, rfl⟩
            | ok found =>
                have hfree (target : Path) :
                    d.faceAt (s.folder ++ [s.last]) ≠ some (.link target) := by
                  rw [hface]
                  simp [Node.face]
                obtain rfl := (hown.name hname hfree).eq_of_follow
                  (hparts ▸ follow_of_locate hlocate)
                -- The folder is emptied, and then removed unless it is not found any more.
                have hput := cleared_put hentries hname hface
                refine .inr ?_
                simp only [perform_putAt, perform_tryCatch]
                generalize ({ d with
                  root := d.root.put (.folder []) (s.folder ++ [s.last]) } : Disk) = d₁ at hput
                rcases perform_removeFolder d₁ p with ⟨e, herror⟩ | ⟨s₁, hspot₁, hdone⟩
                · rw [herror]
                  cases e <;> exact hput
                · have hleads₁ := hput.confined.leads hleads
                  rw [← hput.confined.here] at hleads₁
                  obtain ⟨hlast, hfolder, -⟩ := hleads₁.spot? hparts hspot₁
                  have hplace : s₁.place = s.folder ++ [s.last] := by
                    rw [Spot.place, hlast, hfolder]
                  rw [hdone, hplace]
                  have hgone := @cleared_without d₁ _ hne
                  exact ⟨hput.confined.trans hgone.confined, hgone.bare, fun other face hface =>
                    hput.less other face (hgone.less other face hface)⟩
      · simp [Spot.isName, hname.ne_dot, hname.ne_dots] at hdots
      · rw [hslash] at hend
        cases hend

/-- A plain path leads to the folder of its last name, whatever stands there. -/
theorem leads_of_plain (hstraight : d.Straight folder) (hp : p.Plain (folder ++ [last])) :
    (d.without (folder ++ [last])).Leads (startOf p d.here) folder folder := by
  have hstart : startOf p d.here = [] := by simp [startOf, hp.isAbsolute]
  have hwithout := (confined_without (by simp) (List.prefix_refl (folder ++ [last]))).straight
    hstraight
  exact hstart ▸ hwithout.leads (List.forall_mem_append.mp hp.names).1

/-- At a plain path a folder is removed, or at least emptied, unless nothing is done. -/
theorem removeTree_plain {place : List String} (hp : p.Plain place) (hne : place ≠ [])
    (hslash : p.endsInSlash = false) (hstraight : d.Straight place) :
    (∃ e, d.perform (removeTree p) = (.error e, d)) ∨
      Confined place d (d.perform (removeTree p)).2 ∧
        (d.perform (removeTree p)).2.Bare place := by
  obtain ⟨folder, last, rfl⟩ := (List.eq_nil_or_concat place).resolve_left hne
  rw [List.concat_eq_append] at *
  have hleads := leads_of_plain (hstraight.mono (List.prefix_append _ _)) hp
  exact (removeTree_leads hleads hp.parts (hp.names last (by simp)) hslash).imp_right
    fun hcleared => ⟨hcleared.confined, hcleared.bare⟩

end Removing

end EditorHost.Disk
