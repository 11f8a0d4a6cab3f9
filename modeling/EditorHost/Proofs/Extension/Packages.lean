import EditorHost.Proofs.Disk.Copying
import EditorHost.Proofs.Extension.Discovering

/-!
# Packages below a root when the disk changes

What is found behind one name below a root depends on what is seen there alone.  So packages come
and go only where something changes: where a package is put into a folder of the root, it is all
that is found there, and where a folder is removed, nothing else comes to light.

## Contents

* `Discovery.Offers`: a package that is found, with its manifest.
* `Offers.congr`, `Offers.of_removed` and `offers_of_package`: what a change leaves, and adds.
* `Discovery.Neat`: an identifier belongs to the folder of its name, which is kept by both.
-/

namespace EditorHost

open Disk (Confined)
open EditorHost.Path (IsName)

variable {d d' : Disk} {root : Path} {place names : List String} {id : String} {m : Manifest}

/-- A root to which no link leads, and in which no link is taken for a folder or for a manifest. -/
structure Disk.Orderly (d : Disk) (place : List String) : Prop where
  proper : d.Proper
  straight : d.Straight place
  settled : d.Settled place

namespace Disk

theorem Confined.orderly {other : List String} (h : Confined other d d') (ho : d.Orderly place) :
    d'.Orderly place :=
  ⟨h.proper ho.proper, h.straight ho.straight, h.settled ho.settled⟩

/-- Behind another name nothing changes. -/
theorem Confined.beside {first name : String} {rest : List String}
    (h : Confined (place ++ first :: rest) d d') (hne : first ≠ name) (more : List String) :
    d'.faceAt (place ++ name :: more) = d.faceAt (place ++ name :: more) :=
  h.faceAt_eq (not_prefix_of_ne hne rest more) (not_prefix_of_ne hne.symm more rest)

/-- Below a place that is neither on the way to a change nor touched by it nothing changes. -/
theorem Confined.aside {other : List String} (h : Confined other d d') (hother : ¬ other <+: place)
    (hway : ¬ place <+: other) (name : String) (more : List String) :
    d'.faceAt (place ++ name :: more) = d.faceAt (place ++ name :: more) := by
  refine h.faceAt_eq (fun hbelow => ?_) fun hbelow => hway ((List.prefix_append _ _).trans hbelow)
  exact (List.prefix_or_prefix_of_prefix hbelow (List.prefix_append place (name :: more))).elim
    hother hway

/-- Where a folder is removed, all that is seen was seen before. -/
theorem Confined.faceAt_of_removed {other : List String} {face : Face}
    (h : Confined place d d') (hbare : d'.Bare place) (hfolder : d.faceAt place = some .folder)
    (hface : d'.faceAt other = some face) : d.faceAt other = some face := by
  by_cases hbelow : place <+: other
  · obtain rfl := hbare.eq_self hbelow (by rw [hface]; rfl)
    rw [hfolder, hbare.folder face hface]
  · rcases h.elsewhere other hbelow with hsame | ⟨habove, hnone, -⟩
    · exact hsame.symm.trans hface
    · have hsome := Disk.isSome_faceAt_above habove (by rw [hfolder]; rfl)
      rw [hnone] at hsome
      cases hsome

/-- No link stands where a folder of the root is, or its manifest. -/
theorem Orderly.straight_name (h : d.Orderly place) (name : String) :
    d.Straight (place ++ [name]) :=
  h.straight.concat fun target hlink =>
    (h.settled [] name target (by simpa using hlink)).1 rfl

theorem Orderly.straight_manifest (h : d.Orderly place) (name : String) :
    d.Straight (place ++ [name] ++ [Manifest.fileName]) :=
  (h.straight_name name).concat fun target hlink => (h.settled [name] _ target hlink).2 rfl

end Disk

namespace Discovery

/-- A package that is found below a root, with its manifest. -/
structure Offers (d : Disk) (root : Path) (place names : List String) (m : Manifest) : Prop where
  found : Found d root place names
  manifest : Manifest.ofFolder d (root.descend names) = .ok m

/-! ## Elsewhere -/

section Changes

variable (hroot : root.Plain place) (ho : d.Orderly place) (ho' : d'.Orderly place)

include hroot ho ho'

/-- What is offered behind a first name depends on what is below it only. -/
theorem Offers.congr {first : String} {rest : List String}
    (h : Offers d root place (first :: rest) m)
    (hsame : ∀ more, d'.faceAt (place ++ first :: more) = d.faceAt (place ++ first :: more)) :
    Offers d' root place (first :: rest) m := by
  have hfound := h.found.congr hroot ho.proper ho.settled ho'.settled hsame
  have hmanifest := hsame (rest ++ [Manifest.fileName])
  rw [← List.cons_append, ← List.append_assoc] at hmanifest
  exact ⟨hfound, (Manifest.ofFolder_congr (hroot.descend (h.found.isName ho.proper))
    (ho.settled.straight_manifest h.found.folder) (ho'.settled.straight_manifest hfound.folder)
    hmanifest).mpr h.manifest⟩

theorem offers_congr {first : String} {rest : List String}
    (hsame : ∀ more, d'.faceAt (place ++ first :: more) = d.faceAt (place ++ first :: more)) :
    Offers d' root place (first :: rest) m ↔ Offers d root place (first :: rest) m :=
  ⟨fun h => h.congr hroot ho' ho fun more => (hsame more).symm,
    fun h => h.congr hroot ho ho' hsame⟩

/-! ## Removing -/

/-- Where a folder is removed, nothing comes to light. -/
theorem Offers.of_removed {found : List String} (hconfined : Confined (place ++ names) d d')
    (hbare : d'.Bare (place ++ names)) (hfolder : d.faceAt (place ++ names) = some .folder)
    (h : Offers d' root place found m) : Offers d root place found m := by
  have hless {other : List String} {face : Face} (hface : d'.faceAt other = some face) :
      d.faceAt other = some face := hconfined.faceAt_of_removed hbare hfolder hface
  have hplain {front : List String} (hfront : front <+: found) :
      (root.descend front).Plain (place ++ front) :=
    hroot.descend fun name hname => h.found.isName ho'.proper name (hfront.mem hname)
  have hnow {front : List String} (hfront : front <+: found) :
      d'.faceAt (place ++ front) = some .folder :=
    Disk.faceAt_folder_above h.found.folder ((List.prefix_append_right_inj place).mpr hfront)
  -- The manifest was there already.
  have hmanifest : Manifest.ofFolder d (root.descend found) = .ok m := by
    have hself := List.prefix_refl found
    obtain ⟨hpath, hchecks, text, hface, hparse⟩ := (Manifest.ofFolder_plain (hplain hself)
      (ho'.settled.straight_manifest (hnow hself))).mp h.manifest
    exact (Manifest.ofFolder_plain (hplain hself)
      (ho.settled.straight_manifest (hless (hnow hself)))).mpr
        ⟨hpath, hchecks, text, hless hface, hparse⟩
  -- Above it there was none, or there still were one: what is removed is a folder, and not above.
  have habove (front : List String) (hne : front ≠ []) (hfront : front <+: found)
      (hnot : front ≠ found) : isPackage d (root.descend front) = false := by
    rw [Bool.eq_false_iff]
    intro hpackage
    obtain ⟨own, hown⟩ := isPackage_iff.mp hpackage
    obtain ⟨hpath, hchecks, text, hface, hparse⟩ := (Manifest.ofFolder_plain (hplain hfront)
      (ho.settled.straight_manifest (hless (hnow hfront)))).mp hown
    have hkept : ¬ place ++ names <+: place ++ front ++ [Manifest.fileName] := by
      intro hbelow
      rcases List.prefix_concat_iff.mp hbelow with heq | hbelow
      · rw [heq, hface] at hfolder
        cases hfolder
      · have hway := (List.prefix_append_right_inj place).mpr hfront
        have hself := hbare.eq_self (hbelow.trans hway) (by rw [h.found.folder]; rfl)
        rw [← hself] at hbelow
        exact hnot (List.append_cancel_left (hbelow.eq_of_length_le hway.length_le).symm)
    have hpackage' := isPackage_iff.mpr ⟨own, (Manifest.ofFolder_plain (hplain hfront)
      (ho'.settled.straight_manifest (hnow hfront))).mpr
        ⟨hpath, hchecks, text, hconfined.faceAt_of_some hkept hface, hparse⟩⟩
    rw [h.found.first front hne hfront hnot] at hpackage'
    cases hpackage'
  exact ⟨⟨⟨h.found.ne, h.found.kept, isPackage_iff.mpr ⟨m, hmanifest⟩, habove⟩, h.found.short,
    hless h.found.folder⟩, hmanifest⟩

end Changes

/-- Nothing is offered where there is nothing. -/
theorem not_offers_of_bare (hroot : root.Plain place) (ho : d.Orderly place) {name : String}
    (hbare : d.Bare (place ++ [name])) : ¬ Offers d root place [name] m := by
  intro h
  have hplain := hroot.descend (h.found.isName ho.proper)
  obtain ⟨-, -, text, hface, -⟩ :=
    (Manifest.ofFolder_plain hplain (ho.straight_manifest name)).mp h.manifest
  rw [hbare.below] at hface
  cases hface

/-! ## Adding -/

/-- A manifest in a folder of the root makes it a package. -/
theorem offers_of_package (hroot : root.Plain place) (ho : d.Orderly place) {name : String}
    (hname : IsName name) (hkept : name ≠ skippedName)
    (h : Manifest.ofFolder d (root.join name) = .ok m) : Offers d root place [name] m := by
  obtain ⟨-, -, text, hface, -⟩ :=
    (Manifest.ofFolder_plain (hroot.join_name hname) (ho.straight_manifest name)).mp h
  exact ⟨⟨outermost_singleton.mpr ⟨hkept, isPackage_iff.mpr ⟨m, h⟩⟩, by simp [maxDepth],
    Disk.faceAt_folder_of_isSome (by rw [hface]; rfl)⟩, h⟩

/-- A package is all that is found behind its name. -/
theorem Offers.eq_singleton {name : String} {rest : List String} {own : Manifest}
    (hpackage : Manifest.ofFolder d (root.join name) = .ok own)
    (h : Offers d root place (name :: rest) m) : rest = [] ∧ m = own := by
  have hrest : rest = [] := by
    by_contra hne
    have hnot := h.found.first [name] (by simp) ⟨rest, rfl⟩ (by simpa using Ne.symm hne)
    have hthere : isPackage d (root.descend [name]) = true := isPackage_iff.mpr ⟨own, hpackage⟩
    rw [hnot] at hthere
    cases hthere
  subst hrest
  exact ⟨rfl, Except.ok.inj (h.manifest.symm.trans hpackage)⟩

/-! ## Identifiers in their folders -/

/-- An identifier belongs to the folder of its name: the only package that has it is found there,
and nothing else is. -/
def Neat (d : Disk) (root : Path) (place : List String) (id : String) : Prop :=
  ∀ names m, Offers d root place names m → m.id = id ∨ names.head? = some id →
    names = [id] ∧ m.id = id

theorem Neat.mono (h : Neat d root place id)
    (hless : ∀ names m, Offers d' root place names m → Offers d root place names m) :
    Neat d' root place id :=
  fun names m hoffers => h names m (hless names m hoffers)

/-- A package that is put into the folder of its name leaves an identifier where it belongs. -/
theorem Neat.of_package (h : Neat d root place id) (hroot : root.Plain place)
    (ho : d.Orderly place) (ho' : d'.Orderly place) (hconfined : Confined (place ++ [m.id]) d d')
    (hpackage : Manifest.ofFolder d' (root.join m.id) = .ok m) : Neat d' root place id := by
  intro names own hoffers hor
  obtain ⟨first, rest, rfl⟩ := List.exists_cons_of_ne_nil hoffers.found.ne
  by_cases hfirst : first = m.id
  · subst hfirst
    obtain ⟨rfl, rfl⟩ := hoffers.eq_singleton hpackage
    have hid : own.id = id := hor.elim (fun hid => hid) fun hhead => Option.some.inj hhead
    exact ⟨by rw [hid], hid⟩
  · refine h _ own (hoffers.congr hroot ho' ho fun more => ?_) hor
    exact (hconfined.beside (Ne.symm hfirst) more).symm

end Discovery

end EditorHost
