import EditorHost.Proofs.Disk.Following

/-!
# Places that paths lead to before they are there

The parts of a path lead to a place if they can be followed to it, or if they can be followed to a
folder behind which only names come, and no link stands on those; then what is made at the path is
made at the place.  How the path comes to the folder does not matter: links and dots may stand on
that part of the way.

A path whose dots or links come behind a name that is not there yet leads nowhere in this sense.
What it leads to depends on what the folder is going to hold.

## Contents

* `Disk.Leads`, and `Disk.Leads.mono`: what is made elsewhere does not matter.
* `Disk.Leads.eq_of_follow` and `Disk.Leads.spot?`: where such a path ends.
* `Disk.Leads.beginning`: where the beginnings of such a path lead.
* `Disk.spot?_plain` for plain paths, which lead to the place that they name.
-/

namespace EditorHost.Disk

open EditorHost.Path (IsName)

variable {d d' : Disk} {start parts place : List String} {name : String}

/-- Parts of a path lead from a folder to a place, or to where it would be. -/
inductive Leads (d : Disk) (start : List String) : List String → List String → Prop where
  /-- They lead to what is there. -/
  | found {parts place : List String} (h : d.follow maxLinks start parts = .ok place) :
      Leads d start parts place
  /-- A name comes behind, on which no link stands. -/
  | name {parts place : List String} {name : String} (h : Leads d start parts place)
      (isName : IsName name) (free : ∀ target, d.faceAt (place ++ [name]) ≠ some (.link target)) :
      Leads d start (parts ++ [name]) (place ++ [name])

namespace Leads

/-- On a disk that has more on it, and no more links on the way, the parts lead to the same
place. -/
theorem mono (h : d.Leads start parts place)
    (hfaces : Extends d d')
    (hlinks : ∀ other, other <+: place → ∀ target, d'.faceAt other = some (.link target) →
      d.faceAt other = some (.link target)) : d'.Leads start parts place := by
  induction h with
  | found h => exact .found (follow_mono hfaces h)
  | name h isName free ih =>
      exact .name (ih fun other hother => hlinks other (hother.trans (List.prefix_append _ _)))
        isName fun target hlink => free target (hlinks _ (List.prefix_refl _) target hlink)

/-- Names behind the parts, on which no links stand. -/
theorem names {names : List String} (h : d.Leads start parts place)
    (hnames : ∀ name ∈ names, IsName name)
    (hfree : ∀ front, front ≠ [] → front <+: names → ∀ target,
      d.faceAt (place ++ front) ≠ some (.link target)) :
    d.Leads start (parts ++ names) (place ++ names) := by
  induction names generalizing parts place with
  | nil => simpa using h
  | cons name rest ih =>
      obtain ⟨hname, hrest⟩ := List.forall_mem_cons.mp hnames
      have hfirst := h.name hname (hfree [name] (by simp) ⟨rest, rfl⟩)
      have hbelow := ih hfirst hrest fun front hne hfront => by
        rw [List.append_assoc, List.singleton_append]
        exact hfree (name :: front) (by simp) (List.cons_prefix_cons.mpr ⟨rfl, hfront⟩)
      rwa [List.append_assoc, List.append_assoc, List.singleton_append] at hbelow

/-- What the parts lead to is at the place. -/
theorem eq_of_follow (h : d.Leads start parts place) {found : List String}
    (hfollow : d.follow maxLinks start parts = .ok found) : found = place := by
  induction h generalizing found with
  | found h => exact Except.ok.inj (hfollow.symm.trans h)
  | name h isName free ih =>
      obtain ⟨between, hbetween, fewer, hlast⟩ := follow_append hfollow
      obtain rfl := ih hbetween
      obtain ⟨jump, hjump⟩ := exists_follow_eq_walk d fewer
      rw [hjump] at hlast
      obtain ⟨-, ⟨hdot, -⟩ | ⟨hdots, -⟩ | ⟨-, -, -, face, hface, hend⟩⟩ := walk_cons_eq_ok.mp hlast
      · exact absurd hdot isName.ne_dot
      · exact absurd hdots isName.ne_dots
      · cases face with
        | link target => exact absurd hface (free target)
        | _ => exact (Except.ok.inj hend).symm

/-- The beginnings of the parts lead to what is there, or end in a name on the way to the place. -/
theorem beginning {front : List String} (h : d.Leads start parts place) (hfront : front <+: parts) :
    (∃ found, d.follow maxLinks start front = .ok found) ∨
      ∃ shorter above name, front = shorter ++ [name] ∧ d.Leads start shorter above ∧
        IsName name ∧ above ++ [name] <+: place := by
  induction h with
  | found h =>
      obtain ⟨rest, rfl⟩ := hfront
      obtain ⟨between, hbetween, -⟩ := follow_append h
      exact .inl ⟨between, hbetween⟩
  | @name parts place name h isName free ih =>
      rcases List.prefix_concat_iff.mp hfront with rfl | hfront
      · exact .inr ⟨parts, place, name, rfl, h, isName, List.prefix_refl _⟩
      · refine (ih hfront).imp_right ?_
        rintro ⟨shorter, above, last, hlast, hshorter, hname, habove⟩
        exact ⟨shorter, above, last, hlast, hshorter, hname, habove.trans (List.prefix_append _ _)⟩

variable {p : Path}

/-- A name behind the parts stands at the place. -/
theorem spot? {s : Spot} (h : d.Leads (startOf p d.here) parts place)
    (hparts : p.parts = parts ++ [name]) (hspot : d.spot? p = .ok (some s)) :
    s.last = name ∧ s.folder = place ∧ d.root.get? place = some (.folder s.entries) := by
  obtain ⟨-, hlast, hfolder, hentries⟩ := spot?_eq_ok_some.mp hspot
  rw [hparts, List.getLast?_concat, Option.some.injEq] at hlast
  rw [hparts, List.dropLast_concat] at hfolder
  have hplace := h.eq_of_follow hfolder
  exact ⟨hlast.symm, hplace, hplace ▸ hentries⟩

end Leads

/-! ## Plain paths -/

section Plain

variable {p : Path}

/-- Names lead to the place that they name if no link stands on the way. -/
theorem Straight.leads (hnames : ∀ name ∈ place, IsName name) (h : d.Straight place) :
    d.Leads [] place place := by
  have hroot : d.Leads [] [] [] := .found rfl
  exact hroot.names hnames fun front _ => h front

/-- A plain path leads to the place that it names if no link stands on the way. -/
theorem Straight.leads_plain (hp : p.Plain place) (h : d.Straight place) :
    d.Leads (startOf p d.here) p.parts place := by
  rw [hp.parts, startOf, if_pos hp.isAbsolute]
  exact h.leads hp.names

/-- The last name of a plain path stands where it seems to. -/
theorem spot?_plain {s : Spot} (hp : p.Plain (place ++ [name])) (hstraight : d.Straight place)
    (h : d.spot? p = .ok (some s)) :
    s.last = name ∧ s.folder = place ∧ d.root.get? place = some (.folder s.entries) := by
  have hstart : startOf p d.here = [] := by simp [startOf, hp.isAbsolute]
  have hleads := hstraight.leads (List.forall_mem_append.mp hp.names).1
  exact (hstart ▸ hleads).spot? hp.parts h

end Plain

end EditorHost.Disk
