import EditorHost.Disk.Action
import EditorHost.Proofs.Disk.Leading

/-!
# How far changes of a disk reach

What is done to a plain path reaches no farther than the place that the path names, as long as no
link leads away from there: whatever is not at the place or below it stays as it was, but for
folders on the way to it, which are made where they are missing.  Links are never made, so that a
place without links stays one.

Neither does a failure on the way matter; what was done before it is not taken back, but reaches no
farther either.

## Contents

* `Disk.Confined` relates a disk to what is made of it; `Disk.Grows` and `Disk.Paves` to one on
  which folders have been made.
* `Disk.Open` is a place without links on the way and below, and `Disk.Bare` one with nothing there.
* `Disk.confined_put` and `Disk.confined_without`: one change.
* `Disk.Stays`: an action that is confined to a place, put together of parts.
-/

namespace EditorHost

namespace Disk

open EditorHost.Path (IsName)

variable {d d' d'' : Disk} {place other : List String}

/-! ## Confined changes -/

/-- Folders list entries by proper names, in order and each name once. -/
def Proper (d : Disk) : Prop := d.root.Proper

/-- From one disk to another nothing changed but at a place and below it; folders on the way to the
place may be new, and no links are. -/
structure Confined (place : List String) (d d' : Disk) : Prop where
  here : d'.here = d.here
  elsewhere : ∀ other, ¬ place <+: other → d'.faceAt other = d.faceAt other ∨
    (other <+: place ∧ d.faceAt other = none ∧ d'.faceAt other = some .folder)
  links : ∀ other target, d'.faceAt other = some (.link target) →
    d.faceAt other = some (.link target)
  proper : d.Proper → d'.Proper

/-- From one disk to another only folders are new. -/
structure Grows (d d' : Disk) : Prop where
  here : d'.here = d.here
  faces : ∀ other, d'.faceAt other = d.faceAt other ∨
    d.faceAt other = none ∧ d'.faceAt other = some .folder

/-- The new folders stand on the way to a place, or there. -/
structure Paves (place : List String) (d d' : Disk) : Prop extends Grows d d' where
  way : ∀ other, d'.faceAt other = d.faceAt other ∨ other <+: place
  proper : d.Proper → d'.Proper

/-- No link stands on the way to a place, nor there, nor below. -/
def Open (d : Disk) (place : List String) : Prop :=
  ∀ other, other <+: place ∨ place <+: other → ∀ target, d.faceAt other ≠ some (.link target)

/-- At a place there is nothing, or a folder with nothing in it. -/
structure Bare (d : Disk) (place : List String) : Prop where
  folder : ∀ face, d.faceAt place = some face → face = .folder
  below : ∀ name rest, d.faceAt (place ++ name :: rest) = none

namespace Confined

theorem refl (place : List String) (d : Disk) : Confined place d d :=
  ⟨rfl, fun _ _ => .inl rfl, fun _ _ h => h, id⟩

theorem trans (h : Confined place d d') (h' : Confined place d' d'') : Confined place d d'' where
  here := h'.here.trans h.here
  elsewhere other hother := by
    rcases h.elsewhere other hother with hsame | ⟨hway, hnone, hnew⟩
    · rw [← hsame]
      exact h'.elsewhere other hother
    · rcases h'.elsewhere other hother with hsame | ⟨-, hgone, -⟩
      · exact .inr ⟨hway, hnone, hsame.trans hnew⟩
      · rw [hnew] at hgone
        cases hgone
  links other target hlink := h.links other target (h'.links other target hlink)
  proper hd := h'.proper (h.proper hd)

/-- What reaches no farther than below a place reaches no farther than that place. -/
theorem mono (h : Confined other d d') (hplace : place <+: other) : Confined place d d' where
  here := h.here
  elsewhere first hfirst := by
    rcases h.elsewhere first fun hother => hfirst (hplace.trans hother) with hsame | ⟨hway, hnew⟩
    · exact .inl hsame
    · rcases List.prefix_or_prefix_of_prefix hway hplace with habove | habove
      · exact .inr ⟨habove, hnew⟩
      · exact absurd habove hfirst
  links := h.links
  proper := h.proper

/-- What is elsewhere is still there. -/
theorem faceAt_of_some (h : Confined place d d') (hother : ¬ place <+: other) {face : Face}
    (hface : d.faceAt other = some face) : d'.faceAt other = some face := by
  rcases h.elsewhere other hother with hsame | ⟨-, hnone, -⟩
  · exact hsame.trans hface
  · rw [hface] at hnone
    cases hnone

/-- What does not stand on the way looks as it did. -/
theorem faceAt_eq (h : Confined place d d') (hother : ¬ place <+: other)
    (hway : ¬ other <+: place) : d'.faceAt other = d.faceAt other := by
  rcases h.elsewhere other hother with hsame | ⟨habove, -⟩
  · exact hsame
  · exact absurd habove hway

theorem straight (h : Confined place d d') (hstraight : d.Straight other) : d'.Straight other :=
  fun first hfirst target hlink => hstraight first hfirst target (h.links first target hlink)

theorem isOpen (h : Confined place d d') (hopen : d.Open other) : d'.Open other :=
  fun first hfirst target hlink => hopen first hfirst target (h.links first target hlink)

end Confined

namespace Grows

theorem refl (d : Disk) : Grows d d := ⟨rfl, fun _ => .inl rfl⟩

theorem trans (h : Grows d d') (h' : Grows d' d'') : Grows d d'' := by
  refine ⟨h'.here.trans h.here, fun other => ?_⟩
  rcases h.faces other, h'.faces other with
    ⟨hfirst | ⟨hnone, hnew⟩, hsecond | ⟨hnone', hnew'⟩⟩
  · exact .inl (hsecond.trans hfirst)
  · exact .inr ⟨hfirst.symm.trans hnone', hnew'⟩
  · exact .inr ⟨hnone, hsecond.trans hnew⟩
  · rw [hnew] at hnone'
    cases hnone'

/-- What is seen is still seen. -/
theorem faceAt (h : Grows d d') : Extends d d' := by
  intro other face hface
  rcases h.faces other with hsame | ⟨hnone, -⟩
  · exact hsame.trans hface
  · rw [hface] at hnone
    cases hnone

theorem links (h : Grows d d') (other : List String) (target : Path)
    (hlink : d'.faceAt other = some (.link target)) : d.faceAt other = some (.link target) := by
  rcases h.faces other with hsame | ⟨-, hnew⟩
  · exact hsame.symm.trans hlink
  · rw [hnew] at hlink
    cases hlink

/-- Where parts led before, they still lead. -/
theorem leads {start parts : List String} (h : Grows d d')
    (hleads : d.Leads start parts place) : d'.Leads start parts place :=
  hleads.mono h.faceAt fun other _ => h.links other

end Grows

namespace Paves

theorem refl (place : List String) (d : Disk) : Paves place d d :=
  ⟨.refl d, fun _ => .inl rfl, id⟩

theorem trans (h : Paves place d d') (h' : Paves place d' d'') : Paves place d d'' where
  toGrows := h.toGrows.trans h'.toGrows
  way other := by
    rcases h.way other, h'.way other with ⟨hfirst | hway, hsecond | hway'⟩
    · exact .inl (hsecond.trans hfirst)
    · exact .inr hway'
    · exact .inr hway
    · exact .inr hway
  proper hd := h'.proper (h.proper hd)

theorem mono (h : Paves other d d') (hplace : other <+: place) : Paves place d d' :=
  ⟨h.toGrows, fun first => (h.way first).imp_right fun hway => hway.trans hplace, h.proper⟩

/-- Folders on the way to a place, or on a way that leads through it, are no change elsewhere. -/
theorem confined (h : Paves other d d') (hway : other <+: place ∨ place <+: other) :
    Confined place d d' where
  here := h.here
  elsewhere first hfirst := by
    rcases h.faces first, h.way first with ⟨hsame | hnew, hsame' | hown⟩
    · exact .inl hsame
    · exact .inl hsame
    · exact .inl hsame'
    · refine .inr ⟨?_, hnew⟩
      rcases hway with hway | hway
      · exact hown.trans hway
      · exact (List.prefix_or_prefix_of_prefix hown hway).resolve_right hfirst
  links := h.links
  proper := h.proper

end Paves

/-- Below a place without links no link stands on the way. -/
theorem Open.straight (h : d.Open place) (hother : other <+: place ∨ place <+: other) :
    d.Straight other := by
  intro first hfirst
  refine h first ?_
  rcases hother with hother | hother
  · exact .inl (hfirst.trans hother)
  · exact List.prefix_or_prefix_of_prefix hfirst hother

theorem Open.mono (h : d.Open place) (hother : place <+: other) : d.Open other := by
  intro first hfirst
  refine h first ?_
  rcases hfirst with hfirst | hfirst
  · exact List.prefix_or_prefix_of_prefix hfirst hother
  · exact .inr (hother.trans hfirst)

theorem Bare.isOpen (h : d.Bare place) (hstraight : d.Straight place) : d.Open place := by
  rintro first (hfirst | ⟨rest, rfl⟩) target hlink
  · exact hstraight first hfirst target hlink
  · cases rest with
    | nil =>
        rw [List.append_nil] at hlink
        cases h.folder _ hlink
    | cons name rest =>
        rw [h.below] at hlink
        cases hlink

/-- Whatever is there is the folder itself. -/
theorem Bare.eq_self (h : d.Bare place) (hbelow : place <+: other)
    (hexists : (d.faceAt other).isSome = true) : other = place := by
  obtain ⟨rest, rfl⟩ := hbelow
  cases rest with
  | nil => exact List.append_nil place
  | cons name rest =>
      rw [h.below] at hexists
      cases hexists

theorem bare_of_none (h : d.faceAt place = none) : d.Bare place := by
  refine ⟨fun face hface => ?_, fun name rest => Node.faceAt_none_append h _⟩
  rw [h] at hface
  cases hface

/-- Where nothing is found, nothing is. -/
theorem bare_of_checkExists {p : Path} (hp : p.Plain place) (hslash : p.endsInSlash = false)
    (hstraight : d.Straight place) (h : d.checkExists p = .ok false) : d.Bare place := by
  refine bare_of_none ?_
  by_contra hsome
  have hfound := nodeAt_ne_notFound hp hslash hstraight (Option.isSome_iff_ne_none.mpr hsome)
  rw [checkExists] at h
  split at h
  · cases h
  · exact hfound ‹_›
  · cases h

/-- What is named differently in one folder does not lie in each other. -/
theorem not_prefix_of_ne {first second : String} (hne : first ≠ second) (rest more : List String) :
    ¬ place ++ first :: rest <+: place ++ second :: more := by
  rw [List.prefix_append_right_inj, List.cons_prefix_cons]
  exact fun h => hne h.1

/-! ## One change -/

section Change

variable {folder : List String} {entries : Table Node} {name : String} {value : Node}

/-- A file or an empty folder. -/
inductive IsLeaf : Node → Prop where
  | file (content : Content) : IsLeaf (.file content)
  | folder : IsLeaf (.folder [])

theorem IsLeaf.proper (h : IsLeaf value) : value.Proper := by
  cases h with
  | file content => exact .file content
  | folder => exact Node.proper_folder_nil

theorem IsLeaf.faceAt_cons (h : IsLeaf value) (first : String) (rest : List String) :
    value.faceAt (first :: rest) = none := by
  cases h <;> rfl

theorem IsLeaf.faceAt_ne_link (h : IsLeaf value) (rest : List String) (target : Path) :
    value.faceAt rest ≠ some (.link target) := by
  cases rest with
  | nil => cases h <;> simp [Node.faceAt, Node.face]
  | cons first rest => simp [h.faceAt_cons]

/-- What is seen behind a change at a place. -/
theorem faceAt_put_self (h : d.root.get? folder = some (.folder entries)) (rest : List String) :
    faceAt { d with root := d.root.put value (folder ++ [name]) } (folder ++ name :: rest) =
      value.faceAt rest :=
  congrArg (Option.map Node.face) (Node.get?_put_below h rest)

/-- What is seen when a file has been put into a folder. -/
theorem faceAt_put_file (h : d.root.get? folder = some (.folder entries)) (content : Content)
    (other : List String) :
    faceAt { d with root := d.root.put (.file content) (folder ++ [name]) } other =
      if other = folder ++ [name] then some (.file content)
      else if folder ++ [name] <+: other then none else d.faceAt other := by
  by_cases hbelow : folder ++ [name] <+: other
  · obtain ⟨rest, rfl⟩ := hbelow
    have hself := @faceAt_put_self d folder entries name (.file content) h rest
    rw [List.append_assoc, List.singleton_append, hself]
    cases rest with
    | nil => simp [Node.faceAt, Node.face]
    | cons first rest => simp [(IsLeaf.file content).faceAt_cons]
  · have hne : other ≠ folder ++ [name] := by
      rintro rfl
      exact hbelow (List.prefix_refl _)
    rw [if_neg hne, if_neg hbelow]
    exact Node.faceAt_put h hbelow

/-- On the way to an entry of a folder that is there, names are proper. -/
theorem Proper.isName_concat (hd : d.Proper) (h : d.root.get? folder = some (.folder entries))
    (hname : IsName name) : ∀ part ∈ folder ++ [name], IsName part :=
  List.forall_mem_append.mpr
    ⟨Node.Proper.isName hd (by rw [h]; rfl), List.forall_mem_singleton.mpr hname⟩

theorem confined_put (h : d.root.get? folder = some (.folder entries)) (hname : IsName name)
    (hvalue : IsLeaf value) (hplace : place <+: folder ++ [name]) :
    Confined place d { d with root := d.root.put value (folder ++ [name]) } where
  here := rfl
  elsewhere other hother :=
    .inl (Node.faceAt_put h fun hbelow => hother (hplace.trans hbelow))
  links other target hlink := by
    by_cases hbelow : folder ++ [name] <+: other
    · obtain ⟨rest, rfl⟩ := hbelow
      rw [List.append_assoc, List.singleton_append, faceAt_put_self h] at hlink
      exact absurd hlink (hvalue.faceAt_ne_link rest target)
    · exact (Node.faceAt_put h hbelow).symm.trans hlink
  proper hd := hd.put hvalue.proper (hd.isName_concat h hname)

/-- A folder that is new. -/
theorem paves_put_folder (h : d.root.get? folder = some (.folder entries)) (hname : IsName name)
    (hnew : entries.find? name = none) :
    Paves (folder ++ [name]) d { d with root := d.root.put (.folder []) (folder ++ [name]) } := by
  have hnone : d.faceAt (folder ++ [name]) = none := by rw [faceAt_concat h, hnew]; rfl
  have hput (other : List String) :
      faceAt { d with root := d.root.put (.folder []) (folder ++ [name]) } other = d.faceAt other ∨
        other = folder ++ [name] := by
    by_cases hbelow : folder ++ [name] <+: other
    · obtain ⟨rest, rfl⟩ := hbelow
      cases rest with
      | nil => exact .inr (List.append_nil _)
      | cons first rest =>
          have hself := @faceAt_put_self d folder entries name (.folder []) h (first :: rest)
          rw [IsLeaf.folder.faceAt_cons] at hself
          refine .inl (Eq.trans ?_ (Node.faceAt_none_append hnone (first :: rest)).symm)
          rwa [List.append_assoc, List.singleton_append]
    · exact .inl (Node.faceAt_put h hbelow)
  refine ⟨⟨rfl, fun other => (hput other).imp_right ?_⟩, fun other => (hput other).imp_right ?_,
    fun hd => hd.put Node.proper_folder_nil (hd.isName_concat h hname)⟩
  · rintro rfl
    exact ⟨hnone, faceAt_put_self h []⟩
  · rintro rfl
    exact List.prefix_refl _

theorem confined_without (hne : other ≠ []) (hplace : place <+: other) :
    Confined place d (d.without other) where
  here := rfl
  elsewhere first hfirst :=
    .inl ((faceAt_without hne first).trans (if_neg fun hbelow => hfirst (hplace.trans hbelow)))
  links first target hlink := by
    rw [faceAt_without hne] at hlink
    split at hlink
    · cases hlink
    · exact hlink
  proper hd := hd.remove other

/-- What is seen while a place is away is seen whatever has been made of the place. -/
theorem Confined.extends_without (h : Confined place d d') (hne : place ≠ []) :
    Extends (d.without place) d' := by
  intro other face hface
  obtain ⟨hother, hface⟩ := (faceAt_without_eq_some hne).mp hface
  exact h.faceAt_of_some hother hface

theorem bare_without (hne : place ≠ []) : (d.without place).Bare place :=
  bare_of_none ((faceAt_without hne _).trans (if_pos (List.prefix_refl _)))

end Change

/-! ## Actions -/

section Perform

variable {α β : Type}

@[simp] theorem perform_pure (value : α) : d.perform (pure value) = (.ok value, d) := rfl

@[simp] theorem perform_throw (e : DiskError) :
    d.perform (throw e : Action α) = (.error e, d) := rfl

@[simp] theorem perform_putAt (node : Node) (place : List String) :
    d.perform (putAt node place) = (.ok (), { d with root := d.root.put node place }) := rfl

@[simp] theorem perform_removeEntry (s : Spot) :
    d.perform (removeEntry s) = (.ok (), d.without s.place) := rfl

theorem perform_bind (action : Action α) (k : α → Action β) :
    d.perform (action >>= k) = match d.perform action with
      | (.ok value, d') => d'.perform (k value)
      | (.error e, d') => (.error e, d') := by
  have hrun : d.perform (action >>= k) =
      (ExceptT.bindCont k (d.perform action).1).run (d.perform action).2 := rfl
  rw [hrun]
  obtain ⟨value | e, d'⟩ := d.perform action <;> rfl

theorem perform_look (view : Disk → Except DiskError α) :
    d.perform (look view) = (view d, d) := by
  have hget : d.perform (get : Action Disk) = (.ok d, d) := rfl
  rw [look, perform_bind, hget]
  dsimp only
  cases view d <;> rfl

theorem perform_tryCatch (action : Action α) (handler : DiskError → Action α) :
    d.perform (tryCatch action handler) = match d.perform action with
      | (.ok value, d') => (.ok value, d')
      | (.error e, d') => d'.perform (handler e) := by
  have hrun : d.perform (tryCatch action handler) =
      StateT.run ((ExceptT.tryCatch action handler).run) d := rfl
  rw [hrun, ExceptT.tryCatch, ExceptT.run_mk, StateT.run_bind]
  cases hresult : d.perform action with
  | mk result d' =>
      have hstate : StateT.run action d = pure (result, d') := hresult
      rw [hstate]
      cases result <;> rfl

end Perform

/-- What succeeds succeeds part by part. -/
theorem perform_bind_eq_ok {α β : Type} {action : Action α} {k : α → Action β} {value : β}
    (h : d.perform (action >>= k) = (.ok value, d')) :
    ∃ first d₁, d.perform action = (.ok first, d₁) ∧ d₁.perform (k first) = (.ok value, d') := by
  rw [perform_bind] at h
  cases hresult : d.perform action with
  | mk result d₁ =>
      rw [hresult] at h
      cases result with
      | error e => cases h
      | ok first => exact ⟨first, d₁, rfl, h⟩

/-- An action reaches no farther than a place from which no link leads away. -/
def Stays {α : Type} (place : List String) (action : Action α) : Prop :=
  ∀ d : Disk, d.Proper → d.Open place → Confined place d (d.perform action).2

section Parts

variable {α β : Type}

theorem stays_pure (value : α) : Stays place (pure value : Action α) := fun d _ _ => .refl place d

theorem stays_throw (e : DiskError) : Stays place (throw e : Action α) :=
  fun d _ _ => .refl place d

/-- What comes second may depend on what came of the first. -/
theorem Stays.bind {action : Action α} {k : α → Action β} (haction : Stays place action)
    (hk : ∀ (d : Disk) value d', d.Proper → d.perform action = (.ok value, d') →
      Stays place (k value)) : Stays place (action >>= k) := by
  intro d hproper hopen
  have hfirst := haction d hproper hopen
  rw [perform_bind]
  cases hresult : d.perform action with
  | mk result d' =>
      rw [hresult] at hfirst
      cases result with
      | error e => exact hfirst
      | ok value =>
          have hsecond := hk d value d' hproper hresult d' (hfirst.proper hproper)
            (hfirst.isOpen hopen)
          exact hfirst.trans hsecond

theorem stays_look (view : Disk → Except DiskError α) : Stays place (look view) := by
  intro d _ _
  rw [perform_look]
  exact .refl place d

/-- What is done with what is seen. -/
theorem stays_look_bind {view : Disk → Except DiskError α} {k : α → Action β}
    (hk : ∀ (d : Disk) value, d.Proper → view d = .ok value → Stays place (k value)) :
    Stays place (look view >>= k) := by
  refine (stays_look view).bind fun d value d' hproper hresult => ?_
  rw [perform_look] at hresult
  exact hk d value hproper (Prod.mk.inj hresult).1

theorem Stays.forM {items : List α} {body : α → Action PUnit}
    (h : ∀ item ∈ items, Stays place (body item)) : Stays place (items.forM body) := by
  induction items with
  | nil => exact stays_pure _
  | cons item items ih =>
      obtain ⟨hitem, hitems⟩ := List.forall_mem_cons.mp h
      exact hitem.bind fun _ _ _ _ _ => ih hitems

theorem Stays.mono {action : Action α} {inner : List String} (h : Stays inner action)
    (hplace : place <+: inner) : Stays place action :=
  fun d hproper hopen => (h d hproper (hopen.mono hplace)).mono hplace

end Parts

end Disk

end EditorHost
