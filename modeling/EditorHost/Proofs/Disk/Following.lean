import EditorHost.Proofs.Disk.Faces
import EditorHost.Proofs.Path

/-!
# Where paths lead

A path is followed through faces alone: a folder lets it pass, a link sends it elsewhere, and
whatever is not met on the way does not matter.  So a path that can be followed where less is left
leads to the same place (`follow_mono`).

A plain path on whose way no link stands leads to the place that it names, if there is one.

## Contents

* `Disk.faceAt`, and `Disk.walk_cons_eq_ok` for one step in terms of faces.
* `Disk.follow_mono`, `Disk.follow_append`.
* `Disk.Straight`, and what plain paths lead to: `locate_eq_ok_iff`, `nodeAt_eq_ok_iff`,
  `spot?_eq_ok_some`.
* `Disk.without`: a disk with nothing at a place.
-/

namespace EditorHost.Disk

open EditorHost.Path (IsName)

/-- What comes of two computations is what comes of the second behind the first. -/
theorem bind_eq_ok {α β : Type} {first : Except DiskError α} {second : α → Except DiskError β}
    {value : β} : first.bind second = .ok value ↔ ∃ a, first = .ok a ∧ second a = .ok value := by
  cases first <;> simp [Except.bind]

/-! ## Faces -/

/-- What is seen at a place. -/
def faceAt (d : Disk) (place : List String) : Option Face := d.root.faceAt place

theorem faceAt_eq_some_folder {d : Disk} {place : List String} :
    d.faceAt place = some .folder ↔
      ∃ entries : Table Node, d.root.get? place = some (.folder entries) :=
  Node.faceAt_eq_some_folder

theorem isSome_faceAt {d : Disk} {place : List String} {node : Node}
    (h : d.root.get? place = some node) : (d.faceAt place).isSome = true := by
  simp [faceAt, Node.faceAt, h]

theorem faceAt_append {d : Disk} {place : List String} {node : Node}
    (h : d.root.get? place = some node) (names : List String) :
    d.faceAt (place ++ names) = node.faceAt names := by
  rw [faceAt, Node.faceAt, Node.get?_append, h]
  rfl

/-- Only folders have something in them. -/
theorem faceAt_folder_of_isSome {d : Disk} {place : List String} {name : String}
    {rest : List String} (h : (d.faceAt (place ++ name :: rest)).isSome = true) :
    d.faceAt place = some .folder :=
  faceAt_eq_some_folder.mpr (Node.get?_of_concat (Option.isSome_map.symm.trans h))

theorem isSome_faceAt_above {d : Disk} {place other : List String} (hother : other <+: place)
    (h : (d.faceAt place).isSome = true) : (d.faceAt other).isSome = true := by
  obtain ⟨rest, rfl⟩ := hother
  cases rest with
  | nil => simpa using h
  | cons name rest => simp [faceAt_folder_of_isSome h]

theorem faceAt_concat {d : Disk} {place : List String} {entries : Table Node}
    (h : d.root.get? place = some (.folder entries)) (name : String) :
    d.faceAt (place ++ [name]) = (entries.find? name).map Node.face := by
  rw [faceAt, Node.faceAt, Node.get?_of_folder h]
  cases entries.find? name with
  | none => rfl
  | some node => simp

theorem entriesAt_eq_ok {d : Disk} {place : List String} {entries : Table Node} :
    d.entriesAt place = .ok entries ↔ d.root.get? place = some (.folder entries) := by
  rw [entriesAt]
  split
  next own h => rw [h]; simp
  next node hnot h =>
    rw [h]
    simp only [reduceCtorEq, Option.some.injEq, false_iff]
    rintro rfl
    exact hnot entries rfl
  next h => rw [h]; simp

/-- From one disk to another all that was seen is still seen. -/
def Extends (d d' : Disk) : Prop :=
  ∀ other face, d.faceAt other = some face → d'.faceAt other = some face

/-! ## Steps -/

section Walk

variable {d : Disk} {jump : List String → List String → Except DiskError (List String)}
variable {place found : List String}

theorem walk_cons (step : String) (rest : List String) :
    d.walk jump place (step :: rest) = (d.entriesAt place).bind fun entries =>
      if step = "." then d.walk jump place rest
      else if step = ".." then d.walk jump place.dropLast rest
      else (checkName step).bind fun _ =>
        match entries.find? step with
        | none => .error .notFound
        | some (.link target) => jump (startOf target place) (target.steps ++ rest)
        | some _ => d.walk jump (place ++ [step]) rest := by
  rw [walk]
  rfl

/-- A step, in terms of what is seen. -/
theorem walk_cons_eq_ok {step : String} {rest : List String} :
    d.walk jump place (step :: rest) = .ok found ↔ d.faceAt place = some .folder ∧
      ((step = "." ∧ d.walk jump place rest = .ok found) ∨
        (step = ".." ∧ d.walk jump place.dropLast rest = .ok found) ∨
        (step ≠ "." ∧ step ≠ ".." ∧ checkName step = .ok () ∧
          ∃ face, d.faceAt (place ++ [step]) = some face ∧
            match face with
            | .link target => jump (startOf target place) (target.steps ++ rest) = .ok found
            | _ => d.walk jump (place ++ [step]) rest = .ok found)) := by
  rw [walk_cons, bind_eq_ok]
  simp only [entriesAt_eq_ok]
  by_cases hfolder : d.faceAt place = some .folder
  · obtain ⟨entries, hentries⟩ := faceAt_eq_some_folder.mp hfolder
    have hface := faceAt_concat hentries step
    simp only [hentries, Option.some.injEq, Node.folder.injEq, exists_eq_left', hfolder, true_and,
      hface]
    by_cases hdot : step = "."
    · simp [hdot]
    · by_cases hdots : step = ".."
      · simp [hdots]
      · cases checkName step with
        | error e => simp [hdot, hdots, Except.bind]
        | ok _ =>
            cases entries.find? step with
            | none => simp [hdot, hdots, Except.bind]
            | some node => cases node <;> simp [hdot, hdots, Except.bind, Node.face]
  · have hnone : ∀ entries : Table Node, d.root.get? place ≠ some (.folder entries) :=
      fun entries hentries => hfolder (faceAt_eq_some_folder.mpr ⟨entries, hentries⟩)
    simp [hnone, hfolder]

/-- A step by a name on which no link stands. -/
theorem walk_name {name : String} {rest : List String} {face : Face} (hname : IsName name)
    (hface : d.faceAt (place ++ [name]) = some face) (hlink : ∀ target, face ≠ .link target) :
    d.walk jump place (name :: rest) =
      (checkName name).bind fun _ => d.walk jump (place ++ [name]) rest := by
  have hfolder := @faceAt_folder_of_isSome d place name [] (by simp [hface])
  obtain ⟨entries, hentries⟩ := faceAt_eq_some_folder.mp hfolder
  rw [faceAt_concat hentries] at hface
  obtain ⟨node, hfind, rfl⟩ := Option.map_eq_some_iff.mp hface
  rw [walk_cons, entriesAt_eq_ok.mpr hentries]
  simp only [Except.bind, if_neg hname.ne_dot, if_neg hname.ne_dots, hfind]
  cases node with
  | link target => exact absurd rfl (hlink target)
  | _ => rfl

/-! ## What does not matter -/

/-- What is met on a walk is met on every disk on which it is. -/
theorem walk_mono {d' : Disk}
    {jump' : List String → List String → Except DiskError (List String)}
    (hfaces : Extends d d')
    (hjump : ∀ start steps, jump start steps = .ok found → jump' start steps = .ok found)
    {steps : List String} (h : d.walk jump place steps = .ok found) :
    d'.walk jump' place steps = .ok found := by
  induction steps generalizing place with
  | nil => exact h
  | cons step rest ih =>
      obtain ⟨hfolder, hstep⟩ := (walk_cons_eq_ok).mp h
      refine (walk_cons_eq_ok).mpr ⟨hfaces _ _ hfolder, ?_⟩
      rcases hstep with ⟨hdot, hrest⟩ | ⟨hdots, hrest⟩ | ⟨hdot, hdots, hcheck, face, hface, hrest⟩
      · exact .inl ⟨hdot, ih hrest⟩
      · exact .inr (.inl ⟨hdots, ih hrest⟩)
      · refine .inr (.inr ⟨hdot, hdots, hcheck, face, hfaces _ _ hface, ?_⟩)
        cases face with
        | link target => exact hjump _ _ hrest
        | _ => exact ih hrest

/-- A walk in two parts. -/
theorem walk_append {steps more : List String} {Rest : List String → Prop}
    (hjump : ∀ start steps, jump start (steps ++ more) = .ok found →
      ∃ between, jump start steps = .ok between ∧ Rest between)
    (hlast : ∀ between, d.walk jump between more = .ok found → Rest between)
    (h : d.walk jump place (steps ++ more) = .ok found) :
    ∃ between, d.walk jump place steps = .ok between ∧ Rest between := by
  induction steps generalizing place with
  | nil => exact ⟨place, rfl, hlast place h⟩
  | cons step rest ih =>
      rw [List.cons_append] at h
      obtain ⟨hfolder, hstep⟩ := (walk_cons_eq_ok).mp h
      simp only [walk_cons_eq_ok]
      rcases hstep with ⟨hdot, hrest⟩ | ⟨hdots, hrest⟩ | ⟨hdot, hdots, hcheck, face, hface, hrest⟩
      · obtain ⟨between, hwalk, hbehind⟩ := ih hrest
        exact ⟨between, ⟨hfolder, .inl ⟨hdot, hwalk⟩⟩, hbehind⟩
      · obtain ⟨between, hwalk, hbehind⟩ := ih hrest
        exact ⟨between, ⟨hfolder, .inr (.inl ⟨hdots, hwalk⟩)⟩, hbehind⟩
      · have hgoesOn : ∃ between, (match face with
            | .link target => jump (startOf target place) (target.steps ++ rest) = .ok between
            | _ => d.walk jump (place ++ [step]) rest = .ok between) ∧ Rest between := by
          cases face with
          | link target => exact hjump _ _ (by rwa [List.append_assoc])
          | _ => exact ih hrest
        obtain ⟨between, hwalk, hbehind⟩ := hgoesOn
        exact ⟨between, ⟨hfolder, .inr (.inr ⟨hdot, hdots, hcheck, face, hface, hwalk⟩)⟩, hbehind⟩

/-- A walk that goes on where another one ends. -/
theorem walk_behind {steps more : List String} {between : List String}
    (hjump : ∀ start steps, jump start steps = .ok between →
      jump start (steps ++ more) = .ok found)
    (hmore : d.walk jump between more = .ok found)
    (h : d.walk jump place steps = .ok between) :
    d.walk jump place (steps ++ more) = .ok found := by
  induction steps generalizing place with
  | nil =>
      obtain rfl : place = between := Except.ok.inj h
      exact hmore
  | cons step rest ih =>
      obtain ⟨hfolder, hstep⟩ := (walk_cons_eq_ok).mp h
      refine (walk_cons_eq_ok).mpr ⟨hfolder, ?_⟩
      rcases hstep with ⟨hdot, hrest⟩ | ⟨hdots, hrest⟩ | ⟨hdot, hdots, hcheck, face, hface, hrest⟩
      · exact .inl ⟨hdot, ih hrest⟩
      · exact .inr (.inl ⟨hdots, ih hrest⟩)
      · refine .inr (.inr ⟨hdot, hdots, hcheck, face, hface, ?_⟩)
        cases face with
        | link target =>
            have hbehind := hjump _ _ hrest
            rwa [List.append_assoc] at hbehind
        | _ => exact ih hrest

end Walk

section Follow

variable {d d' : Disk} {links : Nat} {start found between : List String} {steps more : List String}

/-- What leads to a place leads there on every disk that has more on it. -/
theorem follow_mono (hfaces : Extends d d') (h : d.follow links start steps = .ok found) :
    d'.follow links start steps = .ok found := by
  induction links generalizing start steps with
  | zero => exact walk_mono hfaces (fun _ _ h => h) h
  | succ links ih => exact walk_mono hfaces (fun _ _ h => ih h) h

/-- What is followed is walked. -/
theorem exists_follow_eq_walk (d : Disk) (links : Nat) : ∃ jump, d.follow links = d.walk jump := by
  cases links with
  | zero => exact ⟨_, rfl⟩
  | succ links => exact ⟨_, rfl⟩

/-- With more links to spare a path leads to the same place. -/
theorem follow_le {more : Nat} (hle : links ≤ more) (h : d.follow links start steps = .ok found) :
    d.follow more start steps = .ok found := by
  induction links generalizing more start steps with
  | zero =>
      obtain ⟨jump, hjump⟩ := exists_follow_eq_walk d more
      rw [hjump]
      exact walk_mono (fun _ _ hface => hface) (fun start steps h => by cases h) h
  | succ links ih =>
      obtain ⟨fewer, rfl⟩ : ∃ fewer, more = fewer + 1 := ⟨more - 1, by omega⟩
      exact walk_mono (fun _ _ hface => hface) (fun _ _ h => ih (by omega) h) h

/-- However many links there are to spare, steps lead to one place. -/
theorem follow_unique {more : Nat} {other : List String}
    (h : d.follow links start steps = .ok found) (h' : d.follow more start steps = .ok other) :
    found = other := by
  rcases Nat.le_total links more with hle | hle
  · exact Except.ok.inj ((follow_le hle h).symm.trans h')
  · exact Except.ok.inj (h.symm.trans (follow_le hle h'))

/-- What can be followed leads through a place behind its first steps. -/
theorem follow_append (h : d.follow links start (steps ++ more) = .ok found) :
    ∃ between, d.follow links start steps = .ok between ∧
      ∃ fewer, d.follow fewer between more = .ok found := by
  induction links generalizing start steps with
  | zero => exact walk_append (fun _ _ h => (nomatch h)) (fun _ h => ⟨0, h⟩) h
  | succ links ih => exact walk_append (fun _ _ h => ih h) (fun _ h => ⟨links + 1, h⟩) h

/-- Steps that need no links can be followed behind all others. -/
theorem follow_behind (h : d.follow links start steps = .ok between)
    (hmore : ∀ jump, d.walk jump between more = .ok found) :
    d.follow links start (steps ++ more) = .ok found := by
  induction links generalizing start steps with
  | zero => exact walk_behind (fun _ _ h => (nomatch h)) (hmore _) h
  | succ links ih => exact walk_behind (fun _ _ h => ih h) (hmore _) h

/-- A dot at the end asks for a folder. -/
theorem follow_dot (h : d.follow links start (steps ++ ["."]) = .ok found) :
    d.follow links start steps = .ok found ∧ d.faceAt found = some .folder := by
  obtain ⟨between, hsteps, fewer, hdot⟩ := follow_append h
  obtain ⟨jump, hjump⟩ := exists_follow_eq_walk d fewer
  rw [hjump] at hdot
  obtain ⟨hfolder, ⟨-, hend⟩ | ⟨hdots, -⟩ | ⟨hdot, -⟩⟩ := (walk_cons_eq_ok).mp hdot
  · obtain rfl : between = found := Except.ok.inj hend
    exact ⟨hsteps, hfolder⟩
  · exact absurd hdots (by decide)
  · exact absurd rfl hdot

end Follow

/-! ## Plain paths -/

section Plain

variable {d : Disk} {place names : List String}

/-- No link stands on the way to a place, nor there. -/
def Straight (d : Disk) (place : List String) : Prop :=
  ∀ other, other <+: place → ∀ target, d.faceAt other ≠ some (.link target)

theorem Straight.mono {other : List String} (h : d.Straight place) (hother : other <+: place) :
    d.Straight other :=
  fun first hfirst => h first (hfirst.trans hother)

/-- Above a folder there are folders. -/
theorem faceAt_folder_above {other : List String} (h : d.faceAt place = some .folder)
    (hother : other <+: place) : d.faceAt other = some .folder :=
  Node.faceAt_folder_above h hother

/-- Where folders stand, no links stand on the way. -/
theorem straight_of_folder (h : d.faceAt place = some .folder) : d.Straight place := by
  intro other hother target hlink
  rw [faceAt_folder_above h hother] at hlink
  cases hlink

theorem Straight.concat {name : String} (h : d.Straight place)
    (hname : ∀ target, d.faceAt (place ++ [name]) ≠ some (.link target)) :
    d.Straight (place ++ [name]) := by
  intro other hother
  rcases List.prefix_concat_iff.mp hother with rfl | hother
  · exact hname
  · exact h other hother

section Names

variable {jump : List String → List String → Except DiskError (List String)}

/-- Names on which no link stands lead to the place that they name, if something is there. -/
theorem walk_eq_ok_iff (hnames : ∀ name ∈ names, IsName name)
    (hstraight : d.Straight (place ++ names)) {found : List String} :
    d.walk jump place names = .ok found ↔ found = place ++ names ∧
      (names ≠ [] → (d.faceAt (place ++ names)).isSome = true) ∧
        ∀ name ∈ names, checkName name = .ok () := by
  induction names generalizing place with
  | nil =>
      rw [walk, List.append_nil]
      exact ⟨fun h => ⟨(Except.ok.inj h).symm, by simp⟩, fun h => congrArg _ h.1.symm⟩
  | cons name rest ih =>
      obtain ⟨hname, hrest⟩ := List.forall_mem_cons.mp hnames
      have hnext : place ++ [name] ++ rest = place ++ name :: rest := by simp
      have habove : place ++ [name] <+: place ++ name :: rest := ⟨rest, hnext⟩
      have hgoesOn := @ih (place ++ [name]) hrest (hnext ▸ hstraight)
      constructor
      · intro hwalk
        obtain ⟨-, ⟨hdot, -⟩ | ⟨hdots, -⟩ | ⟨-, -, hcheck, face, hface, hwalk⟩⟩ :=
          (walk_cons_eq_ok).mp hwalk
        · exact absurd hdot hname.ne_dot
        · exact absurd hdots hname.ne_dots
        · have hwalk : d.walk jump (place ++ [name]) rest = .ok found := by
            cases face with
            | link target => exact absurd hface (hstraight _ habove target)
            | _ => exact hwalk
          obtain ⟨hfound, hexists, hchecks⟩ := hgoesOn.mp hwalk
          refine ⟨hfound.trans hnext, fun _ => ?_, List.forall_mem_cons.mpr ⟨hcheck, hchecks⟩⟩
          cases rest with
          | nil => simp [hface]
          | cons next rest =>
              rw [← hnext]
              exact hexists (List.cons_ne_nil _ _)
      · rintro ⟨hfound, hexists, hchecks⟩
        obtain ⟨hcheck, hchecks⟩ := List.forall_mem_cons.mp hchecks
        have hsome := hexists (List.cons_ne_nil _ _)
        obtain ⟨face, hface⟩ := Option.isSome_iff_exists.mp (isSome_faceAt_above habove hsome)
        have hlink : ∀ target, face ≠ .link target := by
          rintro target rfl
          exact hstraight _ habove target hface
        rw [walk_name hname hface hlink, hcheck]
        exact hgoesOn.mpr ⟨hfound.trans hnext.symm, fun _ => hnext ▸ hsome, hchecks⟩

/-- Where something is, it is found unless a name is too long. -/
theorem walk_error (hnames : ∀ name ∈ names, IsName name) (hstraight : d.Straight (place ++ names))
    (hexists : (d.faceAt (place ++ names)).isSome = true) {e : DiskError}
    (h : d.walk jump place names = .error e) : e = .nameTooLong := by
  induction names generalizing place with
  | nil => cases h
  | cons name rest ih =>
      obtain ⟨hname, hrest⟩ := List.forall_mem_cons.mp hnames
      have hnext : place ++ [name] ++ rest = place ++ name :: rest := by simp
      have habove : place ++ [name] <+: place ++ name :: rest := ⟨rest, hnext⟩
      obtain ⟨face, hface⟩ := Option.isSome_iff_exists.mp (isSome_faceAt_above habove hexists)
      have hlink : ∀ target, face ≠ .link target := by
        rintro target rfl
        exact hstraight _ habove target hface
      rw [walk_name hname hface hlink, checkName] at h
      split at h
      · exact ih hrest (hnext ▸ hstraight) (hnext ▸ hexists) h
      · exact (Except.error.inj h).symm

end Names

variable {p : Path}

theorem follow_eq_ok_iff {links : Nat} (hnames : ∀ name ∈ names, IsName name)
    (hstraight : d.Straight (place ++ names)) {found : List String} :
    d.follow links place names = .ok found ↔ found = place ++ names ∧
      (names ≠ [] → (d.faceAt (place ++ names)).isSome = true) ∧
        ∀ name ∈ names, checkName name = .ok () := by
  obtain ⟨jump, hjump⟩ := exists_follow_eq_walk d links
  rw [hjump, walk_eq_ok_iff hnames hstraight]

theorem locate_eq_ok {found : List String} :
    d.locate p = .ok found ↔ checkPath p = .ok () ∧
      d.follow maxLinks (startOf p d.here) p.steps = .ok found := by
  have hlocate : d.locate p = (checkPath p).bind fun _ =>
      d.follow maxLinks (startOf p d.here) p.steps := rfl
  rw [hlocate]
  cases checkPath p <;> simp [Except.bind]

/-- The empty path leads nowhere. -/
theorem text_ne_empty (h : checkPath p = .ok ()) : p.text ≠ "" := by
  intro hempty
  rw [checkPath, hempty] at h
  cases h

/-- Where a path leads, its parts lead. -/
theorem follow_of_locate {found : List String} (h : d.locate p = .ok found) :
    d.follow maxLinks (startOf p d.here) p.parts = .ok found := by
  obtain ⟨-, hfollow⟩ := locate_eq_ok.mp h
  rw [Path.steps] at hfollow
  split at hfollow
  · exact (follow_dot hfollow).1
  · exact hfollow

/-- Where a longer path leads, it leads through what the shorter one leads to. -/
theorem follow_of_locate_join {q : String} (hrelative : (⟨q⟩ : Path).isAbsolute = false)
    {found : List String} (h : d.locate (p.join q) = .ok found) :
    ∃ front, d.follow maxLinks (startOf p d.here) p.parts = .ok front ∧
      ∃ fewer, d.follow fewer front (⟨q⟩ : Path).parts = .ok found := by
  have hfollow := follow_of_locate h
  have hstart : startOf (p.join q) d.here = startOf p d.here := by
    simp only [startOf, Path.isAbsolute_join hrelative]
  rw [hstart, Path.parts_join hrelative] at hfollow
  exact follow_append hfollow

/-- A folder that the parts of a path lead to is what the path leads to. -/
theorem locate_of_follow (hpath : checkPath p = .ok ()) {place : List String}
    (hfollow : d.follow maxLinks (startOf p d.here) p.parts = .ok place)
    (hface : d.faceAt place = some .folder) : d.locate p = .ok place := by
  refine locate_eq_ok.mpr ⟨hpath, ?_⟩
  rw [Path.steps]
  split
  · exact follow_behind hfollow fun jump => (walk_cons_eq_ok).mpr ⟨hface, .inl ⟨rfl, rfl⟩⟩
  · exact hfollow

theorem nodeAt_eq_ok {node : Node} :
    d.nodeAt p = .ok node ↔ ∃ found, d.locate p = .ok found ∧ d.root.get? found = some node := by
  have hnodeAt : d.nodeAt p = (d.locate p).bind _ := rfl
  rw [hnodeAt, bind_eq_ok]
  refine exists_congr fun found => and_congr_right fun _ => ?_
  cases d.root.get? found <;> simp

theorem readText_eq_ok {text : String} :
    d.readText p = .ok text ↔ d.nodeAt p = .ok (.file (.text text)) := by
  have hread : d.readText p = (d.nodeAt p).bind _ := rfl
  rw [hread, bind_eq_ok]
  constructor
  · rintro ⟨node, hnode, hmatch⟩
    rw [hnode]
    split at hmatch <;> cases hmatch
    rfl
  · exact fun h => ⟨_, h, rfl⟩

/-- A plain path without a slash at its end leads to the place that it names. -/
theorem locate_eq_ok_iff (hp : p.Plain place) (hslash : p.endsInSlash = false)
    (hstraight : d.Straight place) {found : List String} :
    d.locate p = .ok found ↔ checkPath p = .ok () ∧ (∀ name ∈ place, checkName name = .ok ()) ∧
      found = place ∧ (d.faceAt place).isSome = true := by
  have hsteps : p.steps = place := by simp [Path.steps, hslash, hp.parts]
  have hstart : startOf p d.here = [] := by simp [startOf, hp.isAbsolute]
  rw [locate_eq_ok, hsteps, hstart, follow_eq_ok_iff hp.names (by simpa using hstraight),
    List.nil_append]
  have hroot : place = [] → (d.faceAt place).isSome = true := by
    rintro rfl
    exact isSome_faceAt (Node.get?_nil d.root)
  refine and_congr_right fun _ => ⟨?_, ?_⟩
  · rintro ⟨hfound, hexists, hchecks⟩
    exact ⟨hchecks, hfound, (em (place = [])).elim hroot hexists⟩
  · rintro ⟨hchecks, hfound, hexists⟩
    exact ⟨hfound, fun _ => hexists, hchecks⟩

theorem nodeAt_eq_ok_iff (hp : p.Plain place) (hslash : p.endsInSlash = false)
    (hstraight : d.Straight place) {node : Node} :
    d.nodeAt p = .ok node ↔ checkPath p = .ok () ∧ (∀ name ∈ place, checkName name = .ok ()) ∧
      d.root.get? place = some node := by
  rw [nodeAt_eq_ok]
  constructor
  · rintro ⟨found, hlocate, hnode⟩
    obtain ⟨hpath, hchecks, rfl, -⟩ := (locate_eq_ok_iff hp hslash hstraight).mp hlocate
    exact ⟨hpath, hchecks, hnode⟩
  · rintro ⟨hpath, hchecks, hnode⟩
    exact ⟨place, (locate_eq_ok_iff hp hslash hstraight).mpr
      ⟨hpath, hchecks, rfl, isSome_faceAt hnode⟩, hnode⟩

/-- What is there is never said not to be found. -/
theorem nodeAt_ne_notFound (hp : p.Plain place) (hslash : p.endsInSlash = false)
    (hstraight : d.Straight place) (hexists : (d.faceAt place).isSome = true) :
    d.nodeAt p ≠ .error .notFound := by
  intro h
  have hne := hp.text_ne_empty
  have hsteps : p.steps = place := by simp [Path.steps, hslash, hp.parts]
  have hstart : startOf p d.here = [] := by simp [startOf, hp.isAbsolute]
  have hnodeAt : d.nodeAt p = ((checkPath p).bind fun _ =>
      d.follow maxLinks (startOf p d.here) p.steps).bind _ := rfl
  rw [hnodeAt, hsteps, hstart] at h
  cases hpath : checkPath p with
  | error e =>
      rw [hpath] at h
      obtain rfl : e = .notFound := Except.error.inj h
      rw [checkPath, if_neg hne] at hpath
      split at hpath
      · cases hpath
      · split at hpath <;> cases hpath
  | ok _ =>
      rw [hpath] at h
      cases hfollow : d.follow maxLinks [] place with
      | error e =>
          simp only [Except.bind, hfollow, Except.error.injEq] at h
          subst h
          have htooLong := walk_error hp.names (List.nil_append place ▸ hstraight)
            (List.nil_append place ▸ hexists) hfollow
          cases htooLong
      | ok found =>
          obtain ⟨rfl, -⟩ := (follow_eq_ok_iff hp.names hstraight).mp hfollow
          obtain ⟨node, hnode⟩ := Option.isSome_iff_exists.mp (Option.isSome_map.symm.trans hexists)
          simp [Except.bind, hfollow, hnode] at h

theorem spot?_eq_ok_some {s : Spot} : d.spot? p = .ok (some s) ↔ checkPath p = .ok () ∧
    p.parts.getLast? = some s.last ∧
      d.follow maxLinks (startOf p d.here) p.parts.dropLast = .ok s.folder ∧
        d.root.get? s.folder = some (.folder s.entries) := by
  have hspot : d.spot? p = (checkPath p).bind _ := rfl
  rw [hspot, bind_eq_ok]
  constructor
  · rintro ⟨_, hpath, h⟩
    split at h
    · cases h
    next last hlast =>
      obtain ⟨folder, hfolder, h⟩ := bind_eq_ok.mp h
      obtain ⟨entries, hentries, h⟩ := bind_eq_ok.mp h
      cases h
      exact ⟨hpath, hlast, hfolder, entriesAt_eq_ok.mp hentries⟩
  · rintro ⟨hpath, hlast, hfolder, hentries⟩
    refine ⟨(), hpath, ?_⟩
    rw [hlast, hfolder]
    exact bind_eq_ok.mpr ⟨s.folder, rfl, bind_eq_ok.mpr ⟨s.entries, entriesAt_eq_ok.mpr hentries,
      rfl⟩⟩

theorem spot?_eq_ok_none : d.spot? p = .ok none ↔ checkPath p = .ok () ∧ p.parts = [] := by
  have hspot : d.spot? p = (checkPath p).bind _ := rfl
  rw [hspot, bind_eq_ok]
  constructor
  · rintro ⟨_, hpath, h⟩
    split at h
    next hlast => exact ⟨hpath, List.getLast?_eq_none_iff.mp hlast⟩
    · obtain ⟨folder, -, h⟩ := bind_eq_ok.mp h
      obtain ⟨entries, -, h⟩ := bind_eq_ok.mp h
      cases h
  · rintro ⟨hpath, hparts⟩
    exact ⟨(), hpath, by rw [hparts]; rfl⟩

end Plain

/-! ## Folders that a path leads to -/

section Folder

variable {d : Disk} {p : Path}

/-- An entry is the root, what has its name in a folder, or what its path leads to. -/
theorem entryAt_cases {node : Node} (h : d.entryAt p = .ok node) :
    (d.spot? p = .ok none ∧ node = d.root) ∨ ∃ s, d.spot? p = .ok (some s) ∧
      ((s.isName = true ∧ p.endsInSlash = false ∧ checkName s.last = .ok () ∧
          s.entries.find? s.last = some node) ∨
        ((s.isName = false ∨ p.endsInSlash = true) ∧ d.nodeAt p = .ok node)) := by
  have hentryAt : d.entryAt p = (d.spot? p).bind _ := rfl
  rw [hentryAt] at h
  obtain ⟨spot, hspot, h⟩ := bind_eq_ok.mp h
  cases spot with
  | none => exact .inl ⟨hspot, (Except.ok.inj h).symm⟩
  | some s =>
      refine .inr ⟨s, hspot, ?_⟩
      dsimp only at h
      split at h
      next hname =>
        obtain ⟨_, hcheck, h⟩ := bind_eq_ok.mp h
        refine .inl ⟨hname.1, by simpa using hname.2, hcheck, ?_⟩
        split at h
        next found hfind => rw [hfind, Except.ok.inj h]
        · cases h
      next hname =>
        refine .inr ⟨?_, h⟩
        cases hisName : s.isName with
        | false => exact .inl rfl
        | true => exact .inr (by simpa [hisName] using hname)

/-- A folder that is an entry is what its path leads to. -/
theorem locate_of_entryAt {entries : Table Node} (h : d.entryAt p = .ok (.folder entries)) :
    ∃ place, d.locate p = .ok place ∧ d.root.get? place = some (.folder entries) := by
  rcases entryAt_cases h with ⟨hspot, hroot⟩ | ⟨s, hspot, hentry⟩
  · obtain ⟨hpath, hparts⟩ := spot?_eq_ok_none.mp hspot
    have hstart : startOf p d.here = [] := by
      simp [startOf, Path.isAbsolute_of_parts_eq_nil hparts (text_ne_empty hpath)]
    have hnode : d.root.get? [] = some (.folder entries) :=
      (Node.get?_nil _).trans (congrArg some hroot.symm)
    refine ⟨[], locate_of_follow hpath ?_ (faceAt_eq_some_folder.mpr ⟨entries, hnode⟩), hnode⟩
    rw [hstart, hparts]
    rfl
  · rcases hentry with ⟨hname, -, hcheck, hfind⟩ | ⟨-, hnode⟩
    · obtain ⟨hpath, hlast, hfolder, hentries⟩ := spot?_eq_ok_some.mp hspot
      obtain ⟨front, hparts⟩ := List.getLast?_eq_some_iff.mp hlast
      rw [hparts, List.dropLast_concat] at hfolder
      obtain ⟨hdot, hdots⟩ : s.last ≠ "." ∧ s.last ≠ ".." := by simpa [Spot.isName] using hname
      have hface : d.faceAt (s.folder ++ [s.last]) = some .folder := by
        rw [faceAt_concat hentries, hfind]
        rfl
      refine ⟨s.folder ++ [s.last], locate_of_follow hpath ?_ hface, ?_⟩
      · rw [hparts]
        refine follow_behind hfolder fun jump => ?_
        exact (walk_cons_eq_ok).mpr ⟨faceAt_eq_some_folder.mpr ⟨_, hentries⟩,
          .inr (.inr ⟨hdot, hdots, hcheck, .folder, hface, rfl⟩)⟩
      · rw [Node.get?_of_folder hentries, hfind]
        simp
    · exact nodeAt_eq_ok.mp hnode

/-- A file in the folder that a path leads to. -/
theorem follow_of_nodeAt_join {name : String} (hname : IsName name) {content : Content}
    (h : d.nodeAt (p.join name) = .ok (.file content)) :
    ∃ (place : List String) (entries : Table Node),
      d.follow maxLinks (startOf p d.here) p.parts = .ok place ∧
      d.root.get? place = some (.folder entries) ∧
      ((∃ target, entries.find? name = some (.link target)) ∨
        entries.find? name = some (.file content)) := by
  obtain ⟨found, hlocate, hfile⟩ := nodeAt_eq_ok.mp h
  obtain ⟨place, hplace, fewer, hlast⟩ :=
    follow_of_locate_join (Path.isAbsolute_of_not_mem hname.no_slash) hlocate
  obtain ⟨jump, hjump⟩ := exists_follow_eq_walk d fewer
  rw [hjump, hname.parts] at hlast
  obtain ⟨hfolder, ⟨hdot, -⟩ | ⟨hdots, -⟩ | ⟨-, -, -, face, hface, hend⟩⟩ :=
    (walk_cons_eq_ok).mp hlast
  · exact absurd hdot hname.ne_dot
  · exact absurd hdots hname.ne_dots
  · obtain ⟨entries, hentries⟩ := faceAt_eq_some_folder.mp hfolder
    rw [faceAt_concat hentries] at hface
    obtain ⟨node, hnode, rfl⟩ := Option.map_eq_some_iff.mp hface
    refine ⟨place, entries, hplace, hentries, ?_⟩
    have hlook : d.root.get? (place ++ [name]) = some node := by
      rw [Node.get?_of_folder hentries, hnode]
      simp
    cases node with
    | link target => exact .inl ⟨target, hnode⟩
    | file other =>
        obtain rfl : place ++ [name] = found := Except.ok.inj hend
        rw [hlook] at hfile
        obtain rfl : other = content := by simpa using hfile
        exact .inr hnode
    | folder others =>
        obtain rfl : place ++ [name] = found := Except.ok.inj hend
        rw [hlook] at hfile
        cases hfile

end Folder

/-! ## Shorter paths -/

section Shorter

variable {d : Disk} {p : Path} {q : String}

theorem checkPath_of_join (hrelative : (⟨q⟩ : Path).isAbsolute = false) (hne : p.text ≠ "")
    (h : checkPath (p.join q) = .ok ()) : checkPath p = .ok () := by
  have hlonger : ∃ more, (p.join q).text = p.text ++ more := by
    rcases Path.join_cases hrelative p with ⟨hempty, -⟩ | ⟨-, -, hjoin⟩ | ⟨-, hjoin⟩
    · exact absurd hempty hne
    · exact ⟨q, by rw [hjoin]⟩
    · exact ⟨"/" ++ q, by rw [hjoin, String.append_assoc]⟩
  obtain ⟨more, hmore⟩ := hlonger
  rw [checkPath, hmore] at h
  split at h
  · cases h
  next hzero =>
    split at h
    · cases h
    · split at h
      next hsize =>
        have hshorter : p.text.utf8ByteSize ≤ maxPath := by
          rw [String.utf8ByteSize_append] at hsize
          omega
        have hnone : ¬ p.text.toList.contains '\x00' = true := by
          intro hmem
          simp only [String.toList_append, List.contains_append, hmem, Bool.true_or] at hzero
          exact hzero trivial
        rw [checkPath, if_neg hnone, if_neg hne, if_pos hshorter]
      · cases h

/-- A path that can be followed can be followed up to where it goes on. -/
theorem exists_locate_of_join (hrelative : (⟨q⟩ : Path).isAbsolute = false) (hne : p.text ≠ "")
    (hslash : p.endsInSlash = false) {found : List String} (h : d.locate (p.join q) = .ok found) :
    ∃ front, d.locate p = .ok front := by
  have hpath := (locate_eq_ok.mp h).1
  have hsteps : p.steps = p.parts := by simp [Path.steps, hslash]
  obtain ⟨front, hfront, -⟩ := follow_of_locate_join hrelative h
  exact ⟨front, locate_eq_ok.mpr ⟨checkPath_of_join hrelative hne hpath, hsteps ▸ hfront⟩⟩

theorem samePlace_eq_true {p q : Path} : d.samePlace p q = true ↔
    ∃ found, d.locate p = .ok found ∧ d.locate q = .ok found := by
  rw [samePlace]
  constructor
  · intro hsame
    split at hsame
    next first second hfirst hsecond => exact ⟨first, hfirst, beq_iff_eq.mp hsame ▸ hsecond⟩
    · cases hsame
  · rintro ⟨found, hfirst, hsecond⟩
    rw [hfirst, hsecond]
    exact beq_self_eq_true found

/-- Two paths that lead to the same place lead to the same behind it. -/
theorem nodeAt_join_of_samePlace {p' : Path} (hrelative : (⟨q⟩ : Path).isAbsolute = false)
    (hsame : d.samePlace p p' = true) {node node' : Node} (h : d.nodeAt (p.join q) = .ok node)
    (h' : d.nodeAt (p'.join q) = .ok node') : node = node' := by
  obtain ⟨between, hbetween, hbetween'⟩ := samePlace_eq_true.mp hsame
  obtain ⟨found, hfound, hnode⟩ := nodeAt_eq_ok.mp h
  obtain ⟨found', hfound', hnode'⟩ := nodeAt_eq_ok.mp h'
  obtain ⟨front, hfront, fewer, hlast⟩ := follow_of_locate_join hrelative hfound
  obtain ⟨front', hfront', fewer', hlast'⟩ := follow_of_locate_join hrelative hfound'
  obtain rfl : front = between :=
    Except.ok.inj (hfront.symm.trans (follow_of_locate hbetween))
  obtain rfl : front' = front :=
    Except.ok.inj (hfront'.symm.trans (follow_of_locate hbetween'))
  obtain rfl := follow_unique hlast hlast'
  exact Option.some.inj (hnode.symm.trans hnode')

end Shorter

/-! ## Less on a disk -/

/-- The disk with nothing at a place. -/
def without (d : Disk) (place : List String) : Disk := { d with root := d.root.remove place }

theorem faceAt_without {d : Disk} {place : List String} (hne : place ≠ []) (other : List String) :
    (d.without place).faceAt other = if place <+: other then none else d.faceAt other :=
  Node.faceAt_remove d.root hne other

theorem faceAt_without_eq_some {d : Disk} {place other : List String} (hne : place ≠ [])
    {face : Face} : (d.without place).faceAt other = some face ↔
      ¬ place <+: other ∧ d.faceAt other = some face := by
  rw [faceAt_without hne]
  split <;> simp [*]

theorem locate_mono {d d' : Disk} (hhere : d'.here = d.here) (hfaces : Extends d d') {p : Path}
    {found : List String} (h : d.locate p = .ok found) : d'.locate p = .ok found := by
  obtain ⟨hpath, hfollow⟩ := locate_eq_ok.mp h
  exact locate_eq_ok.mpr ⟨hpath, hhere ▸ follow_mono hfaces hfollow⟩

/-- A file that is found where less is left is found. -/
theorem nodeAt_mono {d d' : Disk} (hhere : d'.here = d.here) (hfaces : Extends d d') {p : Path}
    {content : Content} (h : d.nodeAt p = .ok (.file content)) :
    d'.nodeAt p = .ok (.file content) := by
  obtain ⟨found, hlocate, hfile⟩ := nodeAt_eq_ok.mp h
  have hface : d'.faceAt found = some (.file content) := by
    refine hfaces found _ ?_
    rw [faceAt, Node.faceAt, hfile]
    rfl
  obtain ⟨node, hnode, hfile'⟩ := Option.map_eq_some_iff.mp hface
  have hsame : node = .file content := by
    cases node with
    | file own => rw [Face.file.inj hfile']
    | _ => cases hfile'
  exact nodeAt_eq_ok.mpr ⟨found, locate_mono hhere hfaces hlocate, hsame ▸ hnode⟩

/-- What can be read where less is left can be read. -/
theorem readText_mono {d d' : Disk} (hhere : d'.here = d.here) (hfaces : Extends d d') {p : Path}
    {text : String} (h : d.readText p = .ok text) : d'.readText p = .ok text :=
  readText_eq_ok.mpr (nodeAt_mono hhere hfaces (readText_eq_ok.mp h))

end EditorHost.Disk
