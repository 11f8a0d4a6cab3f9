import EditorHost.Proofs.Disk.Confinement

/-!
# Making folders and files

Folders are made on the way to the place that a path leads to, and there, where they are missing; a
file is written at such a place.  At a plain path this reaches no farther than the place that the
path names, and neither does a folder that is copied there entry by entry.

## Contents

* `Disk.createFolders_induction`: what is kept when one of the folders on the way is made.
* `Disk.paves_createFolders`, wherever the way leads; `Disk.stays_createFolders` for plain paths.
* `Disk.perform_writeFile_leads`, and `Disk.stays_writeFile`.
* `Disk.mem_entriesOf`: the entries below a folder are the nodes that it holds.
* `Disk.stays_copyTree`.
-/

namespace EditorHost.Disk

open EditorHost.Path (IsName)

variable {d d' : Disk} {place : List String}

/-! ## Folders -/

section Folders

variable {p : Path} {own : List String}

/-- A folder is made where there is nothing, or nothing is done. -/
theorem perform_createFolder (d : Disk) (p : Path) :
    (∃ e, d.perform (createFolder p) = (.error e, d)) ∨
      ∃ s, d.spot? p = .ok (some s) ∧ s.entries.find? s.last = none ∧
        d.perform (createFolder p) =
          (.ok (), { d with root := d.root.put (.folder []) s.place }) := by
  rw [createFolder, perform_bind, perform_look]
  cases hspot : d.spot? p with
  | error e => exact .inl ⟨e, rfl⟩
  | ok spot =>
      cases spot with
      | none => exact .inl ⟨_, rfl⟩
      | some s =>
          cases hname : s.isName with
          | false => exact .inl ⟨.alreadyThere, by simp [hname]⟩
          | true =>
              cases hcheck : checkName s.last with
              | error e => exact .inl ⟨e, by simp [hname, perform_bind, perform_look, hcheck]⟩
              | ok _ =>
                  cases hhas : s.entries.find? s.last with
                  | some node =>
                      exact .inl ⟨.alreadyThere, by
                        simp [hname, perform_bind, perform_look, hcheck, Table.has, hhas]⟩
                  | none =>
                      exact .inr ⟨s, rfl, hhas, by
                        simp [hname, perform_bind, perform_look, hcheck, Table.has, hhas]⟩

theorem name_of_createFolder {s : Spot} (hspot : d.spot? p = .ok (some s))
    (h : d.perform (createFolder p) = (.ok (), d')) :
    s.isName = true ∧ checkName s.last = .ok () := by
  rw [createFolder, perform_bind, perform_look, hspot] at h
  cases hname : s.isName with
  | false => simp [hname] at h
  | true =>
      refine ⟨rfl, ?_⟩
      cases hcheck : checkName s.last with
      | ok _ => rfl
      | error e => simp [hname, perform_bind, perform_look, hcheck] at h

/-- What can be followed need not be made. -/
theorem createFolder_of_follow {found : List String}
    (h : d.follow maxLinks (startOf p d.here) p.parts = .ok found) :
    ∃ e, d.perform (createFolder p) = (.error e, d) := by
  rcases perform_createFolder d p with herror | ⟨s, hspot, hnew, hdone⟩
  · exact herror
  · obtain ⟨hdot, hdots⟩ : s.last ≠ "." ∧ s.last ≠ ".." := by
      simpa [Spot.isName] using (name_of_createFolder hspot hdone).1
    obtain ⟨-, hlast, hfolder, hentries⟩ := spot?_eq_ok_some.mp hspot
    obtain ⟨front, hparts⟩ := List.getLast?_eq_some_iff.mp hlast
    rw [hparts, List.dropLast_concat] at hfolder
    rw [hparts] at h
    obtain ⟨between, hbetween, fewer, hend⟩ := follow_append h
    obtain rfl : between = s.folder := Except.ok.inj (hbetween.symm.trans hfolder)
    obtain ⟨jump, hjump⟩ := exists_follow_eq_walk d fewer
    rw [hjump] at hend
    obtain ⟨-, ⟨hown, -⟩ | ⟨hown, -⟩ | ⟨-, -, -, face, hface, -⟩⟩ := walk_cons_eq_ok.mp hend
    · exact absurd hown hdot
    · exact absurd hown hdots
    · rw [faceAt_concat hentries, hnew] at hface
      cases hface

/-- The folders that are still to be made are among those that may be made. -/
theorem mem_climb {outer inner left : List Path} {d d' : Disk}
    (h : d.perform (climb outer inner) = (.ok left, d')) {q : Path} (hq : q ∈ left) :
    q ∈ outer ∨ q ∈ inner := by
  induction outer generalizing d inner with
  | nil =>
      obtain rfl : inner = left := Except.ok.inj (Prod.mk.inj h).1
      exact .inr hq
  | cons p outer ih =>
      rw [climb, perform_tryCatch, perform_bind] at h
      cases hmade : d.perform (ensureFolder p) with
      | mk result d₁ =>
          rw [hmade] at h
          cases result with
          | ok _ =>
              obtain rfl : inner = left := Except.ok.inj (Prod.mk.inj h).1
              exact .inr hq
          | error e =>
              cases e with
              | notFound =>
                  rcases ih h with houter | hinner
                  · exact .inl (List.mem_cons_of_mem _ houter)
                  · rcases List.mem_cons.mp hinner with rfl | hinner
                    · exact .inl List.mem_cons_self
                    · exact .inr hinner
              | _ => cases h

/-- A folder is made that may be there already, or nothing is done. -/
theorem disk_ensureFolder (d : Disk) (p : Path) :
    (d.perform (ensureFolder p)).2 = (d.perform (createFolder p)).2 := by
  have hget (d₁ : Disk) : d₁.perform (get : Action Disk) = (.ok d₁, d₁) := rfl
  rw [ensureFolder, perform_tryCatch]
  cases d.perform (createFolder p) with
  | mk result d₁ =>
      cases result with
      | ok _ => rfl
      | error e =>
          dsimp only
          rw [perform_bind, hget]
          dsimp only
          split <;> rfl

/-- What is kept when one of the folders on the way is made is kept when all of them are. -/
theorem createFolders_induction {P : Disk → Prop}
    (hfolder : ∀ q ∈ p.ancestors, ∀ d, P d → P (d.perform (createFolder q)).2) (h : P d) :
    P (d.perform (createFolders p)).2 := by
  have hone (q : Path) (hq : q ∈ p.ancestors) (d : Disk) (h : P d) :
      P (d.perform (ensureFolder q)).2 := disk_ensureFolder d q ▸ hfolder q hq d h
  have hclimb (outer inner : List Path) (houter : ∀ q ∈ outer, q ∈ p.ancestors) (d : Disk)
      (h : P d) : P (d.perform (climb outer inner)).2 := by
    induction outer generalizing d inner with
    | nil => exact h
    | cons q outer ih =>
        obtain ⟨hq, houter⟩ := List.forall_mem_cons.mp houter
        have hmade := hone q hq d h
        rw [climb, perform_tryCatch, perform_bind]
        cases hresult : d.perform (ensureFolder q) with
        | mk result d₁ =>
            rw [hresult] at hmade
            cases result with
            | ok _ => exact hmade
            | error e =>
                cases e with
                | notFound => exact ih _ houter d₁ hmade
                | _ => exact hmade
  have hall (folders : List Path) (hfolders : ∀ q ∈ folders, q ∈ p.ancestors) (d : Disk)
      (h : P d) : P (d.perform (folders.forM ensureFolder)).2 := by
    induction folders generalizing d with
    | nil => exact h
    | cons q folders ih =>
        obtain ⟨hq, hfolders⟩ := List.forall_mem_cons.mp hfolders
        have hmade := hone q hq d h
        have hcons : (q :: folders).forM ensureFolder =
            (ensureFolder q >>= fun _ => folders.forM ensureFolder) := rfl
        rw [hcons, perform_bind]
        cases hresult : d.perform (ensureFolder q) with
        | mk result d₁ =>
            rw [hresult] at hmade
            cases result with
            | ok _ => exact ih hfolders d₁ hmade
            | error e => exact hmade
  have hclimbed := hclimb p.ancestors [] (fun _ hq => hq) d h
  rw [createFolders, perform_bind]
  cases hresult : d.perform (climb p.ancestors []) with
  | mk result d₁ =>
      rw [hresult] at hclimbed
      cases result with
      | error e => exact hclimbed
      | ok left =>
          refine hall left (fun q hq => ?_) d₁ hclimbed
          exact (mem_climb hresult hq).resolve_right List.not_mem_nil

/-- A folder is made at a name behind parts that lead to a place, or on the way there. -/
theorem paves_createFolder {parts : List String} {name : String}
    (h : d.Leads (startOf p d.here) parts place) (hname : IsName name)
    (hparts : p.parts <+: parts ++ [name]) :
    Paves (place ++ [name]) d (d.perform (createFolder p)).2 := by
  have hnew {shorter above : List String} {last : String}
      (hleads : d.Leads (startOf p d.here) shorter above) (hlast : IsName last)
      (hown : p.parts = shorter ++ [last]) :
      Paves (above ++ [last]) d (d.perform (createFolder p)).2 := by
    rcases perform_createFolder d p with ⟨e, herror⟩ | ⟨s, hspot, hnone, hdone⟩
    · rw [herror]
      exact .refl _ d
    · obtain ⟨rfl, rfl, hentries⟩ := hleads.spot? hown hspot
      rw [hdone]
      exact paves_put_folder hentries hlast hnone
  rcases List.prefix_concat_iff.mp hparts with hown | hfront
  · exact hnew h hname hown
  · rcases h.beginning hfront with
      ⟨found, hfound⟩ | ⟨shorter, above, last, hown, hleads, hlast, habove⟩
    · obtain ⟨e, herror⟩ := createFolder_of_follow hfound
      rw [herror]
      exact .refl _ d
    · exact (hnew hleads hlast hown).mono (habove.trans (List.prefix_append _ _))

/-- The folders on the way to a place, and there, are made where they are missing. -/
theorem paves_createFolders {parts : List String} {name : String}
    (h : d.Leads (startOf p d.here) parts place) (hname : IsName name)
    (hparts : p.parts = parts ++ [name]) :
    Paves (place ++ [name]) d (d.perform (createFolders p)).2 := by
  refine createFolders_induction (P := Paves (place ++ [name]) d) (fun q hq d₁ hpaves => ?_)
    (.refl _ d)
  obtain ⟨habsolute, hfront, -⟩ := Path.parts_of_mem_ancestors hq
  have hstart : startOf q d₁.here = startOf p d.here := by
    simp only [startOf, habsolute, hpaves.here]
  exact hpaves.trans (paves_createFolder (hstart ▸ hpaves.leads h) hname (hparts ▸ hfront))

/-- The folders on the way to a place, or to one below it, are made where they are missing. -/
theorem stays_createFolders (hp : p.Plain own) (hway : own <+: place ∨ place <+: own) :
    Stays place (createFolders p) := by
  intro d hproper hopen
  rcases List.eq_nil_or_concat own with rfl | ⟨folder, last, rfl⟩
  · refine createFolders_induction (P := Confined place d) (fun q hq => ?_) (.refl place d)
    obtain ⟨-, hparts, hne⟩ := Path.parts_of_mem_ancestors hq
    exact absurd (List.prefix_nil.mp (hp.parts ▸ hparts)) hne
  · rw [List.concat_eq_append] at hp hway
    obtain ⟨hfolder, hlast⟩ := List.forall_mem_append.mp hp.names
    have hstart : startOf p d.here = [] := by simp [startOf, hp.isAbsolute]
    have hleads := ((hopen.straight hway).mono (List.prefix_append folder [last])).leads hfolder
    exact (paves_createFolders (hstart ▸ hleads) (List.forall_mem_singleton.mp hlast)
      hp.parts).confined hway

end Folders

/-! ## Files -/

section Files

variable {p : Path} {own : List String}

/-- Where no link stands, a file is written at the end of its path, or nothing is done. -/
theorem perform_writeFile (d : Disk) (p : Path) (content : Content) :
    (∃ e, d.perform (writeFile p content) = (.error e, d)) ∨
      ∃ s, d.spot? p = .ok (some s) ∧ p.endsInSlash = false ∧
        ((∃ target, s.entries.find? s.last = some (.link target)) ∨
          d.perform (writeFile p content) =
            (.ok (), { d with root := d.root.put (.file content) s.place })) := by
  rw [writeFile, perform_bind, perform_look]
  cases hspot : d.spot? p with
  | error e => exact .inl ⟨e, rfl⟩
  | ok spot =>
      cases spot with
      | none => exact .inl ⟨_, rfl⟩
      | some s =>
          cases hname : s.isName with
          | false => exact .inl ⟨.isFolder, by simp [hname]⟩
          | true =>
              cases hslash : p.endsInSlash with
              | true => exact .inl ⟨.isFolder, by simp⟩
              | false =>
                  cases hcheck : checkName s.last with
                  | error e => exact .inl ⟨e, by
                      simp [hname, perform_bind, perform_look, hcheck]⟩
                  | ok _ =>
                      match hfind : s.entries.find? s.last with
                      | some (.link target) => exact .inr ⟨s, rfl, rfl, .inl ⟨target, hfind⟩⟩
                      | some (.folder others) => exact .inl ⟨.isFolder, by
                          simp [hname, perform_bind, perform_look, hcheck, hfind]⟩
                      | some (.file old) => exact .inr ⟨s, rfl, rfl, .inr (by
                          simp [hname, perform_bind, perform_look, hcheck, hfind])⟩
                      | none => exact .inr ⟨s, rfl, rfl, .inr (by
                          simp [hname, perform_bind, perform_look, hcheck, hfind])⟩

/-- What writing a file comes to at a name behind parts that lead to a place. -/
theorem perform_writeFile_leads {parts : List String} {name : String}
    (h : d.Leads (startOf p d.here) parts place) (hparts : p.parts = parts ++ [name])
    (hfree : ∀ target, d.faceAt (place ++ [name]) ≠ some (.link target)) (content : Content) :
    (∃ e, d.perform (writeFile p content) = (.error e, d)) ∨
      ∃ entries : Table Node, d.root.get? place = some (.folder entries) ∧
        d.perform (writeFile p content) =
          (.ok (), { d with root := d.root.put (.file content) (place ++ [name]) }) := by
  rcases perform_writeFile d p content with herror | ⟨s, hspot, -, hdone⟩
  · exact .inl herror
  · obtain ⟨rfl, rfl, hentries⟩ := h.spot? hparts hspot
    rcases hdone with ⟨target, hlink⟩ | hdone
    · refine absurd ?_ (hfree target)
      rw [faceAt_concat hentries, hlink]
      rfl
    · exact .inr ⟨_, hentries, hdone⟩

/-- What writing a file comes to at a plain path. -/
theorem perform_writeFile_plain (hp : p.Plain own) (hstraight : d.Straight own)
    (content : Content) :
    (∃ e, d.perform (writeFile p content) = (.error e, d)) ∨
      ∃ (folder : List String) (last : String) (entries : Table Node), own = folder ++ [last] ∧
        d.root.get? folder = some (.folder entries) ∧
        d.perform (writeFile p content) =
          (.ok (), { d with root := d.root.put (.file content) own }) := by
  rcases List.eq_nil_or_concat own with rfl | ⟨folder, last, rfl⟩
  · rcases perform_writeFile d p content with herror | ⟨s, hspot, -, -⟩
    · exact .inl herror
    · have hlast := (spot?_eq_ok_some.mp hspot).2.1
      rw [hp.parts] at hlast
      cases hlast
  · rw [List.concat_eq_append] at hp hstraight ⊢
    have hstart : startOf p d.here = [] := by simp [startOf, hp.isAbsolute]
    have hleads := (hstraight.mono (List.prefix_append folder [last])).leads
      (List.forall_mem_append.mp hp.names).1
    refine (perform_writeFile_leads (hstart ▸ hleads) hp.parts
      (hstraight _ (List.prefix_refl _)) content).imp_right ?_
    rintro ⟨entries, hentries, hdone⟩
    exact ⟨folder, last, entries, rfl, hentries, hdone⟩

theorem stays_writeFile (hp : p.Plain own) (hplace : place <+: own) (content : Content) :
    Stays place (writeFile p content) := by
  intro d hproper hopen
  rcases perform_writeFile_plain hp (hopen.straight (.inr hplace)) content with
    ⟨e, herror⟩ | ⟨folder, last, entries, rfl, hentries, hdone⟩
  · rw [herror]
    exact .refl place d
  · rw [hdone]
    exact confined_put hentries (hp.names last (by simp)) (.file content) hplace

/-- A file that was written is there. -/
theorem faceAt_writeFile (hp : p.Plain own) (hstraight : d.Straight own) {content : Content}
    (h : d.perform (writeFile p content) = (.ok (), d')) :
    d'.faceAt own = some (.file content) := by
  rcases perform_writeFile_plain hp hstraight content with
    ⟨e, herror⟩ | ⟨folder, last, entries, rfl, hentries, hdone⟩
  · rw [herror] at h
    cases h
  · rw [hdone] at h
    obtain ⟨-, rfl⟩ := Prod.mk.inj h
    exact faceAt_put_self hentries []

theorem stays_copyFile (source : Path) (hp : p.Plain own) (hplace : place <+: own) :
    Stays place (copyFile source p) := by
  refine stays_look_bind fun d node _ _ => ?_
  cases node with
  | file content => exact stays_writeFile hp hplace content
  | _ => exact stays_throw _

end Files

/-! ## Trees -/

theorem entriesOfAll_eq_flatMap (path : Path) (entries : Table Node) :
    entriesOfAll path entries = entries.flatMap fun entry =>
      ⟨path.join entry.1, entry.2⟩ :: entriesOf (path.join entry.1) entry.2 := by
  induction entries with
  | nil => rfl
  | cons entry rest ih =>
      obtain ⟨name, node⟩ := entry
      rw [entriesOfAll, ih]
      rfl

/-- What is listed below a node is what it holds, by the names on the way to it. -/
theorem mem_entriesOf {node : Node} (h : node.Proper) {path : Path} {entry : Entry} :
    entry ∈ entriesOf path node ↔ ∃ names, names ≠ [] ∧ node.get? names = some entry.node ∧
      entry.path = path.descend names := by
  induction h generalizing path with
  | file content =>
      refine ⟨fun h => absurd h List.not_mem_nil, ?_⟩
      rintro ⟨names, hne, hget, -⟩
      obtain ⟨name, rest, rfl⟩ := List.exists_cons_of_ne_nil hne
      cases hget
  | link target =>
      refine ⟨fun h => absurd h List.not_mem_nil, ?_⟩
      rintro ⟨names, hne, hget, -⟩
      obtain ⟨name, rest, rfl⟩ := List.exists_cons_of_ne_nil hne
      cases hget
  | @folder entries sorted isNames nodes ih =>
      rw [entriesOf, entriesOfAll_eq_flatMap, List.mem_flatMap]
      constructor
      · rintro ⟨⟨name, own⟩, hmem, hentry⟩
        have hfind := Table.Sorted.find?_of_mem sorted hmem
        rcases List.mem_cons.mp hentry with rfl | hentry
        · exact ⟨[name], by simp, by simp [Node.get?, hfind], rfl⟩
        · obtain ⟨rest, -, hget, hpath⟩ := (ih _ hmem).mp hentry
          exact ⟨name :: rest, by simp, by simp [Node.get?, hfind, hget], hpath⟩
      · rintro ⟨names, hne, hget, hpath⟩
        obtain ⟨name, rest, rfl⟩ := List.exists_cons_of_ne_nil hne
        obtain ⟨own, hfind, hget⟩ := Option.bind_eq_some_iff.mp hget
        have hmem := Table.mem_of_find? hfind
        refine ⟨(name, own), hmem, List.mem_cons.mpr ?_⟩
        by_cases hrest : rest = []
        · subst hrest
          obtain rfl : own = entry.node := by simpa using hget
          exact .inl (congrArg (Entry.mk · entry.node) hpath)
        · exact .inr ((ih _ hmem).mpr ⟨rest, hrest, hget, hpath⟩)

theorem proper_of_entryAt {p : Path} {node : Node} (hproper : d.Proper)
    (h : d.entryAt p = .ok node) : node.Proper := by
  rcases entryAt_cases h with ⟨-, rfl⟩ | ⟨s, hspot, ⟨-, -, -, hfind⟩ | ⟨-, hnode⟩⟩
  · exact hproper
  · have hfolder : (Node.folder s.entries).Proper :=
      hproper.get? (spot?_eq_ok_some.mp hspot).2.2.2
    cases hfolder with
    | folder sorted names nodes => exact nodes _ (Table.mem_of_find? hfind)
  · obtain ⟨place, -, hnode⟩ := nodeAt_eq_ok.mp hnode
    exact hproper.get? hnode

section Copying

variable {source target : Path}

/-- An entry is copied to its place below another. -/
theorem stays_copyEntry (htarget : target.Plain place) (source : Path) {names : List String}
    (hne : names ≠ []) (hnames : ∀ name ∈ names, IsName name) (node : Node) :
    Stays (place ++ names) (copyEntry source target ⟨(⟨""⟩ : Path).descend names, node⟩) := by
  have hplain := htarget.descend hnames
  simp only [copyEntry, Path.join_descend hne hnames]
  cases node with
  | folder entries => exact stays_createFolders hplain (.inl (List.prefix_refl _))
  | file content => exact stays_writeFile hplain (List.prefix_refl _) content
  | link other => exact stays_copyFile _ hplain (List.prefix_refl _)

/-- A folder is copied to a place, and no farther. -/
theorem stays_copyTree (htarget : target.Plain place) (source : Path) :
    Stays place (copyTree source target) := by
  have hsame := htarget.join_empty
  refine stays_look_bind fun d node hproper hnode => ?_
  cases node with
  | folder entries =>
      have hentries := proper_of_entryAt hproper hnode
      refine (stays_createFolders hsame (.inl (List.prefix_refl _))).bind fun _ _ _ _ _ => ?_
      refine stays_look_bind fun _ into _ _ => ?_
      cases into with
      | true => exact stays_throw _
      | false =>
          refine Stays.forM fun entry hentry => ?_
          obtain ⟨path, node⟩ := entry
          obtain ⟨names, hne, hget, rfl⟩ := (mem_entriesOf hentries).mp hentry
          exact (stays_copyEntry htarget source hne (hentries.isName (by rw [hget]; rfl)) node).mono
            (List.prefix_append _ _)
  | _ => exact stays_copyFile source hsame (List.prefix_refl _)

end Copying

end EditorHost.Disk
