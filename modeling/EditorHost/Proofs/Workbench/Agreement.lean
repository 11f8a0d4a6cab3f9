import EditorHost.Proofs.Workbench.DocumentCalls

/-!
# Both sides agree on documents

The editor opens, changes and closes documents in an order, and does not wait for one call to end
before it makes the next.  Extensions see each call at once.  The language servers' side may see
them in another order, because a call that opens a document waits for extensions in between; then
the sides may differ for good (`DocumentCall.not_agrees_overtaken`).

As long as the calls about a document take effect on the language servers' side in the order in
which they were made, both sides agree when all is over.  What carries this is that the editor's
side is always ahead of the other one by exactly the calls that have taken effect there only, in
their order (`DocumentCall.Ahead`).
-/

namespace EditorHost

open Interleaving (Move Pool System Task)
open World (SameDocuments)

variable {χ : Type}

/-- Something else that happens meanwhile, such as a message of a language server or a turn of other
work.  It leaves documents alone. -/
structure Disturbance (χ : Type) where
  change : World χ → World χ
  spares : ∀ w, SameDocuments w (change w)

/-- The calls about documents as a system; its pools are calls under way at the same time. -/
def documentCalls (code : Code χ) : System DocumentCall (Disturbance χ) (World χ) Unit where
  flow := DocumentCall.flow code
  outside := Disturbance.change

namespace DocumentCall

/-- The call has been made, and nothing of it has been done. -/
def IsFresh (code : Code χ) (t : Task DocumentCall (World χ) Unit) : Prop :=
  t.rest = t.call.flow code

/-- Nothing of what is left concerns documents.  So it is with a call that is over, and with what a
call starts on the side. -/
def IsSettled (t : Task DocumentCall (World χ) Unit) : Prop := t.rest.Within SameDocuments

/-- The calls about a document keep their order: one that begins does so behind all earlier ones,
and one that has begun, and has nothing more to do with documents after its turn, comes behind all
earlier ones in this too. -/
def KeepsOrder (code : Code χ) (uri : String) (p : Pool DocumentCall (World χ) Unit) :
    Move DocumentCall (Disturbance χ) → Prop
  | .turn n => ∀ t, p.tasks[n]? = some t → t.call.uri = uri →
      ∀ earlier ∈ p.tasks.take n, earlier.call.uri = uri →
        (IsFresh code t → ¬IsFresh code earlier) ∧
        (¬IsFresh code t → ¬IsSettled t →
          (∀ t', (p.turn n).tasks[n]? = some t' → IsSettled t') → IsSettled earlier)
  | _ => True

theorem isSettled_of_isDone {t : Task DocumentCall (World χ) Unit} (h : t.rest.isDone = true) :
    IsSettled t := by
  obtain ⟨value, hrest⟩ := Flow.eq_done_of_isDone h
  rw [IsSettled, hrest]
  trivial

theorem not_isFresh {code : Code χ} {t : Task DocumentCall (World χ) Unit}
    (h : t.rest.atRest = true) : ¬IsFresh code t := by
  intro hfresh
  rw [hfresh] at h
  cases hcall : t.call <;> rw [hcall] at h <;> cases h

/-! ## What the language servers' side is owed -/

/-- How far a call has come. -/
inductive Phase where
  | fresh
  /-- It has taken effect on the editor's side only. -/
  | owing
  | settled
  deriving DecidableEq

structure Entry (χ : Type) where
  task : Task DocumentCall (World χ) Unit
  phase : Phase

namespace Entry

def Fits (code : Code χ) (e : Entry χ) : Prop :=
  match e.phase with
  | .fresh => IsFresh code e.task
  | .owing => ¬IsFresh code e.task ∧ e.task.rest.Once SameDocuments e.task.call.OnServers
  | .settled => IsSettled e.task

/-- Whether a call about a document has yet to take effect on the language servers' side. -/
def owes (uri : String) (e : Entry χ) : Bool := e.phase = .owing ∧ e.task.call.uri = uri

end Entry

/-- The calls that the language servers' side is owed, in order. -/
def owed (uri : String) (entries : List (Entry χ)) : List DocumentCall :=
  (entries.filter (Entry.owes uri)).map fun e => e.task.call

/-- A document after calls about it. -/
def onDocumentAll (calls : List DocumentCall) (content : Option OpenText) : Option OpenText :=
  calls.foldl (fun content call => call.onDocument content) content

theorem owed_append (uri : String) (before behind : List (Entry χ)) :
    owed uri (before ++ behind) = owed uri before ++ owed uri behind := by
  simp [owed]

theorem owed_cons (uri : String) (e : Entry χ) (behind : List (Entry χ)) :
    owed uri (e :: behind) = owed uri [e] ++ owed uri behind :=
  owed_append uri [e] behind

theorem owed_eq_nil {uri : String} {entries : List (Entry χ)}
    (h : ∀ e ∈ entries, e.owes uri = false) : owed uri entries = [] := by
  simpa [owed] using h

theorem owed_of_owes {uri : String} {e : Entry χ} (h : e.owes uri = true) :
    owed uri [e] = [e.task.call] := by
  simp [owed, h]

/-- The editor's side of a document is ahead of the other side by what that one is owed. -/
structure Ahead (code : Code χ) (uri : String) (p : Pool DocumentCall (World χ) Unit)
    (entries : List (Entry χ)) : Prop where
  tasks : p.tasks = entries.map Entry.task
  fits : ∀ e ∈ entries, e.Fits code
  named : p.state.api.documents.Named
  inOrder : entries.Pairwise fun earlier later =>
    earlier.task.call.uri = uri → earlier.phase = .fresh → later.owes uri = false
  sides : p.state.editorSide uri = onDocumentAll (owed uri entries) (p.state.serverSide uri)

variable {code : Code χ} {uri : String} {p : Pool DocumentCall (World χ) Unit}
  {entries : List (Entry χ)}

theorem Ahead.start (h : Ahead code uri p entries) (call : DocumentCall) :
    Ahead code uri { p with tasks := p.tasks ++ [.of p.now call (call.flow code)] }
      (entries ++ [⟨.of p.now call (call.flow code), .fresh⟩]) := by
  refine ⟨?_, ?_, h.named, ?_, ?_⟩
  · simp [h.tasks]
  · intro e he
    rcases List.mem_append.mp he with he | he
    · exact h.fits e he
    · cases List.mem_singleton.mp he
      exact rfl
  · refine List.pairwise_append.mpr ⟨h.inOrder, List.pairwise_singleton _ _, ?_⟩
    intro earlier _ later hlater _ _
    cases List.mem_singleton.mp hlater
    rfl
  · have hnew : owed uri [(⟨.of p.now call (call.flow code), .fresh⟩ : Entry χ)] = [] := rfl
    rw [owed_append, hnew, List.append_nil]
    exact h.sides

theorem Ahead.disturb (h : Ahead code uri p entries) {w : World χ} (hw : SameDocuments p.state w) :
    Ahead code uri { p with state := w } entries := by
  refine ⟨h.tasks, h.fits, hw.editor ▸ h.named, h.inOrder, ?_⟩
  show w.editorSide uri = onDocumentAll (owed uri entries) (w.serverSide uri)
  rw [hw.editorSide, hw.serverSide, h.sides]

/-! ## One turn -/

section Turn

variable {before behind : List (Entry χ)} {e : Entry χ} {r : Flow.Stretch (World χ) Unit}

/-- The calls under way after one of them has taken a turn. -/
def afterTurn (p : Pool DocumentCall (World χ) Unit) (before behind : List (Entry χ))
    (call : DocumentCall) (r : Flow.Stretch (World χ) Unit) : Pool DocumentCall (World χ) Unit :=
  { p with
    state := r.state
    tasks := before.map Entry.task ++ .of p.now call r.rest :: behind.map Entry.task ++
      r.started.map fun child => .of p.now call (.ofStrand child) }

theorem Ahead.sides_split (h : Ahead code uri p (before ++ e :: behind)) :
    p.state.editorSide uri =
      onDocumentAll (owed uri before ++ (owed uri [e] ++ owed uri behind))
        (p.state.serverSide uri) := by
  rw [← owed_cons, ← owed_append]
  exact h.sides

/-- Whoever is owed something does not come behind a call that has not begun. -/
theorem Ahead.owes_eq_false (h : Ahead code uri p (before ++ e :: behind)) {earlier : Entry χ}
    (hearlier : earlier ∈ before) (huri : earlier.task.call.uri = uri)
    (hphase : earlier.phase = .fresh) : e.owes uri = false :=
  (List.pairwise_append.mp h.inOrder).2.2 earlier hearlier e List.mem_cons_self huri hphase

/-- One call goes on, and what it starts on the side does not concern documents. -/
theorem Ahead.goesOn (h : Ahead code uri p (before ++ e :: behind)) (phase : Phase)
    (hfits : Entry.Fits code ⟨.of p.now e.task.call r.rest, phase⟩) (hphase : phase ≠ .fresh)
    (hstarted : ∀ child ∈ r.started, child.Within SameDocuments)
    (horder : ∀ earlier ∈ before, earlier.task.call.uri = uri → earlier.phase = .fresh →
      Entry.owes uri ⟨.of p.now e.task.call r.rest, phase⟩ = false)
    (hnamed : r.state.api.documents.Named)
    (hsides : r.state.editorSide uri = onDocumentAll (owed uri before ++
      (owed uri [⟨.of p.now e.task.call r.rest, phase⟩] ++ owed uri behind))
        (r.state.serverSide uri)) :
    ∃ entries', Ahead code uri (afterTurn p before behind e.task.call r) entries' := by
  let e' : Entry χ := ⟨.of p.now e.task.call r.rest, phase⟩
  let children : List (Entry χ) := r.started.map fun child =>
    ⟨.of p.now e.task.call (.ofStrand child), .settled⟩
  have hchildren : ∀ child ∈ children, child.Fits code ∧ child.owes uri = false := by
    intro child hchild
    obtain ⟨strand, hstrand, rfl⟩ := List.mem_map.mp hchild
    exact ⟨Flow.Within.ofStrand (hstarted strand hstrand), rfl⟩
  obtain ⟨hbefore, hbehind, hacross⟩ := List.pairwise_append.mp h.inOrder
  -- The call keeps its place; what it starts comes behind all others.
  refine ⟨before ++ e' :: behind ++ children, ?_, ?_, hnamed, ?_, ?_⟩
  · simp [afterTurn, e', children]
  · obtain ⟨hfitsBefore, hfitsFrom⟩ := List.forall_mem_append.mp h.fits
    have hfitsBehind := (List.forall_mem_cons.mp hfitsFrom).2
    refine List.forall_mem_append.mpr ⟨List.forall_mem_append.mpr ⟨hfitsBefore, ?_⟩, ?_⟩
    · exact List.forall_mem_cons.mpr ⟨hfits, hfitsBehind⟩
    · exact fun child hchild => (hchildren child hchild).1
  · refine List.pairwise_append.mpr ⟨List.pairwise_append.mpr ⟨hbefore, ?_, ?_⟩, ?_, ?_⟩
    · refine List.pairwise_cons.mpr ⟨?_, (List.pairwise_cons.mp hbehind).2⟩
      intro later _ _ hfresh
      exact absurd hfresh hphase
    · intro earlier hearlier later hlater huri hfresh
      rcases List.mem_cons.mp hlater with rfl | hlater
      · exact horder earlier hearlier huri hfresh
      · exact hacross earlier hearlier later (List.mem_cons_of_mem _ hlater) huri hfresh
    · exact List.pairwise_of_forall_mem_list fun _ _ later hlater _ _ => (hchildren later hlater).2
    · intro earlier _ later hlater _ _
      exact (hchildren later hlater).2
  · have hnothing : owed uri children = [] := owed_eq_nil fun child hchild =>
      (hchildren child hchild).2
    rw [owed_append, owed_append, owed_cons, hnothing, List.append_nil]
    exact hsides

/-- A turn after which both sides have the document that they had, and are owed what they were. -/
theorem Ahead.goesOn_same (h : Ahead code uri p (before ++ e :: behind)) (phase : Phase)
    (hfits : Entry.Fits code ⟨.of p.now e.task.call r.rest, phase⟩) (hphase : phase ≠ .fresh)
    (hstarted : ∀ child ∈ r.started, child.Within SameDocuments)
    (howes : Entry.owes uri ⟨.of p.now e.task.call r.rest, phase⟩ = e.owes uri)
    (hnamed : r.state.api.documents.Named)
    (heditor : r.state.editorSide uri = p.state.editorSide uri)
    (hservers : r.state.serverSide uri = p.state.serverSide uri) :
    ∃ entries', Ahead code uri (afterTurn p before behind e.task.call r) entries' := by
  have howed : owed uri [⟨.of p.now e.task.call r.rest, phase⟩] = owed uri [e] := by
    simp only [owed, List.filter_cons, howes]
    split
    · rfl
    · rfl
  refine h.goesOn phase hfits hphase hstarted ?_ hnamed ?_
  · intro earlier hearlier huri hfresh
    rw [howes]
    exact h.owes_eq_false hearlier huri hfresh
  · rw [howed, heditor, hservers]
    exact h.sides_split

/-- A call begins, behind all earlier ones. -/
theorem Ahead.begins (h : Ahead code uri p (before ++ e :: behind)) (hfresh : e.phase = .fresh)
    (hatRest : r.rest.atRest = true) (hrest : r.rest.Once SameDocuments e.task.call.OnServers)
    (hstarted : ∀ child ∈ r.started, child.Within SameDocuments)
    (heffect : e.task.call.OnEditor p.state r.state)
    (horder : e.task.call.uri = uri → ∀ earlier ∈ before, earlier.task.call.uri = uri →
      earlier.phase ≠ .fresh) :
    ∃ entries', Ahead code uri (afterTurn p before behind e.task.call r) entries' := by
  have hservers : r.state.serverSide uri = p.state.serverSide uri := by
    simp only [World.serverSide, Rpc.Client.content, heffect.servers]
  have hfits : Entry.Fits code ⟨.of p.now e.task.call r.rest, .owing⟩ :=
    ⟨not_isFresh hatRest, hrest⟩
  by_cases huri : e.task.call.uri = uri
  · -- The call is owed from now on, and nothing is owed behind one that has not begun.
    have howed : owed uri [(⟨.of p.now e.task.call r.rest, .owing⟩ : Entry χ)] =
        [e.task.call] := owed_of_owes (by simp [Entry.owes, Task.of, huri])
    have hnotOwed : owed uri [e] = [] := by simp [owed, Entry.owes, hfresh]
    have hbehind : owed uri behind = [] := by
      refine owed_eq_nil fun later hlater => ?_
      have hpairs := (List.pairwise_append.mp h.inOrder).2.1
      exact (List.pairwise_cons.mp hpairs).1 later hlater huri hfresh
    have hdocument := heffect.document
    rw [huri, h.sides_split, hnotOwed, hbehind, List.append_nil, List.append_nil] at hdocument
    refine h.goesOn .owing hfits (by decide) hstarted ?_ heffect.named ?_
    · intro earlier hearlier hearlierUri hearlierFresh
      exact absurd hearlierFresh (horder huri earlier hearlier hearlierUri)
    · rw [howed, hbehind, hservers, hdocument, List.append_nil, onDocumentAll, onDocumentAll,
        List.foldl_append]
      rfl
  · have heditor := heffect.others uri (Ne.symm huri)
    refine h.goesOn_same .owing hfits (by decide) hstarted ?_ heffect.named heditor
      hservers
    simp [Entry.owes, Task.of, huri]

/-- A call takes effect on the language servers' side, behind all earlier ones. -/
theorem Ahead.settles (h : Ahead code uri p (before ++ e :: behind)) (howing : e.phase = .owing)
    (hrest : r.rest.Within SameDocuments)
    (hstarted : ∀ child ∈ r.started, child.Within SameDocuments)
    (heffect : e.task.call.OnServers p.state r.state)
    (horder : e.task.call.uri = uri → ∀ earlier ∈ before, earlier.task.call.uri = uri →
      earlier.phase ≠ .owing) :
    ∃ entries', Ahead code uri (afterTurn p before behind e.task.call r) entries' := by
  have hnamed : r.state.api.documents.Named := heffect.editor ▸ h.named
  have heditor : r.state.editorSide uri = p.state.editorSide uri := by
    simp only [World.editorSide, heffect.editor]
  by_cases huri : e.task.call.uri = uri
  · -- It is what the language servers' side has been owed longest.
    have howed : owed uri [e] = [e.task.call] := owed_of_owes (by simp [Entry.owes, howing, huri])
    have hnotOwed : owed uri [(⟨.of p.now e.task.call r.rest, .settled⟩ : Entry χ)] = [] := rfl
    have hbefore : owed uri before = [] := by
      refine owed_eq_nil fun earlier hearlier => ?_
      simp only [Entry.owes, decide_eq_false_iff_not, not_and]
      intro hphase hearlierUri
      exact horder huri earlier hearlier hearlierUri hphase
    have hdocument : r.state.serverSide uri = e.task.call.onDocument (p.state.serverSide uri) := by
      rw [← huri]
      exact heffect.client.document
    have hsides := h.sides_split
    rw [hbefore, howed, List.nil_append] at hsides
    refine h.goesOn .settled hrest (by decide) hstarted (fun _ _ _ _ => rfl) hnamed ?_
    rw [hbefore, hnotOwed, List.nil_append, List.nil_append, heditor, hsides, hdocument]
    rfl
  · have hservers := heffect.client.others uri (Ne.symm huri)
    refine h.goesOn_same .settled hrest (by decide) hstarted ?_ hnamed heditor hservers
    simp [Entry.owes, Task.of, huri]

theorem Ahead.turn_fresh (hcode : code.SparesDocuments)
    (h : Ahead code uri p (before ++ e :: behind)) (hphase : e.phase = .fresh)
    (hr : (e.task.rest.wake p.state).stretch p.state = r)
    (horder : e.task.call.uri = uri → ∀ earlier ∈ before, earlier.task.call.uri = uri →
      ¬IsFresh code earlier.task) :
    ∃ entries', Ahead code uri (afterTurn p before behind e.task.call r) entries' := by
  have hfresh : IsFresh code e.task := by
    have hfits := h.fits e (List.mem_append_right _ List.mem_cons_self)
    rwa [Entry.Fits, hphase] at hfits
  have hatRest : r.rest.atRest = true := hr ▸ Flow.atRest_stretch _ _
  obtain ⟨w, rest, hstretch, hturn⟩ := stretch_flow hcode e.task.call h.named
  rw [hfresh, hstretch] at hr
  subst hr
  have hstarted : ∀ child ∈ ([] : List (Strand (World χ))), child.Within SameDocuments :=
    fun _ hchild => (List.not_mem_nil hchild).elim
  rcases hturn with ⟨heffect, hrest⟩ | ⟨hsame, hrest⟩
  · apply h.begins hphase hatRest hrest hstarted heffect
    intro huri earlier hearlier hearlierUri hearlierPhase
    have hearlierFresh := h.fits earlier (List.mem_append_left _ hearlier)
    rw [Entry.Fits, hearlierPhase] at hearlierFresh
    exact horder huri earlier hearlier hearlierUri hearlierFresh
  · -- The document to be changed is not open, and the call is over at once.
    refine h.goesOn_same .settled hrest (by decide) hstarted ?_
      (hsame.editor ▸ h.named) (hsame.editorSide uri) (hsame.serverSide uri)
    simp [Entry.owes, hphase]

theorem Ahead.turn_owing (h : Ahead code uri p (before ++ e :: behind)) (hphase : e.phase = .owing)
    (hr : (e.task.rest.wake p.state).stretch p.state = r)
    (horder : e.task.call.uri = uri → ∀ earlier ∈ before, earlier.task.call.uri = uri →
      ¬IsFresh code e.task → ¬IsSettled e.task → r.rest.Within SameDocuments →
        IsSettled earlier.task) :
    ∃ entries', Ahead code uri (afterTurn p before behind e.task.call r) entries' := by
  obtain ⟨hbegun, howing⟩ : ¬IsFresh code e.task ∧
      e.task.rest.Once SameDocuments e.task.call.OnServers := by
    have hfits := h.fits e (List.mem_append_right _ List.mem_cons_self)
    rwa [Entry.Fits, hphase] at hfits
  obtain ⟨hturn, hstarted⟩ := (howing.wake p.state).stretch SameDocuments.refl
    SameDocuments.trans OnServers.before OnServers.behind p.state
  rw [hr] at hturn hstarted
  rcases hturn with ⟨hsame, hrest⟩ | ⟨heffect, hrest⟩
  · have hatRest : r.rest.atRest = true := hr ▸ Flow.atRest_stretch _ _
    refine h.goesOn_same .owing ⟨not_isFresh hatRest, hrest⟩ (by decide) hstarted ?_
      (hsame.editor ▸ h.named) (hsame.editorSide uri) (hsame.serverSide uri)
    simp [Entry.owes, hphase, Task.of]
  · apply h.settles hphase hrest hstarted heffect
    -- An earlier call that is owed still would be overtaken.
    intro huri earlier hearlier hearlierUri hearlierPhase
    have hearlierOwing := h.fits earlier (List.mem_append_left _ hearlier)
    rw [Entry.Fits, hearlierPhase] at hearlierOwing
    apply not_within_of_once p.state hearlierOwing.2
    apply horder huri earlier hearlier hearlierUri hbegun _ hrest
    exact not_within_of_once p.state howing

theorem Ahead.turn_settled (h : Ahead code uri p (before ++ e :: behind))
    (hphase : e.phase = .settled) (hr : (e.task.rest.wake p.state).stretch p.state = r) :
    ∃ entries', Ahead code uri (afterTurn p before behind e.task.call r) entries' := by
  have hsettled : IsSettled e.task := by
    have hfits := h.fits e (List.mem_append_right _ List.mem_cons_self)
    rwa [Entry.Fits, hphase] at hfits
  obtain ⟨hsame, hrest, hstarted⟩ := (Flow.Within.wake hsettled p.state).stretch
    SameDocuments.refl SameDocuments.trans p.state
  rw [hr] at hsame hrest hstarted
  refine h.goesOn_same .settled hrest (by decide) hstarted ?_
    (hsame.editor ▸ h.named) (hsame.editorSide uri) (hsame.serverSide uri)
  simp [Entry.owes, hphase]

/-- Whatever the turn of a call comes to, the editor's side is ahead by what is owed then. -/
theorem Ahead.turn (hcode : code.SparesDocuments) (h : Ahead code uri p (before ++ e :: behind))
    (hr : (e.task.rest.wake p.state).stretch p.state = r)
    (horder : e.task.call.uri = uri → ∀ earlier ∈ before, earlier.task.call.uri = uri →
      (IsFresh code e.task → ¬IsFresh code earlier.task) ∧
      (¬IsFresh code e.task → ¬IsSettled e.task → r.rest.Within SameDocuments →
        IsSettled earlier.task)) :
    ∃ entries', Ahead code uri (afterTurn p before behind e.task.call r) entries' := by
  cases hphase : e.phase with
  | fresh =>
      have hfits := h.fits e (List.mem_append_right _ List.mem_cons_self)
      rw [Entry.Fits, hphase] at hfits
      exact h.turn_fresh hcode hphase hr fun huri earlier hearlier hearlierUri =>
        (horder huri earlier hearlier hearlierUri).1 hfits
  | owing =>
      exact h.turn_owing hphase hr fun huri earlier hearlier hearlierUri =>
        (horder huri earlier hearlier hearlierUri).2
  | settled => exact h.turn_settled hphase hr

end Turn

/-! ## Runs -/

theorem exists_split {entries : List (Entry χ)} {n : Nat} {t : Task DocumentCall (World χ) Unit}
    (h : (entries.map Entry.task)[n]? = some t) :
    ∃ before e behind, entries = before ++ e :: behind ∧ before.length = n ∧ e.task = t := by
  rw [List.getElem?_map, Option.map_eq_some_iff] at h
  obtain ⟨e, he, htask⟩ := h
  obtain ⟨hlt, rfl⟩ := List.getElem?_eq_some_iff.mp he
  refine ⟨entries.take n, entries[n], entries.drop (n + 1), ?_, ?_, htask⟩
  · rw [← List.drop_eq_getElem_cons hlt, List.take_append_drop]
  · exact List.length_take_of_le (Nat.le_of_lt hlt)

/-- As long as the order is kept, each move leaves the editor's side ahead by what is owed. -/
theorem Ahead.step (hcode : code.SparesDocuments) {move : Move DocumentCall (Disturbance χ)}
    {p' : Pool DocumentCall (World χ) Unit} (horder : KeepsOrder code uri p move)
    (hp' : (documentCalls code).step p move = p')
    (hstep : (documentCalls code).Stepped p move p') (h : Ahead code uri p entries) :
    ∃ entries', Ahead code uri p' entries' := by
  cases hstep with
  | idle => exact ⟨entries, h⟩
  | start call => exact ⟨_, h.start call⟩
  | pass time => exact ⟨entries, h.tasks, h.fits, h.named, h.inOrder, h.sides⟩
  | outside event => exact ⟨entries, h.disturb (event.spares p.state)⟩
  | @turn n t r hn hr =>
      obtain ⟨before, e, behind, rfl, rfl, rfl⟩ := exists_split (h.tasks ▸ hn)
      have htasks : p.tasks = before.map Entry.task ++ e.task :: behind.map Entry.task := by
        simp [h.tasks]
      have hafter : afterTurn p before behind e.task.call r = { p with
          state := r.state
          tasks := p.tasks.set before.length (.of p.now e.task.call r.rest) ++
            r.started.map fun child => .of p.now e.task.call (.ofStrand child) } := by
        simp [afterTurn, htasks]
      rw [← hafter]
      refine h.turn hcode hr fun huri earlier hearlier hearlierUri => ?_
      have htake : earlier.task ∈ p.tasks.take before.length := by
        simpa [htasks] using ⟨earlier, hearlier, rfl⟩
      obtain ⟨hbegin, hsettle⟩ := horder e.task hn huri earlier.task htake hearlierUri
      refine ⟨hbegin, fun hbegun hnot hrest => hsettle hbegun hnot fun t' ht' => ?_⟩
      -- That nothing about documents is left of the call can be seen when its turn is over.
      have hturned : p.turn before.length = afterTurn p before behind e.task.call r :=
        hp'.trans hafter.symm
      have htask : Task.of p.now e.task.call r.rest = t' := by
        simpa [hturned, afterTurn] using ht'
      rw [← htask]
      exact hrest

/-- What both sides have to do with a document when no call owes anything. -/
theorem Ahead.agrees (h : Ahead code uri p entries)
    (hover : ∀ t ∈ p.tasks, t.call.uri = uri → IsSettled t) : p.state.Agrees uri := by
  have hnothing : owed uri entries = [] := by
    refine owed_eq_nil fun e he => ?_
    simp only [Entry.owes, decide_eq_false_iff_not, not_and]
    intro hphase huri
    have howing := h.fits e he
    rw [Entry.Fits, hphase] at howing
    have htask : e.task ∈ p.tasks := h.tasks ▸ List.mem_map_of_mem he
    exact not_within_of_once p.state howing.2 (hover e.task htask huri)
  have hcontent : p.state.editorSide uri = p.state.serverSide uri := by
    rw [h.sides, hnothing]
    rfl
  refine ⟨?_, hcontent⟩
  rw [← h.named.isSome_get?]
  simpa [World.editorSide, World.serverSide, Rpc.Client.content] using
    congrArg (Option.isSome · = true) hcontent.symm

/-- When all calls about a document are over, and they kept their order, both sides agree on it. -/
theorem agrees_of_keepsOrder (hcode : code.SparesDocuments) {w : World χ}
    (hnamed : w.api.documents.Named) (hagrees : w.Agrees uri)
    {moves : List (Move DocumentCall (Disturbance χ))}
    (horder : (documentCalls code).Along (KeepsOrder code uri) { state := w } moves)
    (hover : ∀ t ∈ ((documentCalls code).run { state := w } moves).tasks,
      t.call.uri = uri → IsSettled t) :
    ((documentCalls code).run { state := w } moves).state.Agrees uri := by
  have hstart : Ahead code uri { state := w } [] :=
    ⟨rfl, fun _ he => (nomatch he), hnamed, .nil, hagrees.content⟩
  obtain ⟨entries, h⟩ := System.run_invariant_along
    (I := fun p => ∃ entries, Ahead code uri p entries)
    (fun p move p' hmove hp' hstep ⟨entries, h⟩ => h.step hcode hmove hp' hstep)
    ⟨[], hstart⟩ horder
  exact h.agrees hover

/-! ## Two runs -/

/-- A call keeps the order when it is made and begins at once, after all others have begun. -/
theorem keepsOrder_start {n : Nat} (hn : p.tasks.length = n)
    (hbegun : ∀ t ∈ p.tasks, t.rest.atRest = true) (call : DocumentCall) :
    KeepsOrder code uri ((documentCalls code).step p (.start call)) (.turn n) := by
  subst hn
  intro t ht _ earlier hearlier _
  have htask : Task.of p.now call (call.flow code) = t := by
    simpa [System.step, documentCalls] using ht
  have hmem : earlier ∈ p.tasks := by
    simpa [System.step] using hearlier
  exact ⟨fun _ => not_isFresh (hbegun earlier hmem), fun hnot => absurd (htask ▸ rfl) hnot⟩

/-- A call keeps the order when all earlier ones are over. -/
theorem keepsOrder_turn {n : Nat} (hover : ∀ t ∈ p.tasks.take n, t.rest.isDone = true) :
    KeepsOrder code uri p (.turn n) := by
  intro t _ _ earlier hearlier _
  have hdone := hover earlier hearlier
  have hatRest : earlier.rest.atRest = true := by
    obtain ⟨value, hrest⟩ := Flow.eq_done_of_isDone hdone
    rw [hrest]
    rfl
  exact ⟨fun _ => not_isFresh hatRest, fun _ _ _ => isSettled_of_isDone hdone⟩

/-- Code whose entry modules take a while to become active. -/
def slowCode : Code Unit :=
  { Code.idle with
    entry := fun _ => some
      { activate := fun _ => (Flow.sleep 10).bind fun _ => .done (.returned .null)
        deactivate := .done (.returned ()) } }

theorem sparesDocuments_slowCode : slowCode.SparesDocuments where
  listener _ _ := SameDocuments.refl
  undo _ := SameDocuments.refl
  activate id entry hentry context := by
    cases hentry
    exact fun _ => trivial

/-- A world with extensions that are to be activated for Python. -/
def pythonWorld (ids : List String) : World Unit where
  disk := .empty
  api := {}
  host :=
    { layout := .ofDataDir ⟨"/data"⟩
      queues := [[]]
      extensions := ids.map fun id => (id,
        { path := ⟨"/" ++ id⟩
          manifest := { main := some "main.js", activationEvents := ["onLanguage:python"] }
          isBuiltin := false
          queue := 0 }) }
  client := { settings := ⟨30000, []⟩ }
  own := ()

theorem agrees_pythonWorld (ids : List String) (uri : String) : (pythonWorld ids).Agrees uri :=
  ⟨Iff.rfl, rfl⟩

/-- A document is changed before the language servers' side knows that it is open. -/
def overlapping : List (Move DocumentCall (Disturbance Unit)) :=
  [.start (.didOpen "file:///a.py" "python" "x = 1" 1), .turn 0,
    .start (.didChange "file:///a.py" [] "x = 2"), .turn 1,
    .turn 0, .turn 0, .turn 0, .turn 0, .turn 1, .turn 1]

theorem agrees_overlapping :
    let w := ((documentCalls slowCode).run { state := pythonWorld [] } overlapping).state
    w.Agrees "file:///a.py" ∧ w.serverSide "file:///a.py" = some ⟨"python", "x = 2"⟩ := by
  have hfirst (p : Pool DocumentCall (World Unit) Unit) :
      KeepsOrder slowCode "file:///a.py" p (.turn 0) :=
    keepsOrder_turn fun t ht => (List.not_mem_nil ht).elim
  refine ⟨agrees_of_keepsOrder sparesDocuments_slowCode DocumentStore.named_empty
    (agrees_pythonWorld [] _) ?_ ?_, by decide +kernel⟩
  · refine ⟨trivial, hfirst _, trivial, ?_, hfirst _, hfirst _, hfirst _, hfirst _, ?_, ?_, trivial⟩
    · exact keepsOrder_start (by decide +kernel) (List.all_eq_true.mp (by decide +kernel)) _
    · exact keepsOrder_turn (List.all_eq_true.mp (by decide +kernel))
    · exact keepsOrder_turn (List.all_eq_true.mp (by decide +kernel))
  · intro t ht _
    have hover : ((documentCalls slowCode).run { state := pythonWorld [] } overlapping).tasks.all
        (fun t => t.rest.isDone) = true := by decide +kernel
    exact isSettled_of_isDone (List.all_eq_true.mp hover t ht)

/-- A document is closed while an extension is activated because it was opened. -/
def overtaking : List (Move DocumentCall (Disturbance Unit)) :=
  [.start (.didOpen "file:///a.py" "python" "x = 1" 1), .turn 0, .turn 0, .turn 1, .turn 1, .turn 1,
    .start (.didClose "file:///a.py"), .turn 2, .turn 2,
    .pass 10, .turn 1, .turn 1, .turn 0, .turn 0, .turn 0, .turn 0]

/-- The closing overtakes the opening: all is over, and only the language servers' side still tracks
the document. -/
theorem not_agrees_overtaken :
    slowCode.SparesDocuments ∧ (pythonWorld ["me.py"]).Agrees "file:///a.py" ∧
      let p := (documentCalls slowCode).run { state := pythonWorld ["me.py"] } overtaking
      (∀ t ∈ p.tasks, t.rest.isDone = true) ∧ ¬p.state.Agrees "file:///a.py" := by
  refine ⟨sparesDocuments_slowCode, agrees_pythonWorld _ _, ?_, fun hagrees => ?_⟩
  · exact List.all_eq_true.mp (by decide +kernel)
  · have htracked : ((documentCalls slowCode).run { state := pythonWorld ["me.py"] }
        overtaking).state.serverSide "file:///a.py" = some ⟨"python", "x = 1"⟩ := by decide +kernel
    have hforgotten : ((documentCalls slowCode).run { state := pythonWorld ["me.py"] }
        overtaking).state.editorSide "file:///a.py" = none := by decide +kernel
    have hcontent := hagrees.content
    rw [htracked, hforgotten] at hcontent
    cases hcontent

end DocumentCall

end EditorHost
