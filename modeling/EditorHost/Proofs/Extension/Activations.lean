import EditorHost.Proofs.Extension.Reactivation
import EditorHost.Proofs.Interference

/-!
# Activations that are under way together

An event activates several extensions at the same time.  Each of them takes a ticket of its own
queue, where nobody else waits, makes its folders, runs its entry module, and marks its extension as
active; then it notes that it has done so.  In between the other activations go on, and whatever
the entry modules have started on the side.

What an entry module comes to must not depend on what the others do (`FanOut.Isolated`).  What it
may see of them is a relation between states that it relies on, to which the others keep and which
nothing else is known of: it may be different for every extension.

## Contents

* `FanOut` is the setting, and `FanOut.Isolated` what is assumed of the entry modules.
* `FanOut.Stage` says how far an activation has come, and `FanOut.Sound` how the world stands to it.
* `FanOut.exists_turned`: an activation that takes a turn comes to another stage.
* `FanOut.Sound.passed` and `FanOut.Sound.aside`: the others stay at theirs.
-/

namespace EditorHost

open Flow (Reaches Settles Prompt)
open Interleaving (Move Pool System Task)
open World (hostPart)

variable {χ : Type}

/-! ## The setting -/

namespace World

/-- The host's books are as they were, but for contexts, and nothing was told about extensions. -/
structure SparesBooks (s t : World χ) : Prop extends s.SameHost t where
  joined : t.host.joined = s.host.joined
  told : t.events.count .extensionsChanged = s.events.count .extensionsChanged

/-- Only the host's books on extensions are others than they were, and something may have been
told. -/
structure BooksOnly (s t : World χ) : Prop where
  disk : t.disk = s.disk
  log : t.log = s.log
  api : t.api = s.api
  client : t.client = s.client
  own : t.own = s.own
  layout : t.host.layout = s.host.layout
  disabled : t.host.disabled = s.host.disabled
  processes : t.host.processes = s.host.processes
  contexts : t.host.contexts = s.host.contexts

theorem SparesBooks.refl (s : World χ) : s.SparesBooks s := ⟨.refl s, rfl, rfl⟩

theorem SparesBooks.trans {s t u : World χ} (h : s.SparesBooks t) (h' : t.SparesBooks u) :
    s.SparesBooks u where
  extensions := h'.extensions.trans h.extensions
  disabled := h'.disabled.trans h.disabled
  queues := h'.queues.trans h.queues
  tickets := h'.tickets.trans h.tickets
  joined := h'.joined.trans h.joined
  told := h'.told.trans h.told

end World

/-- The entry module that an activation of an extension runs: the extension has to declare one, and
it has to be there and to be built. -/
def Code.moduleOf (code : Code χ) (id : String) (manifest : Manifest) : Option (Module χ) :=
  if manifest.main.isSome then (code.entry id).filter Module.builds else none

theorem Code.entry_of_moduleOf {code : Code χ} {id : String} {m : Manifest} {entry : Module χ}
    (h : code.moduleOf id m = some entry) : code.entry id = some entry := by
  unfold Code.moduleOf at h
  split at h
  · exact (Option.filter_eq_some_iff.mp h).1
  · cases h

theorem World.enter_eq (code : Code χ) (id : String) (manifest : Manifest) (context : ContextId) :
    enter code id manifest context = match code.moduleOf id manifest with
      | some entry => (entry.activate context).bind fun outcome =>
        .done (outcome.value?.getD .null, true)
      | none => .done (.null, false) := by
  unfold enter Code.moduleOf build
  cases manifest.main with
  | none => rfl
  | some main =>
      cases code.entry id with
      | none => rfl
      | some entry => cases hbuilds : entry.builds <;> simp [Option.filter, hbuilds]

/-- An event in a world, what comes of each extension's entry module, and what it relies on
meanwhile. -/
structure FanOut (χ : Type) where
  code : Code χ
  world : World χ
  event : String
  outcome : String → Outcome Json
  /-- How a state may differ from the one that the entry module of an extension left at a wait. -/
  rely : String → World χ → World χ → Prop

namespace FanOut

variable (F : FanOut χ)

/-- The extensions that are to be activated. -/
def ids : List String := F.world.host.candidates F.event !F.world.api.folders.isEmpty

/-- What an extension exports behind its activation: what its entry module returned, if there is one
that was built and returned something. -/
def exports (id : String) (manifest : Manifest) : Json :=
  match F.code.moduleOf id manifest, F.outcome id with
  | some _, .returned value => value
  | _, _ => .null

/-- What an extension is behind its activation. -/
def activated (id : String) (e : Extension) (context : ContextId) : Extension :=
  { e with
    isActive := true
    exports := F.exports id e.manifest
    hasModule := (F.code.moduleOf id e.manifest).isSome
    context := some context }

/-- What the entry module of an extension does: it has no way to the host's books, and keeps to what
the others rely on. -/
def Own (id : String) (s t : World χ) : Prop :=
  s.SparesBooks t ∧ ∀ other ∈ F.ids, other ≠ id → F.rely other s t

/-- What an entry module starts on the side does; the entry module itself relies on it, too. -/
def Side (s t : World χ) : Prop := s.SparesBooks t ∧ ∀ id ∈ F.ids, F.rely id s t

/-- An entry module comes to its outcome whatever the others do, and the folders of its extension
can be made. -/
structure Isolated : Prop where
  refl : ∀ id s, F.rely id s s
  trans : ∀ id s t u, F.rely id s t → F.rely id t u → F.rely id s u
  /-- The host writes its books. -/
  books : ∀ id s t, s.BooksOnly t → F.rely id s t
  /-- The folders of the others are made. -/
  folders : ∀ id, ∀ other ∈ F.ids, other ≠ id → ∀ path s,
    F.rely id s (World.makeContext other path s).2
  room : ∀ id ∈ F.ids, ∀ s, F.rely id F.world s → s.CanMake id
  settles : ∀ id ∈ F.ids, ∀ e, F.world.host.find? id = some e → ∀ entry,
    F.code.moduleOf id e.manifest = some entry → ∀ s, F.rely id F.world s → ∀ context,
    (World.makeContext id e.path s).1 = some context →
    (entry.activate context).Settles (F.rely id) (F.Own id) F.Side (F.outcome id)
      (World.makeContext id e.path s).2

/-- No entry module has to wait where no time is set. -/
def IsPrompt : Prop :=
  ∀ id ∈ F.ids, ∀ e, F.world.host.find? id = some e → ∀ entry,
    F.code.moduleOf id e.manifest = some entry → ∀ s, F.rely id F.world s → ∀ context,
    (World.makeContext id e.path s).1 = some context →
    (entry.activate context).Prompt (F.rely id) (World.makeContext id e.path s).2

/-! ## What is left of each activation -/

/-- The number under which the results are noted. -/
def join : Nat := F.world.host.joined.length

/-- How far an activation has come. -/
inductive Stage (χ : Type) where
  | fresh
  | inLine (ticket : Nat)
  | called (ticket : Nat)
  | entered (ticket : Nat) (context : ContextId) (rest : Flow (World χ) (Json × Bool))
  | through (context : ContextId)

/-- An activation whose result is noted. -/
def noting (id : String) (flow : Flow (World χ) Bool) : Flow (World χ) (List String) :=
  (flow.bind fun active => .sync (hostPart.zoom (World.noteJoined F.join id active))).bind
    fun _ => .done default

/-- An activation behind which a ticket is given back. -/
def leaving (id : String) (e : Extension) (ticket : Nat) (flow : Flow (World χ) Bool) :
    Flow (World χ) (List String) :=
  F.noting id (flow.bind fun active =>
    (Flow.sync (hostPart.zoom fun h => ((), h.giveBack e.queue ticket))).bind fun _ =>
      .done active)

/-- What comes behind the entry module. -/
def arriving (id : String) (context : ContextId) (result : Json × Bool) : Flow (World χ) Bool :=
  Flow.pause.bind fun _ =>
    (Flow.sync (hostPart.zoom (World.becomeActive id result.1 result.2 context))).bind fun found =>
      if found then (Flow.sync (World.emit [.extensionsChanged])).bind fun _ => .done true
      else (Flow.sync (World.disposeContext F.code context)).bind fun _ => .done false

/-- What is left of an activation. -/
def left (id : String) (e : Extension) : Stage χ → Flow (World χ) (List String)
  | .fresh => F.noting id (World.activate F.code id false)
  | .inLine ticket =>
    (Flow.untilReady fun w => w.host.isTurnOf e.queue ticket).bind fun _ =>
      F.leaving id e ticket (World.activateInTurn F.code id e.path e.manifest)
  | .called ticket => F.leaving id e ticket (World.activateInTurn F.code id e.path e.manifest)
  | .entered ticket context rest =>
    rest.bind fun result => F.leaving id e ticket (F.arriving id context result)
  | .through _ => .done default

/-- Who waits for the extension's queue. -/
def Stage.line : Stage χ → List Nat
  | fresh | through _ => []
  | inLine ticket | called ticket | entered ticket _ _ => [ticket]

/-- What the extension is. -/
def record (id : String) (e : Extension) : Stage χ → Extension
  | .through context => F.activated id e context
  | _ => e

/-- What is known of the way to a stage. -/
def Story (id : String) (e : Extension) (s : World χ) : Stage χ → Prop
  | .fresh | .inLine _ | .called _ => F.rely id F.world s
  | .entered _ context rest =>
    rest.atRest = true ∧ ∃ s₀ t, F.rely id F.world s₀ ∧
      (World.makeContext id e.path s₀).1 = some context ∧
      Reaches (F.rely id) (World.enter F.code id e.manifest context)
        (World.makeContext id e.path s₀).2 rest t ∧ F.rely id t s
  | .through _ => True

/-- How the world stands to an activation that has come to a stage. -/
structure Sound (id : String) (e : Extension) (results : List (String × Bool)) (stage : Stage χ)
    (s : World χ) : Prop where
  record : s.host.find? id = some (F.record id e stage)
  line : s.host.queues[e.queue]? = some stage.line
  noted : (id, true) ∈ results ↔ ∃ context, stage = .through context
  story : F.Story id e s stage

/-- What a turn of an activation leaves to the others, and what it notes. -/
structure Passes (id : String) (e : Extension) (noted : List (String × Bool)) (s t : World χ) :
    Prop where
  find : ∀ other, other ≠ id → t.host.find? other = s.host.find? other
  queues : ∀ queue, queue ≠ e.queue → t.host.queues[queue]? = s.host.queues[queue]?
  disabled : t.host.disabled = s.host.disabled
  joined : t.host.joined[F.join]? = (s.host.joined[F.join]?).map (· ++ noted)
  told : t.events.count .extensionsChanged =
    s.events.count .extensionsChanged + noted.length
  rely : ∀ other ∈ F.ids, other ≠ id → F.rely other s t

/-- What a turn of an activation comes to. -/
structure Turned (id : String) (e : Extension) (results : List (String × Bool)) (s : World χ)
    (r : Flow.Stretch (World χ) (List String)) (stage : Stage χ) (noted : List (String × Bool)) :
    Prop where
  rest : r.rest = F.left id e stage
  sound : F.Sound id e (results ++ noted) stage r.state
  passes : F.Passes id e noted s r.state
  started : ∀ child ∈ r.started, child.Within F.Side
  noted : noted = [] ∨ noted = [(id, true)] ∧ (id, true) ∉ results

/-! ## Who is concerned -/

section Concerned

variable {F}

theorem mem_ids (hsorted : F.world.host.extensions.Sorted) {id : String} :
    id ∈ F.ids ↔ ∃ e, F.world.host.find? id = some e ∧ e.isActive = false ∧
      F.world.host.isDisabled id = false ∧
      e.manifest.activatesOn F.event (!F.world.api.folders.isEmpty) = true := by
  simp only [ids, Host.candidates, List.mem_map, List.mem_filter, Bool.and_eq_true,
    Bool.not_eq_true', Prod.exists, exists_and_right, exists_eq_right]
  constructor
  · rintro ⟨e, hmem, ⟨hinactive, henabled⟩, hwants⟩
    exact ⟨e, hsorted.find?_of_mem hmem, hinactive, henabled, hwants⟩
  · rintro ⟨e, hfind, hinactive, henabled, hwants⟩
    exact ⟨e, Table.mem_of_find? hfind, ⟨hinactive, henabled⟩, hwants⟩

theorem nodup_ids (hsorted : F.world.host.extensions.Sorted) : F.ids.Nodup := by
  have hless : F.ids.Pairwise (· < ·) := hsorted.filter _
  refine List.Pairwise.imp ?_ hless
  rintro id other hlt rfl
  exact String.lt_irrefl id hlt

end Concerned

/-! ## What the others see -/

section Others

variable {F} {id other : String} {e e' : Extension} {s t u : World χ} {stage : Stage χ}
  {results noted : List (String × Bool)}

theorem Isolated.own_refl (hF : F.Isolated) (id : String) (s : World χ) : F.Own id s s :=
  ⟨.refl s, fun other _ _ => hF.refl other s⟩

theorem Isolated.own_trans (hF : F.Isolated) (h : F.Own id s t) (h' : F.Own id t u) :
    F.Own id s u :=
  ⟨h.1.trans h'.1, fun other hmem hne =>
    hF.trans _ _ _ _ (h.2 other hmem hne) (h'.2 other hmem hne)⟩

theorem Isolated.side_refl (hF : F.Isolated) (s : World χ) : F.Side s s :=
  ⟨.refl s, fun id _ => hF.refl id s⟩

theorem Isolated.side_trans (hF : F.Isolated) (h : F.Side s t) (h' : F.Side t u) : F.Side s u :=
  ⟨h.1.trans h'.1, fun id hmem => hF.trans _ _ _ _ (h.2 id hmem) (h'.2 id hmem)⟩

/-- The folders of an extension are made. -/
theorem Isolated.own_makeContext (hF : F.Isolated) (hid : id ∈ F.ids) (path : Path)
    (s : World χ) : F.Own id s (World.makeContext id path s).2 := by
  refine ⟨⟨(World.sameHost_makeContext id path s).1, ?_, ?_⟩,
    fun other hmem hne => hF.folders other id hid (Ne.symm hne) path s⟩
  · unfold World.makeContext
    split <;> rfl
  · unfold World.makeContext
    split <;> rfl

theorem Own.passes (h : F.Own id s t) : F.Passes id e [] s t where
  find other _ := by rw [Host.find?, h.1.extensions]; rfl
  queues queue _ := by rw [h.1.queues]
  disabled := h.1.disabled
  joined := by simp [h.1.joined]
  told := h.1.told
  rely := h.2

theorem Story.mono (hF : F.Isolated) (hrely : F.rely id s t) (h : F.Story id e s stage) :
    F.Story id e t stage := by
  cases stage with
  | fresh => exact hF.trans _ _ _ _ h hrely
  | inLine ticket => exact hF.trans _ _ _ _ h hrely
  | called ticket => exact hF.trans _ _ _ _ h hrely
  | entered ticket context rest =>
      obtain ⟨hrest, s₀, t₀, hstart, hmake, hreaches, hsince⟩ := h
      exact ⟨hrest, s₀, t₀, hstart, hmake, hreaches, hF.trans _ _ _ _ hsince hrely⟩
  | through context => trivial

/-- An activation stands as it stood when another one has taken a turn. -/
theorem Sound.passed (hF : F.Isolated) (h : F.Sound other e' results stage s)
    (hpasses : F.Passes id e noted s t) (hother : other ∈ F.ids) (hne : other ≠ id)
    (hqueue : e'.queue ≠ e.queue) (hnoted : noted = [] ∨ noted = [(id, true)]) :
    F.Sound other e' (results ++ noted) stage t where
  record := (hpasses.find other hne).trans h.record
  line := (hpasses.queues _ hqueue).trans h.line
  noted := by
    rw [← h.noted, List.mem_append, or_iff_left]
    rcases hnoted with rfl | rfl
    · exact List.not_mem_nil
    · simp [hne]
  story := h.story.mono hF (hpasses.rely other hother hne)

/-- An activation stands as it stood when something else has been done on the side. -/
theorem Sound.aside (hF : F.Isolated) (h : F.Sound id e results stage s) (hside : F.Side s t)
    (hid : id ∈ F.ids) : F.Sound id e results stage t where
  record := by rw [Host.find?, hside.1.extensions]; exact h.record
  line := by rw [hside.1.queues]; exact h.line
  noted := h.noted
  story := h.story.mono hF (hside.2 id hid)

end Others

/-! ## Turns of an activation -/

section Turns

variable {F} {id : String} {e : Extension} {s : World χ} {results : List (String × Bool)}
  {ticket : Nat} {context : ContextId} {stage : Stage χ}

theorem stretch_fresh (hrecord : s.host.find? id = some e) (hinactive : e.isActive = false)
    (henabled : s.host.isDisabled id = false) : ((F.left id e .fresh).wake s).stretch s =
      ⟨s.ticketed e.queue, F.left id e (.inLine s.host.tickets), []⟩ := by
  simp only [left, noting, leaving, World.activate, World.inTurn, Flow.bind_eq, Flow.pure_eq,
    Flow.bind_assoc, Flow.wake_pause_bind, Flow.stretch_read_bind, hrecord, hinactive, henabled,
    Bool.and_false, Bool.false_eq_true, if_false, Flow.stretch_sync_bind, Flow.bind]
  rfl

/-- What comes behind an entry module begins with a wait. -/
theorem waiting_leaving (result : Json × Bool) : ∃ ready limit next,
    F.leaving id e ticket (F.arriving id context result) = .await ready limit next :=
  ⟨_, _, _, rfl⟩

theorem stretch_called (hrecord : s.host.find? id = some e) (hinactive : e.isActive = false)
    (hmake : (World.makeContext id e.path s).1 = some context) :
    ((F.left id e (.called ticket)).wake s).stretch s =
      let r := (World.enter F.code id e.manifest context).stretch (World.makeContext id e.path s).2
      ⟨r.state, F.left id e (.entered ticket context r.rest), r.started⟩ := by
  simp only [left]
  rw [← Flow.stretch_bind_of_waiting _ waiting_leaving]
  simp only [noting, leaving, arriving, World.activateInTurn, Flow.bind_eq, Flow.pure_eq,
    Flow.bind_assoc, Flow.wake_pause_bind, Flow.stretch_read_bind, hrecord, hinactive,
    Bool.false_eq_true, if_false, Flow.stretch_sync_bind, hmake, Flow.bind]

/-- The world behind an activation. -/
def arrived (id : String) (e : Extension) (ticket : Nat) (context : ContextId)
    (result : Json × Bool) (s : World χ) : World χ :=
  { s with
    events := s.events ++ [.extensionsChanged]
    host := (World.noteJoined F.join id true ((s.host.modify id fun e => { e with
      isActive := true
      exports := result.1
      hasModule := result.2
      context := some context }).giveBack e.queue ticket)).2 }

theorem stretch_arriving (hrecord : s.host.find? id = some e) (result : Json × Bool) :
    ((F.left id e (.entered ticket context (.done result))).wake s).stretch s =
      ⟨F.arrived id e ticket context result s, F.left id e (.through context), []⟩ := by
  simp only [left, Flow.bind, noting, leaving, arriving, Flow.bind_assoc, Flow.wake_pause_bind,
    Flow.stretch_sync_bind, World.zoom_becomeActive hrecord, if_true]
  rfl

theorem booksOnly_ticketed (queue : QueueId) (s : World χ) : s.BooksOnly (s.ticketed queue) :=
  ⟨rfl, rfl, rfl, rfl, rfl, rfl, rfl, rfl, rfl⟩

theorem booksOnly_arrived (result : Json × Bool) :
    s.BooksOnly (F.arrived id e ticket context result s) :=
  ⟨rfl, rfl, rfl, rfl, rfl, rfl, rfl, rfl, rfl⟩

theorem Isolated.enter_settles (hF : F.Isolated) (hid : id ∈ F.ids)
    (hfind : F.world.host.find? id = some e) (hrely : F.rely id F.world s)
    (hmake : (World.makeContext id e.path s).1 = some context) :
    (World.enter F.code id e.manifest context).Settles (F.rely id) (F.Own id) F.Side
      (F.exports id e.manifest, (F.code.moduleOf id e.manifest).isSome)
      (World.makeContext id e.path s).2 := by
  rw [World.enter_eq]
  cases hmodule : F.code.moduleOf id e.manifest with
  | none =>
      have hexports : F.exports id e.manifest = .null := by simp [exports, hmodule]
      rw [hexports]
      exact Flow.settles_done _ _
  | some entry =>
      have hexports : F.exports id e.manifest = (F.outcome id).value?.getD .null := by
        rw [exports, hmodule]
        cases F.outcome id <;> rfl
      rw [hexports]
      exact (hF.settles id hid e hfind entry hmodule s hrely context hmake).bind_done fun outcome =>
        (outcome.value?.getD .null, true)

theorem IsPrompt.enter (hprompt : F.IsPrompt) (hid : id ∈ F.ids)
    (hfind : F.world.host.find? id = some e) (hrely : F.rely id F.world s)
    (hmake : (World.makeContext id e.path s).1 = some context) :
    (World.enter F.code id e.manifest context).Prompt (F.rely id)
      (World.makeContext id e.path s).2 := by
  rw [World.enter_eq]
  cases hmodule : F.code.moduleOf id e.manifest with
  | none => exact Flow.prompt_done _ _
  | some entry =>
      exact Prompt.bind_done (hprompt id hid e hfind entry hmodule s hrely context hmake)
        fun outcome => (outcome.value?.getD .null, true)

section Kinds

variable (hF : F.Isolated) (hid : id ∈ F.ids) (hfind : F.world.host.find? id = some e)

include hF in
theorem turned_fresh (hinactive : e.isActive = false) (henabled : s.host.isDisabled id = false)
    (h : F.Sound id e results .fresh s) :
    F.Turned id e results s (((F.left id e .fresh).wake s).stretch s) (.inLine s.host.tickets)
      [] := by
  have hrecord : s.host.find? id = some e := h.record
  rw [stretch_fresh hrecord hinactive henabled]
  have hbooks := booksOnly_ticketed e.queue s
  refine ⟨rfl, ⟨h.record, ?_, ?_, hF.trans _ _ _ _ h.story (hF.books _ _ _ hbooks)⟩, ?_,
    (fun child hchild => nomatch hchild), .inl rfl⟩
  · have hqueues : (s.ticketed e.queue).host.queues =
        s.host.queues.modify e.queue fun waiting => waiting ++ [s.host.tickets] := rfl
    rw [hqueues, List.getElem?_modify_eq, h.line]
    rfl
  · simpa using h.noted
  · refine ⟨fun other _ => rfl, fun queue hne => ?_, rfl, ?_, rfl,
      fun other _ _ => hF.books _ _ _ hbooks⟩
    · exact List.getElem?_modify_ne _ _ (Ne.symm hne)
    · have hjoined : (s.ticketed e.queue).host.joined = s.host.joined := rfl
      simp [hjoined]

include hF in
theorem turned_inLine (h : F.Sound id e results (.inLine ticket) s) :
    F.Turned id e results s (((F.left id e (.inLine ticket)).wake s).stretch s) (.called ticket)
      [] where
  rest := rfl
  sound := ⟨h.record, h.line, by simpa using h.noted, h.story⟩
  passes := Own.passes (hF.own_refl id s)
  started child hchild := nomatch hchild
  noted := .inl rfl

include hF hid hfind in
/-- An activation whose entry module has gone on. -/
theorem turned_inside {s₀ t : World χ} {rest : Flow (World χ) (Json × Bool)}
    (h : F.Sound id e results stage s) (hrecord : F.record id e stage = e)
    (hline : stage.line = [ticket]) (hnot : (id, true) ∉ results)
    (hrely : F.rely id F.world s₀) (hmake : (World.makeContext id e.path s₀).1 = some context)
    (hreaches : Reaches (F.rely id) (World.enter F.code id e.manifest context)
      (World.makeContext id e.path s₀).2 rest t) (hown : F.Own id s t) :
    F.Turned id e results s
      ⟨(rest.stretch t).state, F.left id e (.entered ticket context (rest.stretch t).rest),
        (rest.stretch t).started⟩
      (.entered ticket context (rest.stretch t).rest) [] := by
  have hsettles := hF.enter_settles hid hfind hrely hmake
  obtain ⟨hstretch, hstarted⟩ := hsettles.stretch (fun s => hF.own_refl id s)
    (fun s t u => hF.own_trans) hreaches
  have hall := hF.own_trans hown hstretch
  refine ⟨rfl, ⟨?_, ?_, ?_, Flow.atRest_stretch rest t, s₀, _, hrely, hmake, hreaches.stretch,
    hF.refl _ _⟩, Own.passes hall, hstarted, .inl rfl⟩
  · rw [Host.find?, hall.1.extensions]
    exact hrecord ▸ h.record
  · rw [hall.1.queues, h.line, hline]
    rfl
  · simpa using hnot

include hF hid hfind in
theorem turned_called (hinactive : e.isActive = false)
    (h : F.Sound id e results (.called ticket) s) : ∃ stage, F.Turned id e results s
      (((F.left id e (.called ticket)).wake s).stretch s) stage [] := by
  have hnot : (id, true) ∉ results := by simpa using h.noted
  obtain ⟨context, hmake⟩ := Option.isSome_iff_exists.mp (hF.room id hid s h.story e.path)
  have hrecord : s.host.find? id = some e := h.record
  rw [stretch_called hrecord hinactive hmake]
  exact ⟨_, turned_inside hF hid hfind h rfl rfl hnot h.story hmake .here
    (hF.own_makeContext hid e.path s)⟩

include hF hid hfind in
theorem turned_entered {ready : World χ → Bool} {limit : Option Nat}
    {next : Bool → Flow (World χ) (Json × Bool)} {now since : Nat}
    (h : F.Sound id e results (.entered ticket context (.await ready limit next)) s)
    (hready : (Flow.await ready limit next).canGoOn now s
      ((Flow.await ready limit next).waitEnd since) = true) :
    ∃ stage, F.Turned id e results s
      (((F.left id e (.entered ticket context (.await ready limit next))).wake s).stretch s) stage
      [] := by
  have hnot : (id, true) ∉ results := by simpa using h.noted
  obtain ⟨-, s₀, t, hrely, hmake, hreaches, hsince⟩ := h.story
  have hwake : (F.left id e (.entered ticket context (.await ready limit next))).wake s =
      ((Flow.await ready limit next).wake s).bind fun result =>
        F.leaving id e ticket (F.arriving id context result) := rfl
  rw [hwake, Flow.stretch_bind_of_waiting s waiting_leaving]
  exact ⟨_, turned_inside hF hid hfind h rfl rfl hnot hrely hmake (hreaches.wake hsince hready)
    (hF.own_refl id s)⟩

include hF hid hfind in
theorem turned_arriving {result : Json × Bool}
    (h : F.Sound id e results (.entered ticket context (.done result)) s) :
    F.Turned id e results s
      (((F.left id e (.entered ticket context (.done result))).wake s).stretch s) (.through context)
      [(id, true)] := by
  have hnot : (id, true) ∉ results := by simpa using h.noted
  obtain ⟨-, s₀, t, hrely, hmake, hreaches, -⟩ := h.story
  have hresult := (hF.enter_settles hid hfind hrely hmake).done hreaches
  have hrecord : s.host.find? id = some e := h.record
  rw [stretch_arriving hrecord]
  have hbooks : s.BooksOnly (F.arrived id e ticket context result s) := booksOnly_arrived result
  have hfound (other : String) := Host.find?_modify s.host id other fun e => { e with
    isActive := true, exports := result.1, hasModule := result.2, context := some context }
  refine ⟨rfl, ⟨?_, ?_, by simp, trivial⟩, ?_, (fun child hchild => nomatch hchild),
    .inr ⟨rfl, hnot⟩⟩
  · refine (hfound id).trans ?_
    rw [if_pos rfl, hrecord, hresult]
    rfl
  · have hqueues : (F.arrived id e ticket context result s).host.queues =
        s.host.queues.modify e.queue fun waiting => waiting.erase ticket := rfl
    rw [hqueues, List.getElem?_modify_eq, h.line]
    simp [Stage.line]
  · refine ⟨fun other hne => (hfound other).trans (if_neg hne), fun queue hne => ?_, rfl, ?_, ?_,
      fun other _ _ => hF.books _ _ _ hbooks⟩
    · exact List.getElem?_modify_ne _ _ (Ne.symm hne)
    · exact List.getElem?_modify_eq _ _ _
    · exact List.count_append

include hF hid hfind in
/-- An activation that can go on comes to another stage. -/
theorem exists_turned (hinactive : e.isActive = false) (henabled : s.host.isDisabled id = false)
    (h : F.Sound id e results stage s) {now since : Nat}
    (hready : (F.left id e stage).canGoOn now s ((F.left id e stage).waitEnd since) = true) :
    ∃ stage' noted, F.Turned id e results s (((F.left id e stage).wake s).stretch s) stage'
      noted := by
  cases stage with
  | fresh => exact ⟨_, _, turned_fresh hF hinactive henabled h⟩
  | inLine ticket => exact ⟨_, _, turned_inLine hF h⟩
  | called ticket =>
      obtain ⟨stage, hturned⟩ := turned_called hF hid hfind hinactive h
      exact ⟨stage, [], hturned⟩
  | entered ticket context rest =>
      cases rest with
      | done result => exact ⟨_, _, turned_arriving hF hid hfind h⟩
      | await ready limit next =>
          obtain ⟨stage, hturned⟩ := turned_entered hF hid hfind h hready
          exact ⟨stage, [], hturned⟩
      | act change next => exact nomatch h.story.1
      | fork rank child next => exact nomatch h.story.1
  | through context => exact nomatch hready

end Kinds

end Turns

end FanOut

end EditorHost
