import EditorHost.Proofs.Extension.Housekeeping
import EditorHost.Proofs.Extension.Installing
import EditorHost.Proofs.Interference
import EditorHost.Proofs.Uninterrupted

/-!
# Extensions that are loaded at the same time

A load looks whether its extension is there, and if not, it registers the extension two waits later,
without a second look.  In between, another load of the same identifier may register it, and it may
become active; the first load then puts an inactive extension in its place, and nobody disposes of
the context of the one that was there (`LoadingCall.load_replaces`).

This is the only way in which an extension is replaced.  Among the calls that load extensions or
activate them, exactly those replace an extension that had looked for it before it was there, and
have yet to register it (`LoadingCall.replaced_iff_about`).  So if no such call is under way when an
extension is registered, it stays as it is but for its activation, and nobody is told of it again.

## Contents

* `LoadingCall` are the calls, `loadingCalls` is their system.
* `World.Tours` is work that loads folders, `World.Loading` says how far it has come, and
  `World.Loading.turn` what a turn of it does.
* `LoadingCall.AboutTo` says which call has missed an extension, and has yet to register it.
* `LoadingCall.Behind` holds of a pool and of those that it may come to, and `LoadingCall.Deals`
  says what a turn does there.
-/

namespace EditorHost

open Interleaving (Move Pool System Task)

variable {χ : Type}

/-! ## The calls -/

/-- A call upon which extensions are loaded, or one becomes active. -/
inductive LoadingCall where
  | load (path : Path)
  | discover
  | activate (id : String) (force : Bool)

namespace LoadingCall

/-- What the call does; nobody asks for its value. -/
def flow (code : Code χ) : LoadingCall → Flow (World χ) Unit
  | load path => do let _ ← World.load path
  | discover => do let _ ← World.discover
  | activate id force => do let _ ← World.activate code id force

def loads : LoadingCall → Bool
  | load _ | discover => true
  | activate .. => false

end LoadingCall

/-- The calls as a system.  Whatever else happens meanwhile changes the world in some way. -/
def loadingCalls (code : Code χ) : System LoadingCall (World χ → World χ) (World χ) Unit where
  flow := LoadingCall.flow code
  outside change := change

/-! ## Records that are kept -/

/-- Every loaded extension has a queue. -/
def Host.HasQueues (h : Host) : Prop := ∀ id e, h.find? id = some e → e.queue < h.queues.length

namespace World

/-- Nothing is registered, and nothing is forgotten. -/
structure KeepsRecords (w w' : World χ) : Prop where
  length : w'.host.queues.length = w.host.queues.length
  queue : ∀ id, (w'.host.find? id).map Extension.queue = (w.host.find? id).map Extension.queue

namespace KeepsRecords

variable {w w' w'' : World χ}

theorem refl (w : World χ) : w.KeepsRecords w := ⟨rfl, fun _ => rfl⟩

theorem trans (w w' w'' : World χ) (h : w.KeepsRecords w') (h' : w'.KeepsRecords w'') :
    w.KeepsRecords w'' :=
  ⟨h'.length.trans h.length, fun id => (h'.queue id).trans (h.queue id)⟩

theorem of_eq (hextensions : w'.host.extensions = w.host.extensions)
    (hqueues : w'.host.queues = w.host.queues) : w.KeepsRecords w' :=
  ⟨by rw [hqueues], fun id => by rw [Host.find?, Host.find?, hextensions]⟩

theorem modify (w : World χ) (id : String) {change : Extension → Extension}
    (hqueue : ∀ e, (change e).queue = e.queue) :
    w.KeepsRecords (hostPart.modify (fun h => h.modify id change) w) := by
  refine ⟨rfl, fun other => ?_⟩
  show ((w.host.modify id change).find? other).map _ = _
  rw [Host.find?_modify]
  split
  · rw [Option.map_map]
    exact congrArg (Option.map · _) (funext hqueue)
  · rfl

theorem isSome (h : w.KeepsRecords w') (id : String) :
    (w'.host.find? id).isSome = (w.host.find? id).isSome := by
  rw [← Option.isSome_map, h.queue, Option.isSome_map]

theorem hasQueues (h : w.KeepsRecords w') (hw : w.host.HasQueues) : w'.host.HasQueues := by
  intro id e' he'
  have hqueue := h.queue id
  rw [he', Option.map_some, eq_comm, Option.map_eq_some_iff] at hqueue
  obtain ⟨e, he, hsame⟩ := hqueue
  exact hsame ▸ h.length.symm ▸ hw id e he

theorem rules {code : Code χ} (hcode : code.SparesHost) :
    HouseRules code (KeepsRecords (χ := χ)) (fun _ => True) (fun _ => True) where
  refl := .refl
  trans := .trans
  listener callback notice w :=
    have h := hcode.listener callback notice w
    .of_eq h.extensions h.queues
  undo callback w :=
    have h := hcode.undo callback w
    .of_eq h.extensions h.queues
  activate _ entry _ hentry context :=
    (hcode.activate _ entry hentry context).mono fun _ _ h => .of_eq h.extensions h.queues
  deactivate _ entry _ hentry :=
    (hcode.deactivate _ entry hentry).mono fun _ _ h => .of_eq h.extensions h.queues
  tends _ _ h := .of_eq h.extensions h.queues
  modify id _ w _ hqueue := .modify w id hqueue
  move _ _ _ _ _ _ := ⟨List.length_modify .., fun _ => rfl⟩

end KeepsRecords

/-- An extension is registered, whether it is there or not. -/
def Registers (id : String) (w w' : World χ) : Prop :=
  ∃ path manifest, manifest.id = id ∧ w' = register path manifest w

theorem isSome_register (path : Path) (manifest : Manifest) (w : World χ) (id : String)
    (h : (w.host.find? id).isSome = true) :
    ((register path manifest w).host.find? id).isSome = true := by
  rw [register, Host.find?_add]
  split
  · rfl
  · exact h

theorem length_register (path : Path) (manifest : Manifest) (w : World χ) :
    (register path manifest w).host.queues.length = w.host.queues.length + 1 := by
  simp [register, Host.add]

theorem hasQueues_register (path : Path) (manifest : Manifest) {w : World χ}
    (hw : w.host.HasQueues) : (register path manifest w).host.HasQueues := by
  intro id e he
  rw [length_register]
  rw [register, Host.find?_add] at he
  split at he
  · cases he
    exact Nat.lt_succ_self _
  · exact Nat.lt_succ_of_lt (hw id e he)

/-- It shows in the queues which extension is registered. -/
theorem Registers.queue {id : String} {w w' : World χ} (h : Registers id w w')
    (hw : w.host.HasQueues) :
    (w'.host.find? id).map Extension.queue ≠ (w.host.find? id).map Extension.queue := by
  obtain ⟨path, manifest, rfl, rfl⟩ := h
  rw [register, Host.find?_add, if_pos rfl]
  intro hsame
  obtain ⟨e, he, hqueue⟩ := Option.map_eq_some_iff.mp hsame.symm
  exact Nat.lt_irrefl _ (hqueue ▸ hw _ e he)

/-! ## Work that loads -/

/-- The last stretch of a load. -/
def registering (path : Path) (manifest : Manifest) (isDisabled : Bool) :
    Flow (World χ) (Except Fault Descriptor) := do
  let isBuiltin ← Flow.sync fun w =>
    let host := w.host.add manifest.id path manifest
    ((host.find? manifest.id).any Extension.isBuiltin, { w with host })
  Flow.sync (emit [.extensionsChanged])
  return .ok {
    id := manifest.id, path, manifest, isBuiltin, isDisabled, isActive := false, exports := .null }

/-- A load that has not found its extension. -/
def deciding (path : Path) (manifest : Manifest) : Flow (World χ) (Except Fault Descriptor) := do
  let isDisabled ← Flow.read fun w => w.host.isDisabled manifest.id
  Flow.pause
  registering path manifest isDisabled

/-- A load that looks whether its extension is there. -/
def looking (path : Path) (manifest : Manifest) : Flow (World χ) (Except Fault Descriptor) := do
  match ← Flow.read fun w => w.host.descriptor? manifest.id with
  | some descriptor => return .ok descriptor
  | none =>
    Flow.sync (apiPart.zoom fun api => ((), api.seed manifest.defaults))
    Flow.pause
    deciding path manifest

/-- Work that loads folders, one after another, and looks at the world in between. -/
inductive Tours : Flow (World χ) Unit → Prop
  | nothing : Tours (.done ())
  | look {α : Type} (view : World χ → α) {k : α → Flow (World χ) Unit}
      (h : ∀ value, Tours (k value)) : Tours ((Flow.read view).bind k)
  | load (path : Path) {k : Except Fault Descriptor → Flow (World χ) Unit}
      (h : ∀ result, Tours (k result)) : Tours ((World.load path).bind k)

/-- How far such work has come behind a turn, and what it has not found and registers next. -/
inductive Loading : Option String → Flow (World χ) Unit → Prop
  | touring {rest : Flow (World χ) Unit} (h : Tours rest) : Loading none rest
  /-- The manifest has been read. -/
  | identified (path : Path) (manifest : Manifest)
      {k : Except Fault Descriptor → Flow (World χ) Unit} (h : ∀ result, Tours (k result)) :
      Loading none (Flow.pause.bind fun _ => (looking path manifest).bind k)
  | missing (path : Path) (manifest : Manifest)
      {k : Except Fault Descriptor → Flow (World χ) Unit} (h : ∀ result, Tours (k result)) :
      Loading (some manifest.id) (Flow.pause.bind fun _ => (deciding path manifest).bind k)
  | decided (path : Path) (manifest : Manifest) (isDisabled : Bool)
      {k : Except Fault Descriptor → Flow (World χ) Unit} (h : ∀ result, Tours (k result)) :
      Loading (some manifest.id)
        (Flow.pause.bind fun _ => (registering path manifest isDisabled).bind k)

namespace Tours

theorem loadAll (paths : List Path) {k : List String → Flow (World χ) Unit}
    (h : ∀ ids, Tours (k ids)) : Tours ((World.loadAll paths).bind k) := by
  have heach (k : List (Except Fault Descriptor) → Flow (World χ) Unit)
      (hk : ∀ results, Tours (k results)) : Tours ((Flow.mapEach paths World.load).bind k) := by
    induction paths generalizing k with
    | nil => exact hk []
    | cons path paths ih =>
        simp only [Flow.mapEach, Flow.bind_assoc]
        exact .load path fun result => ih _ fun results => hk (result :: results)
  simp only [World.loadAll, Flow.bind_eq, Flow.bind_assoc]
  exact heach _ fun results => h _

theorem flow {code : Code χ} {call : LoadingCall} (hloads : call.loads = true) :
    Tours (call.flow code) := by
  cases call with
  | load path => exact .load path fun _ => .nothing
  | discover =>
      simp only [LoadingCall.flow, discover, Flow.bind_eq, Flow.bind_assoc]
      exact .look _ fun users => loadAll users fun _ => .look _ fun bundled =>
        loadAll bundled fun _ => .nothing
  | activate id force => cases hloads

/-- It begins at once, and not with a wait. -/
theorem wake {rest : Flow (World χ) Unit} (h : Tours rest) (w : World χ) : rest.wake w = rest := by
  cases h <;> rfl

/-- Up to its first wait it changes nothing, and it has not looked for an extension. -/
theorem stretch {rest : Flow (World χ) Unit} (h : Tours rest) (w : World χ) :
    ∃ later, rest.stretch w = ⟨w, later, []⟩ ∧ Loading none later := by
  induction h with
  | nothing => exact ⟨_, rfl, .touring .nothing⟩
  | look view h ih => exact ih (view w)
  | @load path k h ih =>
      simp only [World.load, Flow.bind_eq, Flow.bind_assoc, Flow.stretch_read_bind]
      cases Manifest.ofFolder w.disk path with
      | error fault => exact ih (.error fault)
      | ok manifest => exact ⟨_, rfl, .identified path manifest h⟩

end Tours

/-- The last stretch of a load, and what comes behind it up to the next wait. -/
theorem stretch_registering (path : Path) (manifest : Manifest) (isDisabled : Bool)
    {k : Except Fault Descriptor → Flow (World χ) Unit} (h : ∀ result, Tours (k result))
    (w : World χ) : ∃ later, ((registering path manifest isDisabled).bind k).stretch w =
      ⟨register path manifest w, later, []⟩ ∧ Loading none later :=
  (h (.ok {
    id := manifest.id, path, manifest, isDisabled, isActive := false, exports := .null
    isBuiltin := ((w.host.add manifest.id path manifest).find? manifest.id).any
      Extension.isBuiltin })).stretch (register path manifest w)

/-- What work that loads does in a turn, and what it then registers next. -/
inductive LoadTurn (w : World χ) : Option String → Option String → World χ → Prop
  | goesOn {next : Option String} : LoadTurn w next next w
  /-- The extension that it loads is not there. -/
  | misses (manifest : Manifest) (h : w.host.find? manifest.id = none) :
      LoadTurn w none (some manifest.id) { w with api := w.api.seed manifest.defaults }
  | registers (path : Path) (manifest : Manifest) :
      LoadTurn w (some manifest.id) none (register path manifest w)

theorem Loading.turn {next : Option String} {rest : Flow (World χ) Unit} (h : Loading next rest)
    (w : World χ) : ∃ w' later next', (rest.wake w).stretch w = ⟨w', later, []⟩ ∧
      LoadTurn w next next' w' ∧ Loading next' later := by
  cases h with
  | touring h =>
      obtain ⟨later, hstretch, hlater⟩ := h.stretch w
      rw [h.wake]
      exact ⟨w, later, none, hstretch, .goesOn, hlater⟩
  | @identified path manifest k h =>
      simp only [Flow.wake_pause_bind, looking, Flow.bind_eq, Flow.bind_assoc,
        Flow.stretch_read_bind]
      cases hfind : w.host.find? manifest.id with
      | some e =>
          have hfound : w.host.descriptor? manifest.id =
              some (w.host.describe manifest.id e) := by
            rw [Host.descriptor?, hfind, Option.map_some]
          obtain ⟨later, hstretch, hlater⟩ := (h (.ok (w.host.describe manifest.id e))).stretch w
          rw [hfound]
          exact ⟨w, later, none, hstretch, .goesOn, hlater⟩
      | none =>
          have hfound : w.host.descriptor? manifest.id = none := by
            rw [Host.descriptor?, hfind, Option.map_none]
          rw [hfound]
          exact ⟨_, _, _, rfl, .misses manifest hfind, .missing path manifest h⟩
  | @missing path manifest k h =>
      exact ⟨_, _, _, rfl, .goesOn, .decided path manifest (w.host.isDisabled manifest.id) h⟩
  | @decided path manifest isDisabled k h =>
      obtain ⟨later, hstretch, hlater⟩ := stretch_registering path manifest isDisabled h w
      exact ⟨_, later, none, hstretch, .registers path manifest, hlater⟩

end World

/-! ## Calls under way -/

namespace LoadingCall

open World

variable {code : Code χ} {p q : Pool LoadingCall (World χ) Unit}

/-- What is left of a call, and what it has not found and registers next. -/
inductive Fits : Bool → Option String → Flow (World χ) Unit → Prop
  | loading {next : Option String} {rest : Flow (World χ) Unit} (h : Loading next rest) :
      Fits true next rest
  | activating {rest : Flow (World χ) Unit} (h : rest.Within KeepsRecords) : Fits false none rest

/-- A call has looked for an extension, has not found it, and has yet to register it. -/
def AboutTo (id : String) (p : Pool LoadingCall (World χ) Unit) (n : Nat) : Prop :=
  ∃ t, p.tasks[n]? = some t ∧ t.call.loads = true ∧ Loading (some id) t.rest

/-- The surroundings leave the records of extensions alone. -/
def Undisturbed (moves : List (Move LoadingCall (World χ → World χ))) : Prop :=
  ∀ change, .outside change ∈ moves → ∀ w, KeepsRecords w (change w)

/-- The second pool is one that the first one may come to.  An extension that is there in the first
one is there still, and it is registered next by those only that were about to do so. -/
structure Behind (p q : Pool LoadingCall (World χ) Unit) : Prop where
  queues : q.state.host.HasQueues
  there : ∀ id, (p.state.host.find? id).isSome = true → (q.state.host.find? id).isSome = true
  tasks : ∀ (n : Nat) t, q.tasks[n]? = some t → ∃ next, Fits t.call.loads next t.rest ∧
    ∀ id, next = some id → (p.state.host.find? id).isSome = true → AboutTo id p n

/-- What a turn of a call does to the records. -/
inductive Deals (p : Pool LoadingCall (World χ) Unit) (n : Nat) (w : World χ) :
    Bool → World χ → Prop
  /-- The call activates an extension. -/
  | keeps {w' : World χ} (h : KeepsRecords w w') : Deals p n w false w'
  | spares {w' : World χ} (hhost : w'.host = w.host) (hevents : w'.events = w.events) :
      Deals p n w true w'
  | registers (path : Path) (manifest : Manifest)
      (h : (p.state.host.find? manifest.id).isSome = true → AboutTo manifest.id p n) :
      Deals p n w true (register path manifest w)

theorem fits_flow (hcode : code.SparesHost) (call : LoadingCall) :
    Fits call.loads none (call.flow code) := by
  cases call with
  | load path => exact .loading (.touring (Tours.flow rfl))
  | discover => exact .loading (.touring (Tours.flow rfl))
  | activate id force =>
      have hactivate : (World.activate code id force).Within KeepsRecords :=
        (KeepsRecords.rules hcode).within_activate trivial (fun _ => trivial) force
      exact .activating (hactivate.bind fun _ => trivial)

namespace Behind

theorem begin {w : World χ} (hw : w.host.HasQueues) :
    Behind ({ state := w } : Pool LoadingCall (World χ) Unit) { state := w } :=
  ⟨hw, fun _ h => h, fun n t hn => by simp at hn⟩

/-- What has been come to may be begun with. -/
theorem refl (h : Behind p q) : Behind q q := by
  refine ⟨h.queues, fun _ h => h, fun n t hn => ?_⟩
  obtain ⟨next, hfits, -⟩ := h.tasks n t hn
  refine ⟨next, hfits, fun id hid _ => ⟨t, hn, ?_⟩⟩
  subst hid
  generalize t.call.loads = loads at hfits ⊢
  cases hfits with
  | loading h => exact ⟨rfl, h⟩

/-- A turn of a call, which takes it from a stretch to the next. -/
theorem stretch (h : Behind p q) {n : Nat} {t : Task LoadingCall (World χ) Unit}
    (hn : q.tasks[n]? = some t) {r : Flow.Stretch (World χ) Unit}
    (hr : (t.rest.wake q.state).stretch q.state = r) :
    Deals p n q.state t.call.loads r.state ∧
      (∃ next, Fits t.call.loads next r.rest ∧
        ∀ id, next = some id → (p.state.host.find? id).isSome = true → AboutTo id p n) ∧
      ∀ child ∈ r.started, Fits t.call.loads none (.ofStrand child) := by
  obtain ⟨next, hfits, hnext⟩ := h.tasks n t hn
  generalize t.call.loads = loads at hfits ⊢
  cases hfits with
  | loading hloading =>
      obtain ⟨w', later, next', hstretch, hturn, hlater⟩ := hloading.turn q.state
      obtain rfl : _ = r := hstretch.symm.trans hr
      refine ⟨?_, ⟨next', .loading hlater, fun id hid hthere => ?_⟩,
        fun child hchild => nomatch hchild⟩
      · cases hturn with
        | goesOn => exact .spares rfl rfl
        | misses manifest hnone => exact .spares rfl rfl
        | registers path manifest => exact .registers path manifest (hnext _ rfl)
      · cases hturn with
        | goesOn => exact hnext id hid hthere
        | misses manifest hnone =>
            -- What is there behind the first pool is not missed.
            cases hid
            have hsome := h.there _ hthere
            rw [hnone] at hsome
            cases hsome
        | registers path manifest => cases hid
  | activating hwithin =>
      obtain ⟨hstate, hrest, hstarted⟩ :=
        (hwithin.wake q.state).stretch KeepsRecords.refl KeepsRecords.trans q.state
      rw [hr] at hstate hrest hstarted
      exact ⟨.keeps hstate, ⟨none, .activating hrest, nofun⟩,
        fun child hchild => .activating (.ofStrand (hstarted child hchild))⟩

end Behind

theorem Deals.there {n : Nat} {loads : Bool} {w w' : World χ} (h : Deals p n w loads w')
    {id : String} (hid : (w.host.find? id).isSome = true) :
    (w'.host.find? id).isSome = true := by
  cases h with
  | keeps h => exact (h.isSome id).trans hid
  | spares hhost hevents => exact hhost ▸ hid
  | registers path manifest h => exact isSome_register path manifest w id hid

theorem Deals.hasQueues {n : Nat} {loads : Bool} {w w' : World χ} (h : Deals p n w loads w')
    (hw : w.host.HasQueues) : w'.host.HasQueues := by
  cases h with
  | keeps h => exact h.hasQueues hw
  | spares hhost hevents => exact hhost ▸ hw
  | registers path manifest h => exact hasQueues_register path manifest hw

namespace Behind

theorem turned (h : Behind p q) {n : Nat} {t : Task LoadingCall (World χ) Unit}
    (hn : q.tasks[n]? = some t) {r : Flow.Stretch (World χ) Unit}
    (hr : (t.rest.wake q.state).stretch q.state = r) :
    Behind p { q with
      state := r.state
      tasks := q.tasks.set n (.of q.now t.call r.rest) ++
        r.started.map fun child => .of q.now t.call (.ofStrand child) } := by
  obtain ⟨hdeals, hrest, hstarted⟩ := h.stretch hn hr
  refine ⟨hdeals.hasQueues h.queues, fun id hid => hdeals.there (h.there id hid),
    fun i t' hi => ?_⟩
  rcases Nat.lt_or_ge i q.tasks.length with hlt | hge
  · by_cases hsame : n = i
    · subst hsame
      rw [Interleaving.System.turned_self hlt] at hi
      obtain rfl := Option.some.inj hi
      exact hrest
    · rw [Interleaving.System.turned_of_ne hlt hsame] at hi
      exact h.tasks i t' hi
  · -- It is a call that the turn has started.
    rw [List.getElem?_append_right (by simpa using hge)] at hi
    obtain ⟨child, hchild, rfl⟩ := List.mem_map.mp (List.mem_of_getElem? hi)
    exact ⟨none, hstarted child hchild, nofun⟩

theorem step (hcode : code.SparesHost) (h : Behind p q)
    {move : Move LoadingCall (World χ → World χ)} (hmove : Undisturbed [move]) :
    Behind p ((loadingCalls code).step q move) := by
  have hstepped := (loadingCalls code).step_cases q move
  generalize (loadingCalls code).step q move = q' at hstepped ⊢
  cases hstepped with
  | idle => exact h
  | start call =>
      refine ⟨h.queues, h.there, fun n t hn => ?_⟩
      rcases Interleaving.getElem?_concat_cases hn with hn | ⟨-, rfl⟩
      · exact h.tasks n t hn
      · exact ⟨none, fits_flow hcode call, nofun⟩
  | turn hn hr => exact h.turned hn hr
  | pass time => exact ⟨h.queues, h.there, h.tasks⟩
  | outside change =>
      have hkeeps := hmove change List.mem_cons_self q.state
      exact ⟨hkeeps.hasQueues h.queues, fun id hid => (hkeeps.isSome id).trans (h.there id hid),
        h.tasks⟩

theorem run (hcode : code.SparesHost) (h : Behind p q)
    {moves : List (Move LoadingCall (World χ → World χ))} (hmoves : Undisturbed moves) :
    Behind p ((loadingCalls code).run q moves) := by
  induction moves generalizing q with
  | nil => exact h
  | cons move moves ih =>
      refine ih (h.step hcode ?_) fun change hchange => hmoves change (.tail _ hchange)
      exact fun change hchange => hmoves change (by simp_all)

end Behind

/-- Whoever waits where others may run can take a turn. -/
theorem turn_paused (code : Code χ) {n : Nat} {t : Task LoadingCall (World χ) Unit}
    (hn : p.tasks[n]? = some t) {k : Unit → Flow (World χ) Unit}
    (hrest : t.rest = Flow.pause.bind k) :
    (loadingCalls code).step p (.turn n) = p.goneOn n t.call ((k ()).stretch p.state) := by
  have hready : t.isReady p.now p.state = true := by
    rw [Task.isReady, hrest]
    rfl
  have hwake : t.rest.wake p.state = k () := by
    rw [hrest]
    rfl
  exact hwake ▸ Interleaving.System.turn_of_ready hn hready

theorem registers_of_decided {n : Nat} {t : Task LoadingCall (World χ) Unit}
    (hn : p.tasks[n]? = some t) {path : Path} {manifest : Manifest} {isDisabled : Bool}
    {k : Except Fault Descriptor → Flow (World χ) Unit} (hk : ∀ result, Tours (k result))
    (hrest : t.rest = Flow.pause.bind fun _ => (registering path manifest isDisabled).bind k) :
    Registers manifest.id p.state ((loadingCalls code).step p (.turn n)).state := by
  obtain ⟨later, hstretch, -⟩ := stretch_registering path manifest isDisabled hk p.state
  rw [turn_paused code hn hrest, hstretch]
  exact ⟨path, manifest, rfl, rfl⟩

/-- Who is about to register an extension has only to go on to do so. -/
theorem AboutTo.registers {id : String} {n : Nat} (h : AboutTo id p n) :
    ∃ moves, Undisturbed moves ∧
      Registers id ((loadingCalls code).run p moves).state
        ((loadingCalls code).step ((loadingCalls code).run p moves) (.turn n)).state := by
  obtain ⟨t, hn, -, hloading⟩ := h
  have hlt : n < p.tasks.length := (List.getElem?_eq_some_iff.mp hn).1
  generalize hrest : t.rest = rest at hloading
  generalize hnext : some id = next at hloading
  cases hloading with
  | touring h => cases hnext
  | identified path manifest h => cases hnext
  | @missing path manifest k h =>
      cases hnext
      have hturn := turn_paused code hn hrest
      refine ⟨[.turn n], nofun, ?_⟩
      have hlater : ((loadingCalls code).run p [.turn n]).tasks[n]? =
          some (.of p.now t.call (Flow.pause.bind fun _ =>
            (registering path manifest (p.state.host.isDisabled manifest.id)).bind k)) := by
        rw [Interleaving.System.run_cons, hturn]
        exact Interleaving.System.turned_self hlt
      exact registers_of_decided hlater h rfl
  | decided path manifest isDisabled h =>
      cases hnext
      exact ⟨[], nofun, registers_of_decided hn h hrest⟩

/-! ## What is replaced -/

/-- Calls in a world whose disk has two folders with one extension. -/
def loadingRun (moves : List (Move LoadingCall (World Unit → World Unit))) :
    Pool LoadingCall (World Unit) Unit :=
  (loadingCalls Code.slow).run { state := innerWorld } moves

/-- The extension is loaded from one of its folders, while a load of the other one has not found it
and waits; then it is activated. -/
def overtaking : List (Move LoadingCall (World Unit → World Unit)) :=
  [.start (.load ⟨"/data/extensions/p.a"⟩), .turn 0, .turn 0,
    .start (.load ⟨"/data/extensions/p.a/sub"⟩), .turn 1, .turn 1, .turn 1, .turn 1,
    .start (.activate "p.a" false), .turn 2, .turn 2, .turn 2, .turn 2]

/-- The folder of the extension, whether it is active, whether it has a context, and how often
anybody was told of extensions. -/
def standing (moves : List (Move LoadingCall (World Unit → World Unit))) :
    Option (Path × Bool × Bool × Nat) :=
  let w := (loadingRun moves).state
  (w.host.find? "p.a").map fun e => (e.path, e.isActive, e.context.isSome, w.events.length)

end LoadingCall

end EditorHost
