import EditorHost.Proofs.Extension.LastInLine

/-!
# What extensions leave behind

An extension that is inactive at the end has nothing left: nothing that it registered, no status bar
items, no processes, and no context with which something is still to be undone.  That counts on code
that works for an extension only while the extension is in use, and that gives things to its current
context only (`Code.WorksFor`).

While the extension is active, or its module is running, only its current context may be open; the
phases of a deactivation take one thing after another away.
-/

namespace EditorHost

open Interleaving (Move Pool System Task)

variable {χ : Type}

open World (SameHost hostPart)

namespace World

/-- Nothing is registered for an extension, and it has no status bar items and no processes. -/
structure Bare (id : String) (w : World χ) : Prop where
  registrations : ∀ r ∈ w.api.registry.live, r.extension ≠ id
  items : ∀ entry ∈ w.api.statusBar.entries, entry.item.extension ≠ id
  processes : ∀ p ∈ w.host.processes, p.owner ≠ id

/-- Nothing is to be undone with any context of an extension but a given one. -/
def OnlyOpen (id : String) (context : Option ContextId) (w : World χ) : Prop :=
  ∀ (n : Nat) (c : Context), w.host.contexts[n]? = some c → c.extension = id → c.isOpen = true →
    context = some n

/-- The context of an active extension. -/
def contextOf? (id : String) (w : World χ) : Option ContextId :=
  (w.host.find? id).bind fun e => if e.isActive then e.context else none

/-- An active extension has given things to its context only, and an inactive one has nothing. -/
structure Tidy (id : String) (w : World χ) : Prop where
  contexts : w.OnlyOpen id (w.contextOf? id)
  bare : w.host.isActive id = false → w.Bare id

/-- Things are registered or started for an extension only if it is in use, and are given to one
context of it only. -/
structure GivesFor (id : String) (isInUse : Prop) (target : Option ContextId) (w w' : World χ) :
    Prop where
  registrations : isInUse ∨
    ∀ r ∈ w'.api.registry.live, r.extension = id → r ∈ w.api.registry.live
  items : isInUse ∨ ∀ entry ∈ w'.api.statusBar.entries, entry.item.extension = id →
    entry ∈ w.api.statusBar.entries
  processes : isInUse ∨ ∀ p ∈ w'.host.processes, p.owner = id → p ∈ w.host.processes
  contexts : ∀ (n : Nat) (c' : Context), w'.host.contexts[n]? = some c' → c'.extension = id →
    c'.isOpen = true → target = some n ∨ ∃ c, w.host.contexts[n]? = some c ∧ c.Fades c'

/-- Code works for an extension, and spares the host's books. -/
structure WorksFor (id : String) (isInUse : Prop) (target : Option ContextId) (w w' : World χ) :
    Prop extends SameHost w w', GivesFor id isInUse target w w'

/-- Code that is not running for an extension works for it only while it is active. -/
def StandsBy (id : String) (w w' : World χ) : Prop :=
  w.WorksFor id (w.host.isActive id = true) (w.contextOf? id) w'

variable {id : String} {w w' : World χ} {context : Option ContextId}

theorem GivesFor.of_fades (h : w.Fades w') (isInUse : Prop) (target : Option ContextId) :
    w.GivesFor id isInUse target w' where
  registrations := .inr fun r hr _ => h.api.registrations r hr
  items := .inr fun entry hentry _ => h.api.items entry hentry
  processes := .inr fun p hp _ => h.host.processes p hp
  contexts n c' hc' _ hopen := .inr (h.host.contexts n c' hc' hopen)

theorem StandsBy.refl (w : World χ) : w.StandsBy id w :=
  ⟨.refl w, .of_fades ⟨rfl, .refl w.api, .refl w.host⟩ _ _⟩

theorem contextOf?_congr (h : w'.host.find? id = w.host.find? id) :
    w'.contextOf? id = w.contextOf? id := by
  rw [contextOf?, h, contextOf?]

theorem contextOf?_of_inactive (h : w.host.isActive id = false) : w.contextOf? id = none := by
  rw [contextOf?]
  cases hfind : w.host.find? id with
  | none => rfl
  | some e =>
      have hinactive : e.isActive = false := by simpa [Host.isActive, hfind] using h
      simp [hinactive]

/-- Whatever is given goes to the context that may be open. -/
theorem OnlyOpen.keep (h : w.OnlyOpen id context)
    (hcontexts : ∀ (n : Nat) (c' : Context), w'.host.contexts[n]? = some c' → c'.extension = id →
      c'.isOpen = true → context = some n ∨ ∃ c, w.host.contexts[n]? = some c ∧ c.Fades c') :
    w'.OnlyOpen id context := by
  intro n c' hc' hextension hopen
  rcases hcontexts n c' hc' hextension hopen with htarget | ⟨c, hc, hfades⟩
  · exact htarget
  · exact h n c hc (hfades.extension.symm.trans hextension) (hfades.isOpen hopen)

theorem OnlyOpen.of_none (h : w.OnlyOpen id none) (context : Option ContextId) :
    w.OnlyOpen id context :=
  fun n c hc hextension hopen => nomatch h n c hc hextension hopen

theorem OnlyOpen.of_contexts_eq (h : w.OnlyOpen id context)
    (hsame : w'.host.contexts = w.host.contexts) : w'.OnlyOpen id context :=
  fun n c hc => h n c (hsame ▸ hc)

theorem Bare.keep (h : w.Bare id) {isInUse : Prop} {target : Option ContextId}
    (hgives : w.GivesFor id isInUse target w') (hnot : ¬isInUse) : w'.Bare id where
  registrations r hr hextension :=
    h.registrations r (hgives.registrations.resolve_left hnot r hr hextension) hextension
  items entry hentry hextension :=
    h.items entry (hgives.items.resolve_left hnot entry hentry hextension) hextension
  processes p hp howner := h.processes p (hgives.processes.resolve_left hnot p hp howner) howner

end World

/-- Code that works for an extension only while the extension is in use: its module, while it is
being activated, gives things to the new context; and otherwise they are given to the context that
the extension has. -/
structure Code.WorksFor (code : Code χ) (id : String) : Prop where
  listener : ∀ callback notice, Keeps (World.StandsBy id) (code.listener callback notice)
  undo : ∀ callback, Keeps (World.StandsBy id) (code.undo callback)
  others : ∀ other entry, code.entry other = some entry → other ≠ id →
    (∀ context, (entry.activate context).Within (World.StandsBy id)) ∧
      entry.deactivate.Within (World.StandsBy id)
  activate : ∀ entry, code.entry id = some entry → ∀ context,
    (entry.activate context).WithinApart (World.WorksFor id True (some context))
      (World.StandsBy id)
  deactivate : ∀ entry, code.entry id = some entry →
    entry.deactivate.WithinApart (World.WorksFor id True none) (World.StandsBy id)

theorem Code.WorksFor.sparesHost {code : Code χ} {id : String} (hcode : code.WorksFor id) :
    code.SparesHost where
  listener callback notice w := (hcode.listener callback notice w).toSameHost
  undo callback w := (hcode.undo callback w).toSameHost
  activate other entry hentry context := by
    by_cases hother : other = id
    · subst hother
      exact ((hcode.activate entry hentry context).mono (fun _ _ h => h.toSameHost)
        fun _ _ h => h.toSameHost).within
    · exact ((hcode.others other entry hentry hother).1 context).mono fun _ _ h => h.toSameHost
  deactivate other entry hentry := by
    by_cases hother : other = id
    · subst hother
      exact ((hcode.deactivate entry hentry).mono (fun _ _ h => h.toSameHost)
        fun _ _ h => h.toSameHost).within
    · exact (hcode.others other entry hentry hother).2.mono fun _ _ h => h.toSameHost

/-! ## What is left in each phase -/

/-- What may be left of an extension in a phase of its module. -/
def Phase.Leaves (id : String) : Phase → World χ → Prop
  | outside, w | inside, w => w.Tidy id
  | entering context, w | entered context, w =>
    w.host.isActive id = false → w.OnlyOpen id (some context)
  | leaving context, w | told context, w | left context, w =>
    w.host.isActive id = false → w.OnlyOpen id context
  | disposed, w => w.host.isActive id = false → w.OnlyOpen id none
  | cleared, w => w.host.isActive id = false →
    w.OnlyOpen id none ∧ ∀ p ∈ w.host.processes, p.owner ≠ id

section Leaves

variable {id : String} {phase : Phase} {w w' : World χ}

/-- Who stands by leaves a phase as it is. -/
theorem Phase.Leaves.keep (hat : phase.Leaves id w)
    (hfind : w'.host.find? id = w.host.find? id)
    (h : w.GivesFor id (w.host.isActive id = true) (w.contextOf? id) w') :
    phase.Leaves id w' := by
  have hactive : w'.host.isActive id = w.host.isActive id := by simp [Host.isActive, hfind]
  -- For an inactive extension nothing is given to any context.
  have honly {context : Option ContextId} (hinactive : w.host.isActive id = false)
      (honly : w.OnlyOpen id context) : w'.OnlyOpen id context := by
    refine honly.keep fun n c' hc' hextension hopen => .inr ?_
    refine (h.contexts n c' hc' hextension hopen).resolve_left fun htarget => ?_
    rw [World.contextOf?_of_inactive hinactive] at htarget
    cases htarget
  have htidy (hat : w.Tidy id) : w'.Tidy id := by
    refine ⟨?_, fun hinactive => ?_⟩
    · rw [World.contextOf?_congr hfind]
      exact hat.contexts.keep h.contexts
    · rw [hactive] at hinactive
      exact (hat.bare hinactive).keep h (by simp [hinactive])
  cases phase with
  | outside => exact htidy hat
  | inside => exact htidy hat
  | entering context => exact fun hi => honly (hactive ▸ hi) (hat (hactive ▸ hi))
  | entered context => exact fun hi => honly (hactive ▸ hi) (hat (hactive ▸ hi))
  | leaving context => exact fun hi => honly (hactive ▸ hi) (hat (hactive ▸ hi))
  | told context => exact fun hi => honly (hactive ▸ hi) (hat (hactive ▸ hi))
  | left context => exact fun hi => honly (hactive ▸ hi) (hat (hactive ▸ hi))
  | disposed => exact fun hi => honly (hactive ▸ hi) (hat (hactive ▸ hi))
  | cleared =>
      intro hi
      rw [hactive] at hi
      obtain ⟨hopen, hprocesses⟩ := hat hi
      refine ⟨honly hi hopen, fun p hp howner => ?_⟩
      exact hprocesses p (h.processes.resolve_left (by simp [hi]) p hp howner) howner

end Leaves

/-! ## Code that works for an extension -/

namespace Subject

theorem bystands_of_standsBy {L : Subject χ} (hkeep : ∀ phase (w w' : World χ),
      w'.host.find? L.id = w.host.find? L.id →
      w.GivesFor L.id (w.host.isActive L.id = true) (w.contextOf? L.id) w' →
      L.At phase w → L.At phase w')
    {w w' : World χ} (h : w.StandsBy L.id w') : L.Bystands w w' := by
  have haside : L.Aside w w' := aside_of_eq h.extensions h.queues h.tickets
  exact ⟨haside, fun phase => hkeep phase w w' haside.record h.toGivesFor⟩

/-- Where nothing but what is given to an extension matters, code that works for it while it is
active leaves it alone otherwise. -/
theorem leftAlone_of_worksFor {L : Subject χ} (hcode : L.code.WorksFor L.id)
    (hkeep : ∀ phase (w w' : World χ), w'.host.find? L.id = w.host.find? L.id →
      w.GivesFor L.id (w.host.isActive L.id = true) (w.contextOf? L.id) w' →
      L.At phase w → L.At phase w') : L.LeftAlone where
  listener callback notice w := bystands_of_standsBy hkeep (hcode.listener callback notice w)
  undo callback w := bystands_of_standsBy hkeep (hcode.undo callback w)
  others other entry hentry hother := by
    obtain ⟨hactivate, hdeactivate⟩ := hcode.others other entry hentry hother
    have hmono (w w' : World χ) (h : w.StandsBy L.id w') : L.Bystands w w' :=
      bystands_of_standsBy hkeep h
    exact ⟨fun context => (hactivate context).mono hmono, hdeactivate.mono hmono⟩
  fades phase w w' hfind hfades := hkeep phase w w' hfind (.of_fades hfades _ _)

end Subject

/-! ## Disposing of a context -/

/-- Of an inactive extension a context at most is open, and no handles are left in that. -/
def World.Emptied (id : String) (context : ContextId) (w : World χ) : Prop :=
  w.host.isActive id = false → w.OnlyOpen id (some context) ∧
    ∀ c, w.host.contexts[context]? = some c → c.extension = id → c.subscriptions = []

theorem World.Emptied.keep {id : String} {context : ContextId} {w w' : World χ}
    (h : w.Emptied id context) (hfind : w'.host.find? id = w.host.find? id)
    (hgives : w.GivesFor id (w.host.isActive id = true) (w.contextOf? id) w') :
    w'.Emptied id context := by
  intro hinactive
  have hactive : w'.host.isActive id = w.host.isActive id := by simp [Host.isActive, hfind]
  rw [hactive] at hinactive
  obtain ⟨honly, hhandles⟩ := h hinactive
  have hcontexts (n : Nat) (c' : Context) (hc' : w'.host.contexts[n]? = some c')
      (hextension : c'.extension = id) (hopen : c'.isOpen = true) :
      ∃ c, w.host.contexts[n]? = some c ∧ c.Fades c' := by
    refine (hgives.contexts n c' hc' hextension hopen).resolve_left fun htarget => ?_
    rw [contextOf?_of_inactive hinactive] at htarget
    cases htarget
  refine ⟨honly.keep fun n c' hc' hextension hopen =>
    .inr (hcontexts n c' hc' hextension hopen), fun c' hc' hextension => ?_⟩
  cases hopen : c'.isOpen with
  | false => exact (Context.isOpen_eq_false.mp hopen).1
  | true =>
      obtain ⟨c, hc, hfades⟩ := hcontexts context c' hc' hextension hopen
      exact hfades.handles (hhandles c hc (hfades.extension.symm.trans hextension))

/-- When the open context of an inactive extension has been disposed of, none is open. -/
theorem Code.WorksFor.onlyOpen_disposeContext {code : Code χ} {id : String}
    (hcode : code.WorksFor id) {context : ContextId} {w : World χ}
    (h : w.host.isActive id = false → w.OnlyOpen id (some context))
    (hinactive : (World.disposeContext code context w).2.host.isActive id = false) :
    (World.disposeContext code context w).2.OnlyOpen id none := by
  -- What matters is that the context is emptied first, and stays so while its handles are undone.
  let L : Subject χ := ⟨code, id, 0, fun _ w => w.Emptied id context, False⟩
  have halone : L.LeftAlone := Subject.leftAlone_of_worksFor hcode
    fun _ _ _ hfind hgives hat => World.Emptied.keep hat hfind hgives
  let part : Focus (World χ) Context := hostPart.comp (Host.context context)
  let drained := (part.zoom Context.drain w).2
  let undone := (World.disposeAll code (part.zoom Context.drain w).1 drained).2
  have hdispose : (World.disposeContext code context w).2 =
      (part.zoom (fun c => ((), c.giveUp)) undone).2 := rfl
  have hemptied : drained.Emptied id context := by
    intro hinactive
    have hcontexts := (w.host.fades_context context Context.fades_drain).contexts
    refine ⟨(h hinactive).keep fun n c' hc' _ hopen => .inr (hcontexts n c' hc' hopen),
      fun c' hc' _ => ?_⟩
    have hchanged : ((Host.context context).modify (fun c => c.drain.2) w.host).contexts[context]? =
        some c' := hc'
    obtain ⟨c, -, rfl⟩ := Host.contexts_modify hchanged
    rw [if_pos rfl]
    rfl
  have hundone : undone.Emptied id context := by
    have hloop : Keeps L.Bystands (World.disposeAll code (part.zoom Context.drain w).1) :=
      .loop halone.rules.refl halone.rules.trans _ halone.rules.keeps_dispose
    exact (hloop drained).phases .outside hemptied
  rw [hdispose] at hinactive ⊢
  obtain ⟨honly, hhandles⟩ := hundone hinactive
  intro n c' hc' hextension hopen
  obtain ⟨c, hc, rfl⟩ := Host.contexts_modify hc'
  split at hextension
  next heq =>
    subst heq
    rw [if_pos rfl] at hopen
    have hclosed : c.giveUp.isOpen = false :=
      Context.isOpen_eq_false.mpr ⟨hhandles c hc hextension, rfl⟩
    rw [hclosed] at hopen
    cases hopen
  next hne =>
    rw [if_neg hne] at hopen
    have htarget := honly n c hc hextension hopen
    exact absurd (Option.some.inj htarget).symm hne

/-! ## The extension goes through the phases -/

namespace World

variable {id : String} {e : Extension} {w : World χ}

theorem tidy_becomeActive (hfind : w.host.find? id = some e) (exports : Json) (hasModule : Bool)
    {context : ContextId} (honly : w.OnlyOpen id (some context)) :
    ((hostPart.zoom (becomeActive id exports hasModule context) w).2).Tidy id := by
  have hfind' : (hostPart.zoom (becomeActive id exports hasModule context) w).2.host.find? id =
      some { e with isActive := true, exports, hasModule, context := some context } := by
    rw [zoom_becomeActive hfind]
    exact (w.host.find?_modify id id _).trans (by simp [hfind])
  have hcontexts : (hostPart.zoom (becomeActive id exports hasModule context) w).2.host.contexts =
      w.host.contexts := by
    rw [zoom_becomeActive hfind]
    rfl
  refine ⟨?_, fun hinactive => ?_⟩
  · rw [contextOf?, hfind']
    exact honly.of_contexts_eq hcontexts
  · simp [Host.isActive, hfind'] at hinactive

theorem onlyOpen_becomeInactive (hfind : w.host.find? id = some e) (hactive : e.isActive = true)
    (htidy : w.Tidy id) :
    ((hostPart.zoom (becomeInactive id) w).2).OnlyOpen id e.context := by
  have honly := htidy.contexts
  rw [contextOf?, hfind, Option.bind_some, if_pos hactive] at honly
  rw [zoom_becomeInactive hfind hactive]
  exact honly.of_contexts_eq rfl

theorem tidy_release (hinactive : w.host.isActive id = false) (honly : w.OnlyOpen id none)
    (hprocesses : ∀ p ∈ w.host.processes, p.owner ≠ id) : ((release id w).2).Tidy id := by
  obtain ⟨hregistrations, hitems⟩ := w.api.mem_release id
  refine ⟨?_, fun _ => ⟨hregistrations, hitems, hprocesses⟩⟩
  have hcontext : (release id w).2.contextOf? id = none := contextOf?_of_inactive hinactive
  rw [hcontext]
  exact honly

end World

namespace Subject

/-- An extension of which is looked at what it may leave behind. -/
def contributor (code : Code χ) (id : String) (queue : QueueId) : Subject χ where
  code
  id
  queue
  At phase w := phase.Leaves id w
  IsReliable := False

section Contributor

variable {code : Code χ} {id : String} {queue : QueueId} {w w' : World χ} {c : HostCall} {t : Nat}

theorem bystands_contributor (h : w.StandsBy id w') : (contributor code id queue).Bystands w w' :=
  bystands_of_standsBy (L := contributor code id queue)
    (fun _ _ _ hfind hgives hat => Phase.Leaves.keep hat hfind hgives) h

/-- An inactive extension that is about to be activated has nothing. -/
theorem leaves_entering (hat : Phase.Leaves id .outside w) (context : ContextId) :
    Phase.Leaves id (.entering context) w := by
  intro hinactive
  have honly := World.Tidy.contexts hat
  rw [World.contextOf?_of_inactive hinactive] at honly
  exact honly.of_none _

/-- The module works for its extension in a phase in which one context may be open. -/
theorem work_contributor {phase phase' : Phase} {target context : Option ContextId}
    (htarget : target = none ∨ target = context)
    (hphase : Phase.Leaves id phase w → w.host.isActive id = false → w.OnlyOpen id context)
    (hphase' : (w'.host.isActive id = false → w'.OnlyOpen id context) → Phase.Leaves id phase' w')
    (h : w.WorksFor id True target w') :
    (contributor code id queue).May c (.busy t phase) w (.busy t phase') w' := by
  have haside : (contributor code id queue).Aside w w' :=
    aside_of_eq h.extensions h.queues h.tickets
  refine .work haside fun hat => hphase' fun hinactive => ?_
  have hactive : w'.host.isActive id = w.host.isActive id := isActive_congr haside.record
  refine (hphase hat (hactive.symm.trans hinactive)).keep fun n c' hc' hextension hopen => ?_
  rcases h.contexts n c' hc' hextension hopen with hn | hold
  · rcases htarget with rfl | rfl
    · cases hn
    · exact .inl hn
  · exact .inr hold

/-- The module stays at places of a kind. -/
theorem follows_contributor {α : Type} {flow : Flow (World χ) α} {target : Option ContextId}
    (h : flow.WithinApart (World.WorksFor id True target) (World.StandsBy id))
    {IsFine : Place → Prop}
    (hfine : (contributor code id queue).protocol.Allows c IsFine (World.WorksFor id True target))
    {k : Place} (hk : IsFine k) (w : World χ) :
    flow.Follows (contributor code id queue).protocol c (fun _ k' => IsFine k') k w := by
  have hwork : flow.WithinApart (World.WorksFor id True target)
      (contributor code id queue).Bystands :=
    h.mono (fun _ _ h => h) fun _ _ h => bystands_contributor h
  exact hwork.follows hfine (allows_bystands rfl) (.inl rfl) hk

theorem allows_entering (context : ContextId) :
    (contributor code id queue).protocol.Allows c
      (fun k => k = .busy t .outside ∨ k = .busy t (.entering context))
      (World.WorksFor id True (some context)) := by
  refine ⟨?_, ?_⟩
  · rintro _ w w' (rfl | rfl) h
    · exact ⟨_, .inr rfl, work_contributor (.inr rfl) (fun hat => leaves_entering hat context)
        (fun hat => hat) h⟩
    · exact ⟨_, .inr rfl, work_contributor (.inr rfl) (fun hat => hat) (fun hat => hat) h⟩
  · rintro _ w hk -
    refine ⟨_, hk, .stay ?_⟩
    rcases hk with rfl | rfl <;> rfl

theorem allows_leaving (context : Option ContextId) :
    (contributor code id queue).protocol.Allows c (· = .busy t (.leaving context))
      (World.WorksFor id True none) := by
  refine ⟨?_, ?_⟩
  · rintro _ w w' rfl h
    exact ⟨_, rfl, work_contributor (.inl rfl) (fun hat => hat) (fun hat => hat) h⟩
  · rintro _ w rfl -
    exact ⟨_, rfl, .stay rfl⟩

theorem leaves_restPhase {e : Extension} : (restPhase e).Leaves id w ↔ w.Tidy id := by
  rw [restPhase]
  split <;> exact .rfl

theorem fits_contributor (hcode : code.WorksFor id) : (contributor code id queue).Fits where
  toLeftAlone := leftAlone_of_worksFor hcode
    fun _ _ _ hfind hgives hat => Phase.Leaves.keep hat hfind hgives
  activate entry hentry c context t w := by
    have hmodule := hcode.activate entry hentry context
    refine (follows_contributor hmodule (allows_entering context) (.inl rfl) w).mono
      fun _ k hk => ?_
    rcases hk with rfl | rfl
    · exact ⟨.outside, rfl, fun w hat => leaves_entering hat context⟩
    · exact ⟨.entering context, rfl, fun w hat => hat⟩
  deactivate entry hentry c context t w :=
    (follows_contributor (hcode.deactivate entry hentry) (allows_leaving context) rfl w).mono
      fun _ k hk => ⟨.leaving context, hk, fun w hat => hat⟩
  arrives w e exports hasModule context hfind hinactive hat := by
    have hnot : w.host.isActive id = false := (isActive_of_find? hfind).trans hinactive
    have honly : w.OnlyOpen id (some context) := by
      cases hasModule with
      | true => exact hat hnot
      | false => exact leaves_entering hat context hnot
    have htidy := World.tidy_becomeActive hfind exports hasModule honly
    cases hasModule <;> exact htidy
  departs w e hfind hactive hat := by
    have honly := World.onlyOpen_becomeInactive hfind hactive (leaves_restPhase.mp hat)
    cases e.hasModule <;> exact fun _ => honly
  disposes w context hat := by
    cases context with
    | none => exact hat
    | some context => exact hcode.onlyOpen_disposeContext hat
  kills w hat hinactive := by
    refine ⟨World.OnlyOpen.of_contexts_eq (hat hinactive) rfl, fun p hp howner => ?_⟩
    have hkept := (List.mem_filter.mp hp).2
    simp [howner, contributor] at hkept
  releases w hinactive hat := by
    obtain ⟨honly, hprocesses⟩ := hat hinactive
    exact World.tidy_release hinactive honly hprocesses

end Contributor

end Subject

/-- When all calls are over, an extension has given things to its context only, and nothing is left
of it if it is inactive. -/
theorem HostCall.tidy_run {code : Code χ} {id : String} (hcode : code.WorksFor id) {w : World χ}
    (hidle : w.host.Idle code) {e : Extension} (hfind : w.host.find? id = some e)
    (htidy : w.Tidy id) {moves : List (Move HostCall (World χ → World χ))}
    (houtside : ∀ change, .outside change ∈ moves → ∀ w, World.StandsBy id w (change w))
    (hover : ∀ t ∈ ((hostCalls code).run { state := w } moves).tasks, t.rest.isDone = true) :
    ((hostCalls code).run { state := w } moves).state.Tidy id := by
  let L := Subject.contributor code id e.queue
  have hstart : L.Orderly e.isActive none { state := w } [] :=
    Subject.orderly_nil hidle hfind rfl (Subject.leaves_restPhase.mpr htidy)
  obtain ⟨entries, h⟩ := hstart.run (Subject.fits_contributor hcode)
    (fun change hchange w => Subject.bystands_contributor (houtside change hchange w)) False.elim
  obtain ⟨e', hfind', -⟩ := h.governs.sound.loaded.record
  exact Subject.leaves_restPhase.mp (h.rests hover e' hfind')

/-! ## In a small world -/

theorem Code.worksFor_slow (id : String) : Code.slow.WorksFor id where
  listener _ _ := World.StandsBy.refl
  undo _ := World.StandsBy.refl
  others other entry hentry _ := by
    cases hentry
    exact ⟨fun _ _ => trivial, fun _ => trivial⟩
  activate entry hentry _ := by
    cases hentry
    exact fun _ => trivial
  deactivate entry hentry := by
    cases hentry
    exact fun _ => trivial

theorem World.tidy_ofExtensions (own : χ) (ids : List String) (id : String) :
    (World.ofExtensions own ids).Tidy id := by
  have hfold (h : Host) :
      let loaded := ids.foldl (fun h id => h.add id ⟨"/" ++ id⟩
        { main := some "main.js", activationEvents := ["onLanguage:python"] }) h
      loaded.contexts = h.contexts ∧ loaded.processes = h.processes := by
    induction ids generalizing h with
    | nil => exact ⟨rfl, rfl⟩
    | cons other ids ih => exact ih _
  obtain ⟨hcontexts, hprocesses⟩ := hfold (.ofDisk .empty (.ofDataDir ⟨"/data"⟩))
  have hnone : (World.ofExtensions own ids).host.contexts = [] := hcontexts
  have hkilled : (World.ofExtensions own ids).host.processes = [] := hprocesses
  refine ⟨fun n c hc => ?_, fun _ => ⟨fun _ hr => ?_, fun _ hentry => ?_, fun p hp => ?_⟩⟩
  · simp [hnone] at hc
  · cases hr
  · cases hentry
  · simp [hkilled] at hp

end EditorHost
