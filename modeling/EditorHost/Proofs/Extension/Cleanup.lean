import EditorHost.Proofs.Alone
import EditorHost.Proofs.Extension.Housekeeping
import EditorHost.Proofs.Extension.Stories

/-!
# What a deactivation cleans up

While an extension is active, its context collects handles.  The deactivation undoes those that are
left, the last one first, and then drops whatever else the extension registered; it does so whatever
comes of the code that it calls on the way.

`World.Told` describes the time from when the context is new to the deactivation: the extension's
code may do anything to what belongs to it, and others anything else.  `told_activate` says that an
activation is of that kind.

## Strategy

* The host undoes handles one after another (`Clears`).  A handle whose action has run stays as it
  is, so each is undone by the host if it is still to be undone at its turn (`Clears.inReverse`),
  and none is left (`Clears.hasRun`).
* Stories are counted against the handles that have been undone at their end (`Tallies.runs`), which
  gives that every handle was undone once.
* What an extension undoes, it had registered itself, so that others lose nothing
  (`SparesOthers`), neither by its code nor by what the host drops in the end.
-/

namespace EditorHost

open World (hostPart)

variable {χ : Type}

/-! ## Code -/

/-- The handles that were made meanwhile belong to the extension. -/
def Owner.Takes (O : Owner) (w w' : World χ) : Prop :=
  ∀ handle, w.api.handles.length ≤ handle → handle < w'.api.handles.length → O.handles handle

/-- The code of an extension keeps to what belongs to the extension; the actions of its handles hand
nothing to contexts. -/
structure Code.KeepsTo (code : Code χ) (O : Owner) : Prop where
  undo : ∀ callback, O.callbacks callback → ∀ w, O.Owns w → O.Next w →
    ∃ s, w.Works code O s (code.undo callback w).2 ∧ ∀ n, Story.handed n s = []
  activate : ∀ entry, code.entry O.id = some entry → ∀ n w, O.Owns w →
    w.ties n = some (O.id, []) → ∀ outcome w', (entry.activate n).alone w = some (outcome, w') →
      O.Takes w w' → ∃ s, w.Works code O s w'
  deactivate : ∀ entry, code.entry O.id = some entry → ∀ w, O.Owns w → O.Next w →
    ∀ outcome w', entry.deactivate.alone w = some (outcome, w') → ∃ s, w.Works code O s w'

/-! ## The time between -/

/-- What belongs to an extension is left alone. -/
structure World.Undisturbed (O : Owner) (w w' : World χ) : Prop where
  handles : ∀ handle, O.handles handle → w'.api.handles[handle]? = w.api.handles[handle]?
  grows : w.api.handles.length ≤ w'.api.handles.length
  ties : ∀ n handles, w.ties n = some (O.id, handles) → w'.ties n = some (O.id, handles)
  owns : O.Owns w → O.Owns w'

/-- What may happen as time passes: the code of the extension does something, or something happens
by which the extension is left alone. -/
inductive World.Told (code : Code χ) (O : Owner) : World χ → Story → World χ → Prop
  | rest (w : World χ) : Told code O w [] w
  | own {w w' w'' : World χ} {s s' : Story} (before : Told code O w s w')
      (h : w'.Works code O s' w'') : Told code O w (s ++ s') w''
  | others {w w' w'' : World χ} {s : Story} (before : Told code O w s w')
      (h : w'.Undisturbed O w'') : Told code O w s w''

section Told

variable {code : Code χ} {O : Owner} {w w' w'' : World χ} {s : Story}

theorem World.Undisturbed.tallies (h : w.Undisturbed O w') (howns : O.Owns w) :
    Tallies O w [] w' := by
  refine ⟨h.owns howns, h.grows, fun handle hown => ?_⟩
  rw [Api.hasRun, h.handles handle hown]
  rfl

/-- Changes of the host's books leave contexts alone. -/
theorem World.undisturbed_of_eq (hapi : w'.api = w.api)
    (hcontexts : w'.host.contexts = w.host.contexts) : w.Undisturbed O w' where
  handles _ _ := by rw [hapi]
  grows := Nat.le_of_eq (by rw [hapi])
  ties n handles hties := by rw [ties, hcontexts]; exact hties
  owns howns := by
    refine howns.congr hapi fun n handles hties handle hmem => ⟨handles, ?_, hmem⟩
    rw [World.ties, ← hcontexts]
    exact hties

theorem World.Told.tallies (h : w.Told code O s w') (howns : O.Owns w) : Tallies O w s w' := by
  induction h with
  | rest => exact .refl howns
  | own before h ih =>
      exact ih.trans (h.tallies ih.owns)
  | @others w' w'' s before h ih =>
      have hboth := ih.trans (h.tallies ih.owns)
      rwa [List.append_nil] at hboth

theorem World.Told.ties (h : w.Told code O s w') {n : ContextId} {handles : List HandleId}
    (hcontext : w.ties n = some (O.id, handles)) :
    w'.ties n = some (O.id, handles ++ s.handed n) := by
  induction h with
  | rest => simpa [Story.handed] using hcontext
  | own before h ih => rw [h.ties ih, Story.handed_append, List.append_assoc]
  | others before h ih => exact h.ties n _ ih

end Told

/-! ## Undoing handles in order -/

/-- The host undoes handles one after another, as far as that has not been done. -/
inductive World.Clears (code : Code χ) (O : Owner) :
    List HandleId → World χ → Story → World χ → Prop
  | nil (w : World χ) : Clears code O [] w [] w
  | skip {w w' : World χ} {s : Story} {handle : HandleId} {handles : List HandleId}
      (hnone : w.api.action? handle = none) (rest : Clears code O handles w s w') :
      Clears code O (handle :: handles) w s w'
  | undo {w w' : World χ} {s s' : Story} {handle : HandleId} {handles : List HandleId}
      (hown : O.handles handle) (hpending : (w.api.action? handle).isSome = true)
      (hundo : (w.begun handle).Works code O s (World.dispose code handle w).2)
      (hhands : ∀ n, Story.handed n s = [])
      (rest : Clears code O handles (World.dispose code handle w).2 s' w') :
      Clears code O (handle :: handles) w (.undone handle true :: (s ++ s')) w'

namespace World

variable {code : Code χ} {O : Owner} {w w' : World χ} {s : Story} {handles : List HandleId}

/-- The code of a handle does what the code of its extension may do. -/
theorem works_dispose (hcode : code.KeepsTo O) (howns : O.Owns w) (hnext : O.Next w)
    {handle : HandleId} (hown : O.handles handle)
    (hpending : (w.api.action? handle).isSome = true) :
    ∃ s, (w.begun handle).Works code O s (dispose code handle w).2 ∧
      ∀ n, Story.handed n s = [] := by
  have hbegun := tallies_begun howns hpending true
  rw [dispose_snd]
  cases hcallback : (w.api.dispose handle).1.code with
  | none => exact ⟨[], .rest _, fun _ => rfl⟩
  | some callback =>
      have hconcerns : O.callbacks callback :=
        howns.actions handle _ hown (Api.dispose_code hcallback)
      exact hcode.undo callback hconcerns _ hbegun.owns (hbegun.next hnext)

theorem disposeAll_cons (code : Code χ) (handle : HandleId) (handles : List HandleId)
    (w : World χ) : (disposeAll code (handle :: handles) w).2 =
      (disposeAll code handles (dispose code handle w).2).2 := by
  simp only [disposeAll, List.forIn_cons]
  rfl

theorem clears_disposeAll (hcode : code.KeepsTo O) (howns : O.Owns w) (hnext : O.Next w)
    (hall : ∀ handle ∈ handles, O.handles handle) :
    ∃ s, Clears code O handles w s (disposeAll code handles w).2 := by
  induction handles generalizing w with
  | nil => exact ⟨[], .nil w⟩
  | cons handle handles ih =>
      obtain ⟨hown, hrest⟩ := List.forall_mem_cons.mp hall
      rw [disposeAll_cons]
      cases haction : w.api.action? handle with
      | none =>
          rw [dispose_of_none haction]
          obtain ⟨s, hs⟩ := ih howns hnext hrest
          exact ⟨s, .skip haction hs⟩
      | some action =>
          have hpending : (w.api.action? handle).isSome = true := by rw [haction]; rfl
          obtain ⟨s, hundo, hhands⟩ := works_dispose hcode howns hnext hown hpending
          have hbegun := tallies_begun howns hpending true
          have hdone := hbegun.trans (hundo.tallies hbegun.owns)
          obtain ⟨s', hs'⟩ := ih hdone.owns (hdone.next hnext) hrest
          exact ⟨_, .undo hown hpending hundo hhands hs'⟩

theorem Clears.tallies (h : Clears code O handles w s w') (howns : O.Owns w) :
    Tallies O w s w' := by
  induction h with
  | nil w => exact .refl howns
  | skip hnone rest ih => exact ih howns
  | undo hown hpending hundo hhands rest ih =>
      have hbegun := tallies_begun howns hpending true
      have hdone := hbegun.trans (hundo.tallies hbegun.owns)
      exact hdone.trans (ih hdone.owns)

theorem Clears.sparesOthers (h : Clears code O handles w s w') (howns : O.Owns w) :
    SparesOthers O w w' := by
  induction h with
  | nil w => exact .refl w
  | skip hnone rest ih => exact ih howns
  | undo hown hpending hundo hhands rest ih =>
      have hbegun := tallies_begun howns hpending true
      have hdone := hundo.tallies hbegun.owns
      exact (sparesOthers_begun howns hown hpending).trans
        ((hundo.sparesOthers hbegun.owns).trans (ih hdone.owns))

theorem Clears.extensions (h : Clears code O handles w s w') :
    w'.host.extensions = w.host.extensions := by
  induction h with
  | nil w => rfl
  | skip hnone rest ih => exact ih
  | undo hown hpending hundo hhands rest ih => exact ih.trans hundo.extensions

/-- No action of a handle hands another one over. -/
theorem Clears.handed (h : Clears code O handles w s w') (n : ContextId) :
    Story.handed n s = [] := by
  induction h with
  | nil w => rfl
  | skip hnone rest ih => exact ih
  | @undo w w' s s' handle handles hown hpending hundo hhands rest ih =>
      have hboth : Story.handed n (s ++ s') = [] := by
        rw [Story.handed_append, hhands n, ih, List.append_nil]
      exact hboth

/-- Code undoes handles, the host does not. -/
theorem Works.undoneBy_host (h : w.Works code O s w') : Story.undoneBy true s = [] := by
  induction h with
  | rest w => rfl
  | contribute h => rfl
  | hand hcontext hown hmade => rfl
  | dispose hown hpending hundo ih => exact ih
  | trans first second ih ih' => rw [Story.undoneBy_append, ih, ih', List.append_nil]

theorem Works.undoneBy_code (h : w.Works code O s w') :
    Story.undoneBy false s = Story.undone s := by
  induction h with
  | rest w => rfl
  | contribute h => rfl
  | hand hcontext hown hmade => rfl
  | @dispose w s handle hown hpending hundo ih =>
      rw [Story.undoneBy_cons_self, Story.undone_cons_undone, ih]
  | trans first second ih ih' => rw [Story.undoneBy_append, ih, ih', Story.undone_append]

end World

/-- A handle has been undone in the end if it had been before, or is undone in the story. -/
theorem Tallies.hasRun_iff {O : Owner} {w w' : World χ} {s : Story} (h : Tallies O w s w')
    {handle : HandleId} (hown : O.handles handle) : w'.api.hasRun handle = true ↔
      w.api.hasRun handle = true ∨ handle ∈ Story.undone s := by
  have hruns := h.runs handle hown
  have hcount : handle ∈ Story.undone s ↔ (Story.undone s).count handle ≠ 0 := by
    rw [← List.count_pos_iff, Nat.pos_iff_ne_zero]
  rw [hcount]
  cases hbefore : w.api.hasRun handle with
  | false =>
      rw [hbefore, Bool.toNat_false, Nat.zero_add] at hruns
      rw [← hruns]
      cases w'.api.hasRun handle <;> simp
  | true =>
      rw [hbefore, Bool.toNat_true] at hruns
      cases hbehind : w'.api.hasRun handle with
      | false =>
          rw [hbehind, Bool.toNat_false] at hruns
          omega
      | true => simp

namespace World

variable {code : Code χ} {O : Owner} {w w' : World χ} {s : Story} {handles : List HandleId}

/-- All handles have been undone in the end. -/
theorem Clears.hasRun (h : Clears code O handles w s w') (howns : O.Owns w)
    (hall : ∀ handle ∈ handles, O.handles handle ∧ handle < w.api.handles.length) :
    ∀ handle ∈ handles, w'.api.hasRun handle = true := by
  induction h with
  | nil w => exact fun handle hmem => by cases hmem
  | skip hnone rest ih =>
      obtain ⟨⟨hown, hmade⟩, hrest⟩ := List.forall_mem_cons.mp hall
      refine List.forall_mem_cons.mpr ⟨?_, ih howns hrest⟩
      refine ((rest.tallies howns).hasRun_iff hown).mpr (.inl ?_)
      rw [Api.hasRun_eq_not hmade, hnone]
      rfl
  | @undo w w' s s' handle handles hown hpending hundo hhands rest ih =>
      obtain ⟨-, hrest⟩ := List.forall_mem_cons.mp hall
      have hwhole := (Clears.undo hown hpending hundo hhands rest).tallies howns
      have hbegun := tallies_begun howns hpending true
      have hdone := hbegun.trans (hundo.tallies hbegun.owns)
      refine List.forall_mem_cons.mpr ⟨(hwhole.hasRun_iff hown).mpr (.inr ?_), ?_⟩
      · exact List.mem_cons_self
      · exact ih hdone.owns fun other hother =>
          ⟨(hrest other hother).1, Nat.lt_of_lt_of_le (hrest other hother).2 hdone.grows⟩

/-- The host undoes those handles that are to be undone and that no action undoes on the way, in
their order. -/
theorem Clears.inOrder (h : Clears code O handles w s w') (howns : O.Owns w)
    (hall : ∀ handle ∈ handles, O.handles handle ∧ handle < w.api.handles.length) :
    Story.undoneBy true s = (handles.filter fun handle =>
      (w.api.action? handle).isSome && !(Story.undoneBy false s).contains handle).eraseDups := by
  induction h with
  | nil w => rfl
  | @skip w w' s handle handles hnone rest ih =>
      obtain ⟨-, hrest⟩ := List.forall_mem_cons.mp hall
      rw [ih howns hrest, List.filter_cons_of_neg (by simp [hnone])]
  | @undo w w' s s' handle handles hown hpending hundo hhands rest ih =>
      obtain ⟨-, hrest⟩ := List.forall_mem_cons.mp hall
      have hbegun := tallies_begun howns hpending true
      have hdone := hbegun.trans (hundo.tallies hbegun.owns)
      have hwhole := (Clears.undo hown hpending hundo hhands rest).tallies howns
      have hmade : ∀ other ∈ handles, O.handles other ∧
          other < (World.dispose code handle w).2.api.handles.length := fun other hother =>
        ⟨(hrest other hother).1, Nat.lt_of_lt_of_le (hrest other hother).2 hdone.grows⟩
      -- It is undone once in all, so not by an action.
      have hself : handle ∉ Story.undoneBy false (s ++ s') := by
        intro hmem
        have honce := hwhole.count_le_one hown
        have hpos := List.count_pos_iff.mpr (Story.mem_undone_of_mem_undoneBy hmem)
        rw [Story.undone_cons_undone, List.count_cons_self] at honce
        omega
      have hbehind : (handles.filter fun other =>
          (w.api.action? other).isSome && !(Story.undoneBy false (s ++ s')).contains other).filter
            (fun other => !other == handle) = handles.filter fun other =>
          ((World.dispose code handle w).2.api.action? other).isSome &&
            !(Story.undoneBy false s').contains other := by
        rw [List.filter_filter]
        refine List.filter_congr fun other hother => ?_
        obtain ⟨hotherOwn, hotherMade⟩ := hrest other hother
        have hruns := hdone.hasRun_iff hotherOwn
        rw [Api.hasRun_eq_not hotherMade, Api.hasRun_eq_not (hmade other hother).2] at hruns
        rw [List.singleton_append, Story.undone_cons_undone, List.mem_cons] at hruns
        rw [Story.undoneBy_append, hundo.undoneBy_code, Bool.eq_iff_iff]
        simp only [Bool.and_eq_true, Bool.not_eq_true', List.contains_eq_mem,
          decide_eq_false_iff_not, List.mem_append, beq_eq_false_iff_ne]
        grind
      calc Story.undoneBy true (.undone handle true :: (s ++ s'))
          = handle :: Story.undoneBy true s' := by
            rw [Story.undoneBy_cons_self, Story.undoneBy_append, hundo.undoneBy_host,
              List.nil_append]
        _ = handle :: (handles.filter fun other =>
              ((World.dispose code handle w).2.api.action? other).isSome &&
                !(Story.undoneBy false s').contains other).eraseDups := by
            rw [ih hdone.owns hmade]
        _ = _ := by
            rw [← hbehind, ← List.eraseDups_cons, List.filter_cons_of_pos]
            · rfl
            · have hnot : handle ∉ Story.undoneBy false (.undone handle true :: (s ++ s')) := hself
              simp [hpending, hnot]

end World

/-! ## Parts of a deactivation -/

namespace World

variable {code : Code χ}

/-- A context without the handles that it was to undo. -/
def drained (n : ContextId) (w : World χ) : World χ :=
  (hostPart.comp (Host.context n)).modify (fun c => c.drain.2) w

theorem disposeContext_snd (code : Code χ) {n : ContextId} {w : World χ} {extension : String}
    {handles : List HandleId} (h : w.ties n = some (extension, handles)) :
    (disposeContext code n w).2 = (hostPart.comp (Host.context n)).modify Context.giveUp
      (disposeAll code handles.reverse (w.drained n)).2 := by
  obtain ⟨c, hc, hcontext⟩ := Option.map_eq_some_iff.mp h
  obtain ⟨-, rfl⟩ := Prod.mk.inj hcontext
  have hget : ((hostPart.comp (Host.context n)).get w).subscriptions = c.subscriptions := by
    simp [Focus.comp, hostPart, Host.context, hc]
  rw [← hget]
  rfl

theorem owns_drained {O : Owner} {w : World χ} (h : O.Owns w) (n : ContextId) :
    O.Owns (w.drained n) := by
  refine h.congr rfl fun m handles hties handle hmem => ⟨handles, ?_, hmem⟩
  rw [drained, ties_part] at hties
  split at hties
  · obtain ⟨c, -, hcontext⟩ := Option.map_eq_some_iff.mp hties
    obtain ⟨-, rfl⟩ := Prod.mk.inj hcontext
    cases hmem
  · exact hties

/-- What a deactivation does to an active extension: the extension is inactive before its module is
told, and behind that the host undoes the handles of its context and drops the rest. -/
theorem deactivate_alone {id : String} {e : Extension} {n : ContextId} {w w' : World χ}
    {result : Except Fault Unit} (hfind : w.host.find? id = some e) (hactive : e.isActive = true)
    (hcontext : e.context = some n) (h : (deactivate code id).alone w = some (result, w')) :
    result = .ok () ∧ ∃ w₁ w₂ : World χ,
      (w₁.api = w.api ∧ w₁.host.contexts = w.host.contexts ∧ ∀ other, w₁.host.find? other =
        if other = id then some { e with
          isActive := false, exports := .null, hasModule := false, context := none }
        else w.host.find? other) ∧
      (leave code id e.hasModule).alone w₁ = some ((), w₂) ∧
      w'.api = ((disposeContext code n w₂).2.api.release id).2 ∧
      w'.host.contexts = (disposeContext code n w₂).2.host.contexts ∧
      w'.host.extensions = (disposeContext code n w₂).2.host.extensions := by
  simp only [deactivate, Flow.bind_eq, Flow.alone_pause_bind, Flow.alone_read_bind, hfind,
    inTurn, Flow.bind_assoc, Flow.alone_sync_bind] at h
  obtain ⟨_, w₀, hturn, h⟩ := Flow.alone_bind_eq_some h
  obtain ⟨-, rfl⟩ := Flow.alone_untilReady_eq_some hturn
  have hqueued : (hostPart.zoom (fun h => h.takeTicket e.queue) w).2.host.find? id = some e :=
    hfind
  simp only [deactivateInTurn, Flow.bind_eq, Flow.alone_pause_bind, Flow.alone_sync_bind,
    zoom_becomeInactive hqueued hactive, hcontext, Flow.bind_assoc] at h
  obtain ⟨_, w₂, hleave, h⟩ := Flow.alone_bind_eq_some h
  simp only [Flow.alone_sync_bind, Flow.alone_pause_bind, Flow.pure_eq, Flow.alone_done,
    Flow.bind] at h
  obtain ⟨rfl, rfl⟩ := Prod.mk.inj (Option.some.inj h)
  refine ⟨rfl, hostPart.modify (fun h => h.modify id fun e => { e with
      isActive := false, exports := .null, hasModule := false, context := none })
    (hostPart.zoom (fun h => h.takeTicket e.queue) w).2, w₂, ⟨rfl, rfl, fun other => ?_⟩, hleave,
    rfl, rfl, rfl⟩
  refine (Host.find?_modify _ id other _).trans ?_
  split
  next hother =>
    subst hother
    exact congrArg (Option.map _) hfind
  · rfl

/-- A module that is told of the deactivation does what its code may do. -/
theorem works_leave {O : Owner} {w w' : World χ} {hasModule : Bool} (hcode : code.KeepsTo O)
    (howns : O.Owns w) (hnext : O.Next w)
    (h : (leave code O.id hasModule).alone w = some ((), w')) : ∃ s, w.Works code O s w' := by
  unfold leave at h
  split at h
  · obtain ⟨-, rfl⟩ := Prod.mk.inj (Option.some.inj h)
    exact ⟨[], .rest w⟩
  next entry hentry =>
    have hentry : code.entry O.id = some entry := by
      split at hentry
      · exact hentry
      · cases hentry
    obtain ⟨outcome, t, hdeactivate, hend⟩ := Flow.alone_bind_eq_some h
    obtain ⟨-, rfl⟩ := Prod.mk.inj (Option.some.inj hend)
    exact hcode.deactivate entry hentry w howns hnext outcome t hdeactivate

/-- What the host drops in the end is nothing of any other extension. -/
theorem sparesOthers_release {O : Owner} {w w' : World χ} (howns : O.Owns w)
    (hapi : w'.api = (w.api.release O.id).2) (hrecords : ∀ other, other ≠ O.id →
      w'.host.find? other = w.host.find? other) : SparesOthers O w w' := by
  refine ⟨?_, ?_, hrecords⟩
  · have hlive : w'.api.registry.live = w.api.registry.live.filter fun e => e.extension != O.id := by
      rw [hapi]
      exact howns.filed.live_unregisterExtension O.id
    rw [hlive, List.filter_filter]
    exact List.filter_congr fun e _ => by simp [bne]
  · have hentries : w'.api.statusBar.entries =
        w.api.statusBar.entries.filter fun e => !(e.item.extension == O.id) := by
      rw [hapi]
      rfl
    rw [hentries, List.filter_filter]
    exact List.filter_congr fun e _ => by simp

/-- What the host drops in the end leaves the handles of the extension as they are. -/
theorem undisturbed_release {O : Owner} {w w' : World χ}
    (hapi : w'.api = (w.api.release O.id).2) (hties : ∀ n, w'.ties n = w.ties n) :
    w.Undisturbed O w' := by
  have hfades := w.api.fades_release O.id
  rw [← hapi] at hfades
  have hhandles : w'.api.handles = w.api.handles := by
    rw [hapi]
    rfl
  refine ⟨fun handle _ => by rw [hhandles], Nat.le_of_eq (by rw [hhandles]),
    fun n handles h => (hties n).trans h, fun howns => ⟨?_, fun e he => ?_, ?_, ?_⟩⟩
  · have hregistry : w'.api.registry = (w.api.registry.unregisterExtension O.id).2 := by
      rw [hapi]
      rfl
    rw [hregistry, Registry.unregisterExtension_eq]
    exact howns.filed.unregisterAll _
  · have hcreated : w'.api.statusBar.created = w.api.statusBar.created := by
      rw [hapi]
      rfl
    rw [hcreated]
    exact howns.named e (hfades.items e he)
  · intro handle action hown haction
    rw [Api.action?, hhandles] at haction
    exact (howns.actions handle action hown haction).mono hfades.registrations hfades.items
  · intro n handles hn
    rw [hties] at hn
    rw [hhandles]
    exact howns.contexts n handles hn

end World

/-! ## Activation -/

/-- A new context belongs to its extension, and has no handles. -/
theorem Context.prepare_ok {layout : Layout} {id : String} {path : Path} {d d' : Disk}
    {c : Context} (h : d.perform (prepare layout id path) = (.ok c, d')) :
    c.extension = id ∧ c.subscriptions = [] := by
  unfold Disk.perform prepare at h
  simp only [ExceptT.run_bind, StateT.run_bind] at h
  generalize hmade : StateT.run (ExceptT.run (List.forM _ Disk.createFolders)) d = made at h
  obtain ⟨result, disk⟩ := made
  cases result with
  | error e => cases h
  | ok value =>
      cases h
      exact ⟨rfl, rfl⟩

namespace World

variable {code : Code χ} {O : Owner}

/-- What is made for an activation is a new context, and nothing of what extensions can reach. -/
theorem makeContext_cases {id : String} {path : Path} {w : World χ} {n : ContextId}
    (h : (makeContext id path w).1 = some n) :
    (makeContext id path w).2.api = w.api ∧
      (makeContext id path w).2.host.extensions = w.host.extensions ∧
      ∀ m, (makeContext id path w).2.ties m = if m = n then some (id, []) else w.ties m := by
  unfold makeContext at h ⊢
  split at h
  · cases h
  next context disk hprepare =>
    obtain rfl : w.host.contexts.length = n := Option.some.inj h
    obtain ⟨hextension, hhandles⟩ := Context.prepare_ok hprepare
    refine ⟨rfl, rfl, fun m => ?_⟩
    simp only [ties, Host.addContext]
    split
    next hm =>
      subst hm
      simp [hextension, hhandles]
    next hm =>
      rcases Nat.lt_or_gt_of_ne hm with hlt | hgt
      · rw [List.getElem?_append_left hlt]
      · rw [List.getElem?_append_right (Nat.le_of_lt hgt),
          List.getElem?_eq_none (Nat.le_of_lt hgt), List.getElem?_eq_none]
        simp
        omega

/-- An entry module that is run does what its code may do. -/
theorem works_enter (hcode : code.KeepsTo O) {w w' : World χ} {manifest : Manifest}
    {n : ContextId} {value : Json × Bool} (howns : O.Owns w) (hnew : w.ties n = some (O.id, []))
    (htakes : O.Takes w w') (h : (enter code O.id manifest n).alone w = some (value, w')) :
    ∃ s, w.Works code O s w' := by
  unfold enter at h
  split at h
  next entry hbuild =>
    obtain ⟨outcome, t, hactivate, hend⟩ := Flow.alone_bind_eq_some h
    obtain ⟨-, rfl⟩ := Prod.mk.inj (Option.some.inj hend)
    exact hcode.activate entry (entry_of_build hbuild) n w howns hnew outcome t hactivate htakes
  · obtain ⟨-, rfl⟩ := Prod.mk.inj (Option.some.inj h)
    exact ⟨[], .rest w⟩

/-- An extension that is activated while nothing else runs is active with a context that was new
when its module was called. -/
theorem told_activate (hcode : code.KeepsTo O) {w w' : World χ} {e : Extension} {force : Bool}
    (howns : O.Owns w) (hfind : w.host.find? O.id = some e) (hinactive : e.isActive = false)
    (htakes : O.Takes w w') (h : (activate code O.id force).alone w = some (true, w')) :
    ∃ (start : World χ) (n : ContextId) (active : Story) (e' : Extension),
      O.Owns start ∧ start.ties n = some (O.id, []) ∧ start.Told code O active w' ∧
        w'.host.find? O.id = some e' ∧ e'.isActive = true ∧ e'.context = some n := by
  simp only [activate, Flow.bind_eq, Flow.alone_pause_bind, Flow.alone_read_bind, hfind,
    hinactive, Bool.false_eq_true, if_false] at h
  split at h
  · cases h
  -- Its turn comes.
  simp only [inTurn, Flow.bind_eq, Flow.alone_sync_bind] at h
  obtain ⟨_, w₀, hturn, h⟩ := Flow.alone_bind_eq_some h
  obtain ⟨-, rfl⟩ := Flow.alone_untilReady_eq_some hturn
  obtain ⟨active, w₃, hbody, hend⟩ := Flow.alone_bind_eq_some h
  simp only [Flow.alone_sync_bind, Flow.pure_eq, Flow.alone_done] at hend
  obtain ⟨rfl, rfl⟩ := Prod.mk.inj (Option.some.inj hend)
  have hqueued : (hostPart.zoom (fun h => h.takeTicket e.queue) w).2.host.find? O.id = some e :=
    hfind
  have hquiet : w.Undisturbed O (hostPart.zoom (fun h => h.takeTicket e.queue) w).2 :=
    undisturbed_of_eq rfl rfl
  have howns₀ := hquiet.owns howns
  have hsame : (hostPart.zoom (fun h => h.takeTicket e.queue) w).2.api = w.api := rfl
  generalize (hostPart.zoom (fun h => h.takeTicket e.queue) w).2 = w₀ at *
  simp only [activateInTurn, Flow.bind_eq, Flow.alone_pause_bind, Flow.alone_read_bind, hqueued,
    hinactive, Bool.false_eq_true, if_false, Flow.alone_sync_bind] at hbody
  -- A context is made.
  split at hbody
  · cases hbody
  next n hcontext =>
    obtain ⟨hapi, hextensions, hties⟩ := makeContext_cases hcontext
    generalize (makeContext O.id e.path w₀).2 = start at hbody hapi hextensions hties
    have hnew : start.ties n = some (O.id, []) := (hties n).trans (if_pos rfl)
    have hstart : O.Owns start := by
      refine howns₀.congr hapi fun m handles hm handle hmem => ?_
      rw [hties] at hm
      split at hm
      · obtain ⟨-, rfl⟩ := Prod.mk.inj (Option.some.inj hm)
        cases hmem
      · exact ⟨handles, hm, hmem⟩
    -- The module is run.
    obtain ⟨⟨exports, hasModule⟩, t, henter, hbody⟩ := Flow.alone_bind_eq_some hbody
    simp only [Flow.alone_pause_bind, Flow.alone_sync_bind] at hbody
    cases hloaded : t.host.find? O.id with
    | none =>
        have hgone : (hostPart.zoom (becomeActive O.id exports hasModule n) t).1 = false := by
          have hget : (hostPart.get t).find? O.id = none := hloaded
          simp [Focus.zoom, becomeActive, hget]
        rw [hgone] at hbody
        cases hbody
    | some last =>
        rw [zoom_becomeActive hloaded] at hbody
        obtain ⟨-, rfl⟩ := Prod.mk.inj (Option.some.inj hbody)
        have htaken : O.Takes start t := by
          intro handle hge hlt
          refine htakes handle ?_ hlt
          rwa [← hsame, ← hapi]
        obtain ⟨s, hworks⟩ := works_enter hcode hstart hnew htaken henter
        have hactive := Host.find?_modify t.host O.id O.id fun e =>
          { e with isActive := true, exports, hasModule, context := some n }
        rw [if_pos rfl, hloaded] at hactive
        exact ⟨start, n, s, { last with isActive := true, exports, hasModule, context := some n },
          hstart, hnew, .others (.own (.rest start) hworks) (undisturbed_of_eq rfl rfl), hactive,
          rfl, rfl⟩

end World

/-! ## Deactivation -/

/-- The host undoes what was handed to a context, the last handle first. -/
def World.Cleared (code : Code χ) (O : Owner) (n : ContextId) (w : World χ) (s : Story)
    (w' : World χ) : Prop :=
  ∃ handles, w.ties n = some (O.id, handles) ∧
    (w.drained n).Clears code O handles.reverse s w'

/-- What a deactivation has cleaned up.  The context was new in `start`, the deactivation began in
`before`, the undoing of what was handed over in `left`, and `behind` is the end; the stories tell
of the time from each of these worlds to the next. -/
structure World.Cleaned (O : Owner) (n : ContextId) (start before left behind : World χ)
    (active leaving clearing : Story) : Prop where
  /-- Every handle that was handed over has been undone once. -/
  once : ∀ handle ∈ Story.handed n (active ++ leaving),
    (Story.undone (active ++ leaving ++ clearing)).count handle +
      (start.api.hasRun handle).toNat = 1
  /-- The host undid those that were left, and that no action undid on the way, the last one
  first. -/
  inReverse : Story.undoneBy true clearing =
    ((Story.handed n (active ++ leaving)).reverse.filter fun handle =>
      (left.api.action? handle).isSome &&
        !(Story.undoneBy false clearing).contains handle).eraseDups
  registrations : ∀ r ∈ behind.api.registry.live, r.extension ≠ O.id
  items : ∀ e ∈ behind.api.statusBar.entries, e.item.extension ≠ O.id
  record : ∃ e, behind.host.find? O.id = some e ∧ e.isActive = false ∧ e.exports = .null
  others : SparesOthers O before behind

/-- An active extension is deactivated while nothing else runs.  Whatever it did while it was
active, and whatever comes of the code that is called, each handle that was handed to its context
has been undone once, those that were left the last one first; nothing that it registered is left,
it is inactive without exports, and the others lose nothing. -/
theorem deactivate_cleans {code : Code χ} {O : Owner} (hcode : code.KeepsTo O) {n : ContextId}
    {start before behind : World χ} {active : Story} {e : Extension}
    {result : Except Fault Unit} (howns : O.Owns start) (hnew : start.ties n = some (O.id, []))
    (hactive : start.Told code O active before) (hfind : before.host.find? O.id = some e)
    (hisActive : e.isActive = true) (hcontext : e.context = some n) (hnext : O.Next before)
    (h : (World.deactivate code O.id).alone before = some (result, behind)) :
    result = .ok () ∧ ∃ leaving clearing left cleared,
      before.Told code O leaving left ∧ left.Cleared code O n clearing cleared ∧
        cleared.Told code O [] behind ∧
        start.Cleaned O n before left behind active leaving clearing := by
  obtain ⟨hresult, w₁, w₂, ⟨hapi, hcontexts, hrecord⟩, hleave, hreleased, hkept, hextensions⟩ :=
    World.deactivate_alone hfind hisActive hcontext h
  -- The module is told.
  have hquiet : before.Undisturbed O w₁ := World.undisturbed_of_eq hapi hcontexts
  have hstart := hactive.tallies howns
  have hinactive := hstart.trans (hquiet.tallies hstart.owns)
  have hnext₁ : O.Next w₁ := (hquiet.tallies hstart.owns).next hnext
  obtain ⟨leaving, hworks⟩ := World.works_leave hcode hinactive.owns hnext₁ hleave
  have htold : before.Told code O leaving w₂ := .own (.others (.rest before) hquiet) hworks
  have hleft := hworks.tallies hinactive.owns
  have hties : w₂.ties n = some (O.id, Story.handed n (active ++ leaving)) := by
    have hbefore := hactive.ties hnew
    rw [htold.ties hbefore, Story.handed_append, List.nil_append]
  -- The handles are undone.
  have hdrained := World.owns_drained hleft.owns n
  have hall := hleft.owns.contexts n _ hties
  have hreversed : ∀ handle ∈ (Story.handed n (active ++ leaving)).reverse, O.handles handle :=
    fun handle hhandle => (hall handle (List.mem_reverse.mp hhandle)).1
  obtain ⟨clearing, hclears⟩ := World.clears_disposeAll hcode hdrained (hleft.next hnext₁) hreversed
  have hcleared := hclears.tallies hdrained
  have hwhole := hstart.trans (htold.tallies hstart.owns)
  -- The host drops what is left.
  have hdisposed := World.disposeContext_snd code hties
  generalize (World.disposeAll code _ (w₂.drained n)).2 = cleared at hclears hcleared hdisposed
  rw [hdisposed] at hreleased hkept hextensions
  have hsameTies : ∀ m, behind.ties m = cleared.ties m := by
    intro m
    have hgivenUp := World.ties_part n m Context.giveUp cleared
    rw [World.ties, hkept]
    refine hgivenUp.trans ?_
    split <;> rfl
  have hrest : cleared.Undisturbed O behind := World.undisturbed_release hreleased hsameTies
  have hrecords : ∀ other, behind.host.find? other = w₁.host.find? other := by
    intro other
    have hsame : behind.host.extensions = w₁.host.extensions :=
      hextensions.trans (hclears.extensions.trans hworks.extensions)
    rw [Host.find?, hsame, Host.find?]
  refine ⟨hresult, leaving, clearing, w₂, cleared, htold, ⟨_, hties, hclears⟩,
    .others (.rest cleared) hrest, ⟨?_, ?_, ?_, ?_, ?_, ?_⟩⟩
  · intro handle hhandle
    obtain ⟨hown, hmade⟩ := hall handle hhandle
    have hrun : cleared.api.hasRun handle = true :=
      hclears.hasRun hdrained (fun other hother => hall other (List.mem_reverse.mp hother)) handle
        (List.mem_reverse.mpr hhandle)
    have hclearing := hcleared.runs handle hown
    have hactiveRuns := hwhole.runs handle hown
    have hsame : (w₂.drained n).api.hasRun handle = w₂.api.hasRun handle := rfl
    rw [hrun, Bool.toNat_true, hsame] at hclearing
    rw [Story.undone_append, List.count_append]
    omega
  · exact hclears.inOrder hdrained fun handle hhandle => hall handle (List.mem_reverse.mp hhandle)
  · intro r hr
    rw [hreleased] at hr
    exact (Api.mem_release _ _).1 r hr
  · intro e he
    rw [hreleased] at he
    exact (Api.mem_release _ _).2 e he
  · exact ⟨_, (hrecords O.id).trans ((hrecord O.id).trans (if_pos rfl)), rfl, rfl⟩
  · have hbegins : SparesOthers O before w₁ := by
      refine ⟨by rw [hapi], by rw [hapi], fun other hother => ?_⟩
      rw [hrecord other, if_neg hother]
    have hends : SparesOthers O cleared behind := by
      refine World.sparesOthers_release hcleared.owns hreleased fun other _ => ?_
      rw [Host.find?, hextensions, Host.find?]
      rfl
    have hclear : SparesOthers O w₂ cleared := by
      obtain ⟨hregistrations, hitems, hothers⟩ := hclears.sparesOthers hdrained
      exact ⟨hregistrations, hitems, hothers⟩
    exact hbegins.trans ((hworks.sparesOthers hinactive.owns).trans (hclear.trans hends))

/-! ## An extension that panics -/

namespace World

/-- Hands a handle that is just being made to a context. -/
def lend (n : ContextId) (make : Api → HandleId × Api) : StateM (World Unit) Unit := do
  let handle ← apiPart.zoom make
  modify (hand n handle)

/-- Registers a provider of hovers, makes a status bar item, and hands both to a context, together
with an action of its own. -/
def occupy (id : String) (n : ContextId) : StateM (World Unit) Unit := do
  lend n fun api => api.registerProvider .hover .any 0 id []
  let item ← apiPart.zoom fun api => api.createStatusItem id .left 0
  lend n fun api => api.keep (.statusItem item)
  lend n fun api => api.keep (.code 0)

end World

/-- Code that panics wherever it is called upon to clean up, after it has registered more. -/
def Code.panicking : Code Unit :=
  { Code.idle with
    undo := fun _ => return .panicked
    entry := fun id => some
      { activate := fun n => .sync do
          World.occupy id n
          return .returned .null
        deactivate := .sync do
          let _ ← World.apiPart.zoom fun api => api.registerProvider .hover .any 0 id []
          return .panicked } }

/-- The only extension, to which all handles belong. -/
def Owner.sole (id : String) : Owner := ⟨id, fun _ => True, fun _ => True⟩

namespace World

variable {O : Owner} {w : World Unit}

/-- What is made and handed over at once. -/
theorem works_lend (make : Api → HandleId × Api) {action : Undo} {api : Api} {n : ContextId}
    {handles : List HandleId} (hmake : make w.api = api.keep action)
    (hhandles : api.handles = w.api.handles)
    (hregisters : w.Works Code.panicking O [] { w with api }) (hown : O.IsOwn api action)
    (hall : ∀ handle, O.handles handle) (hcontext : w.ties n = some (O.id, handles)) :
    w.Works Code.panicking O [.handed w.api.handles.length n] (lend n make w).2 := by
  have hmade : apiPart.zoom make w =
      (w.api.handles.length, { w with api := (api.keep action).2 }) := by
    have hzoom : apiPart.zoom make w = ((make w.api).1, { w with api := (make w.api).2 }) := rfl
    rw [hzoom, hmake, ← hhandles]
    rfl
  have hlend : (lend n make w).2 =
      hand n w.api.handles.length { w with api := (api.keep action).2 } := by
    have hrun : (lend n make w).2 = hand n (apiPart.zoom make w).1 (apiPart.zoom make w).2 := rfl
    rw [hrun, hmade]
  have hkeep : Contributes O { w with api } { w with api := (api.keep action).2 } :=
    contributes_keep (w := { w with api }) hown
  have hkept : ties n { w with api := (api.keep action).2 } = some (O.id, handles) := hcontext
  rw [hlend]
  refine .trans (s := []) hregisters (.trans (s := []) (.contribute hkeep)
    (.hand hkept (hall _) ?_))
  simp [Api.keep, hhandles]

/-- What the module does when it is activated is what its code may do. -/
theorem works_occupy {n : ContextId} (howns : O.Owns w) (hall : ∀ handle, O.handles handle)
    (hcallbacks : ∀ callback, O.callbacks callback) (hcontext : w.ties n = some (O.id, [])) :
    ∃ s, w.Works Code.panicking O s (occupy O.id n w).2 := by
  have hprovider := works_lend (fun api => api.registerProvider .hover .any 0 O.id [])
    rfl rfl (.contribute (contributes_register .hover .any 0 []))
    (howns.isOwn_registered .hover .any 0 []) hall hcontext
  have hcontext₁ := hprovider.ties hcontext
  have howns₁ := (hprovider.tallies howns).owns
  generalize hw₁ : (lend n (fun api => api.registerProvider .hover .any 0 O.id []) w).2 = w₁
    at hprovider hcontext₁ howns₁
  have hcreate := contributes_createStatusItem (O := O) (w := w₁) .left 0
  have hitem := works_lend
    (fun api => api.keep (.statusItem (w₁.api.createStatusItem O.id .left 0).1))
    (w := { w₁ with api := (w₁.api.createStatusItem O.id .left 0).2 }) rfl rfl (.rest _)
    (howns₁.isOwn_created .left 0) hall ((hcreate.ties n).trans hcontext₁)
  have hcontext₂ := hitem.ties ((hcreate.ties n).trans hcontext₁)
  generalize hw₂ : (lend n (fun api => api.keep
    (.statusItem (w₁.api.createStatusItem O.id .left 0).1))
    { w₁ with api := (w₁.api.createStatusItem O.id .left 0).2 }).2 = w₂ at hitem hcontext₂
  have hcode := works_lend (fun api => api.keep (.code 0)) (w := w₂) rfl rfl (.rest _)
    (hcallbacks 0) hall hcontext₂
  have hend : (occupy O.id n w).2 = (lend n (fun api => api.keep (.code 0)) w₂).2 := by
    rw [← hw₂, ← hw₁]
    rfl
  rw [hend]
  exact ⟨_, hprovider.trans (.trans (.contribute hcreate) (hitem.trans hcode))⟩

end World

theorem Code.keepsTo_panicking (id : String) : Code.panicking.KeepsTo (.sole id) where
  undo callback _ w _ _ := ⟨[], .rest w, fun _ => rfl⟩
  activate entry hentry n w howns hnew outcome w' h _ := by
    cases hentry
    obtain ⟨-, rfl⟩ := Prod.mk.inj (Option.some.inj h)
    exact World.works_occupy howns (fun _ => trivial) (fun _ => trivial) hnew
  deactivate entry hentry w howns _ outcome w' h := by
    cases hentry
    obtain ⟨-, rfl⟩ := Prod.mk.inj (Option.some.inj h)
    exact ⟨[], .trans (.contribute (World.contributes_register .hover .any 0 []))
      (.contribute (World.contributes_keep (howns.isOwn_registered .hover .any 0 [])))⟩

/-- The extension is activated and deactivated again, panicking all the way, and everything is
cleaned up. -/
theorem deactivate_cleans_panicking : ∃ start before behind active leaving clearing left n,
    (World.activate Code.panicking "me.py" true).alone (World.ofExtensions () ["me.py"]) =
        some (true, before) ∧
      before.api.registry.live.length = 1 ∧ before.api.statusBar.entries.length = 1 ∧
      (World.deactivate Code.panicking "me.py").alone before = some (.ok (), behind) ∧
      World.Cleaned (.sole "me.py") n start before left behind active leaving clearing := by
  have hrun : (((World.activate Code.panicking "me.py" true).alone
      (World.ofExtensions () ["me.py"])).bind fun r =>
        ((World.deactivate Code.panicking "me.py").alone r.2).map fun r' =>
          (r.1, r.2.api.registry.live.length, r.2.api.statusBar.entries.length, r'.1.isOk)) =
      some (true, 1, 1, true) := by
    decide +kernel
  obtain ⟨⟨active, before⟩, hactivate, hrest⟩ := Option.bind_eq_some_iff.mp hrun
  obtain ⟨⟨result, behind⟩, hdeactivate, hvalues⟩ := Option.map_eq_some_iff.mp hrest
  obtain ⟨rfl, hvalues⟩ := Prod.mk.inj hvalues
  obtain ⟨hlive, hvalues⟩ := Prod.mk.inj hvalues
  obtain ⟨hentries, -⟩ := Prod.mk.inj hvalues
  have howns : (Owner.sole "me.py").Owns (World.ofExtensions () ["me.py"]) :=
    Owner.owns_of_new rfl rfl
  have hfind : ∃ e, (World.ofExtensions () ["me.py"]).host.find? "me.py" = some e ∧
      e.isActive = false := ⟨_, rfl, rfl⟩
  obtain ⟨e, hfind, hinactive⟩ := hfind
  obtain ⟨start, n, story, e', hstart, hnew, htold, hloaded, hisActive, hcontext⟩ :=
    World.told_activate (Code.keepsTo_panicking "me.py") howns hfind hinactive
      (fun _ _ _ => trivial) hactivate
  obtain ⟨rfl, leaving, clearing, left, cleared, -, -, -, hcleaned⟩ :=
    deactivate_cleans (Code.keepsTo_panicking "me.py") hstart hnew htold hloaded hisActive hcontext
      (fun _ _ => trivial) hdeactivate
  exact ⟨start, before, behind, story, leaving, clearing, left, n, hactivate, hlive, hentries,
    hdeactivate, hcleaned⟩

end EditorHost
