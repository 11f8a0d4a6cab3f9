import EditorHost.Proofs.Extension.Housekeeping
import EditorHost.Proofs.Extension.Line

/-!
# How the host's calls conduct themselves

All calls of the host go by the protocol of an extension's line, provided that the code of
extensions does: that other modules, listeners and undo actions stand by, and that the module of
the extension takes its resource through the phases (`Subject.Fits`).
-/

namespace EditorHost

variable {χ : Type}

open World (hostPart clientPart)

namespace Subject

/-- The code of extensions leaves an extension and its module alone, as far as it is not the module
itself. -/
structure LeftAlone (L : Subject χ) : Prop where
  listener : ∀ callback notice, Keeps L.Bystands (L.code.listener callback notice)
  undo : ∀ callback, Keeps L.Bystands (L.code.undo callback)
  others : ∀ other entry, L.code.entry other = some entry → other ≠ L.id →
    (∀ context, (entry.activate context).Within L.Bystands) ∧ entry.deactivate.Within L.Bystands
  /-- Phases do not notice what the host does of itself. -/
  fades : ∀ phase w w', w'.host.find? L.id = w.host.find? L.id → w.Fades w' →
    L.At phase w → L.At phase w'

/-- A call has its turn, and is as far as a phase. -/
def Reaches (L : Subject χ) (t : Nat) (phase : Phase) (k : Place) : Prop :=
  ∃ phase', k = .busy t phase' ∧ ∀ w, L.At phase' w → L.At phase w

theorem Reaches.of_eq {L : Subject χ} {t : Nat} {phase : Phase} {k : Place}
    (h : k = .busy t phase) : L.Reaches t phase k := ⟨phase, h, fun _ hat => hat⟩

/-- All code of extensions goes by the protocol of an extension's line, and the phases of the
module are what the host takes them for. -/
structure Fits (L : Subject χ) : Prop extends L.LeftAlone where
  activate : ∀ entry, L.code.entry L.id = some entry → ∀ c context t w,
    (entry.activate context).Follows L.protocol c (fun _ k => L.Reaches t (.entered context) k)
      (.busy t .outside) w
  deactivate : ∀ entry, L.code.entry L.id = some entry → ∀ c context t w,
    entry.deactivate.Follows L.protocol c (fun _ k => L.Reaches t (.left context) k)
      (.busy t (.leaving context)) w
  arrives : ∀ w e exports hasModule context, w.host.find? L.id = some e → e.isActive = false →
    L.At (if hasModule then .entered context else .outside) w →
      L.At (if hasModule then .inside else .outside)
        (hostPart.zoom (World.becomeActive L.id exports hasModule context) w).2
  departs : ∀ w e, w.host.find? L.id = some e → e.isActive = true → L.At (restPhase e) w →
    L.At (if e.hasModule then .leaving e.context else .left e.context)
      (hostPart.zoom (World.becomeInactive L.id) w).2
  disposes : ∀ w context, L.At (.left context) w → L.At .disposed
    (context.elim w fun context => (World.disposeContext L.code context w).2)
  kills : ∀ w, L.At .disposed w → L.At .cleared
    (hostPart.zoom (fun h => h.killProcesses fun owner => owner == L.id) w).2
  releases : ∀ w, L.isActive w = false → L.At .cleared w → L.At .outside (World.release L.id w).2

variable {L : Subject χ} {w w' : World χ}

/-! ## What stands by -/

theorem aside_of_eq (hextensions : w'.host.extensions = w.host.extensions)
    (hqueues : w'.host.queues = w.host.queues) (htickets : w'.host.tickets = w.host.tickets) :
    L.Aside w w' := by
  have hfind (id : String) : w'.host.find? id = w.host.find? id := by
    simp [Host.find?, hextensions]
  refine ⟨⟨fun other e he => ⟨e, hfind other ▸ he, rfl⟩, ?_, ?_⟩, hfind L.id, ?_⟩
  · exact Nat.le_of_eq (congrArg List.length hqueues.symm)
  · exact Nat.le_of_eq htickets.symm
  · simp [line, hqueues]

theorem LeftAlone.bystands_client (halone : L.LeftAlone) (w : World χ) (client : Rpc.Client) :
    L.Bystands w { w with client } :=
  ⟨aside_of_eq rfl rfl rfl, fun phase =>
    halone.fades phase _ _ rfl ⟨rfl, .refl w.api, .refl w.host⟩⟩

theorem LeftAlone.bystands_mark (halone : L.LeftAlone) (id : String) (disabled : Bool)
    (w : World χ) : L.Bystands w { w with host := (w.host.mark id disabled).2 } := by
  have hmark : (w.host.mark id disabled).2 = { w.host with
      disabled := (w.host.mark id disabled).2.disabled } := by
    simp only [Host.mark]
    split
    · rfl
    · split <;> rfl
  rw [hmark]
  exact ⟨aside_of_eq rfl rfl rfl, fun phase =>
    halone.fades phase _ _ rfl ⟨rfl, .refl w.api, Host.fades_of_eq rfl rfl⟩⟩

/-- The record of another extension is changed. -/
theorem LeftAlone.bystands_modify (halone : L.LeftAlone) {other : String} (hother : other ≠ L.id)
    {change : Extension → Extension} (hqueue : ∀ e, (change e).queue = e.queue) (w : World χ) :
    L.Bystands w (hostPart.modify (fun h => h.modify other change) w) := by
  have hrecord : (hostPart.modify (fun h => h.modify other change) w).host.find? L.id =
      w.host.find? L.id :=
    (w.host.find?_modify other L.id change).trans (if_neg (Ne.symm hother))
  refine ⟨⟨w.keepsQueues_modify other hqueue, hrecord, rfl⟩, fun phase => ?_⟩
  exact halone.fades phase _ _ hrecord ⟨rfl, .refl w.api, Host.fades_of_eq rfl rfl⟩

/-- Somebody moves in the queue of another extension. -/
theorem LeftAlone.bystands_move (halone : L.LeftAlone) {queue : QueueId} (hqueue : queue ≠ L.queue)
    (change : List Nat → List Nat) {tickets : Nat} (htickets : w.host.tickets ≤ tickets) :
    L.Bystands w { w with host := { w.host with
      tickets, queues := w.host.queues.modify queue change } } := by
  refine ⟨⟨⟨fun _ e he => ⟨e, he, rfl⟩, ?_, htickets⟩, rfl, ?_⟩, fun phase => ?_⟩
  · exact Nat.le_of_eq (List.length_modify _ _ _).symm
  · simp only [line]
    rw [List.getElem?_modify_ne _ _ hqueue]
  · exact halone.fades phase _ _ rfl ⟨rfl, .refl w.api, Host.fades_of_eq rfl rfl⟩

/-- Whatever the host does, and does not do to the extension itself, stands by. -/
theorem LeftAlone.rules (halone : L.LeftAlone) :
    HouseRules L.code L.Bystands (· ≠ L.id) (· ≠ L.queue) where
  refl := .refl
  trans := .trans
  listener := halone.listener
  undo := halone.undo
  activate id entry hid hentry := (halone.others id entry hentry hid).1
  deactivate id entry hid hentry := (halone.others id entry hentry hid).2
  tends w w' h :=
    have haside : L.Aside w w' := aside_of_eq h.extensions h.queues h.tickets
    ⟨haside, fun phase => halone.fades phase w w' haside.record h.fades⟩
  modify _ _ w hid hqueue := halone.bystands_modify hid hqueue w
  move _ change _ _ hqueue htickets := halone.bystands_move hqueue change htickets

/-! ## Work on the extension itself -/

section Own

variable {c : HostCall}

theorem allows_bystands {k : Place} (hk : k.isWaiting = false) :
    L.protocol.Allows c (· = k) L.Bystands := by
  refine ⟨?_, ?_⟩
  · rintro _ w w' rfl h
    exact ⟨_, rfl, .bystand hk h⟩
  · rintro _ w rfl -
    exact ⟨_, rfl, .stay hk⟩

/-- Who stands by stays where it is. -/
theorem follows_of_within {α : Type} {flow : Flow (World χ) α} (h : flow.Within L.Bystands)
    {k : Place} (hk : k.isWaiting = false) :
    flow.Follows L.protocol c (fun _ k' => k' = k) k w :=
  h.follows (allows_bystands hk) (allows_bystands rfl) (.inl rfl) rfl

theorem joins_takeTicket (halone : L.LeftAlone) (hloaded : L.Loaded w) :
    L.Joins w (hostPart.zoom (fun h => h.takeTicket L.queue) w).2 := by
  refine ⟨⟨fun _ e he => ⟨e, he, rfl⟩, ?_, Nat.le_succ _⟩, rfl, fun phase => ?_, ?_,
    Nat.lt_succ_self _⟩
  · exact Nat.le_of_eq (List.length_modify _ _ _).symm
  · exact halone.fades phase _ _ rfl ⟨rfl, .refl w.api, Host.fades_of_eq rfl rfl⟩
  · show ((w.host.queues.modify L.queue fun waiting => waiting ++ [w.host.tickets])[L.queue]?).getD
      [] = (w.host.queues[L.queue]?).getD [] ++ [w.host.tickets]
    rw [List.getElem?_modify_eq, List.getElem?_eq_getElem hloaded.room]
    rfl

theorem quits_giveBack (halone : L.LeftAlone) (t : Nat) (w : World χ) :
    L.Quits t w (hostPart.zoom (fun h => ((), h.giveBack L.queue t)) w).2 := by
  refine ⟨⟨fun _ e he => ⟨e, he, rfl⟩, ?_, Nat.le_refl _⟩, rfl, fun phase => ?_, ?_⟩
  · exact Nat.le_of_eq (List.length_modify _ _ _).symm
  · exact halone.fades phase _ _ rfl ⟨rfl, .refl w.api, Host.fades_of_eq rfl rfl⟩
  · show ((w.host.queues.modify L.queue fun waiting => waiting.erase t)[L.queue]?).getD [] =
      ((w.host.queues[L.queue]?).getD []).erase t
    rw [List.getElem?_modify_eq]
    cases w.host.queues[L.queue]? <;> rfl

theorem first_of_isTurnOf {t : Nat} (h : w.host.isTurnOf L.queue t = true) :
    (L.line w).head? = some t := by
  rw [Host.isTurnOf, beq_iff_eq] at h
  obtain ⟨waiting, hwaiting, hfirst⟩ := Option.bind_eq_some_iff.mp h
  simpa [line, hwaiting] using hfirst

/-- A call gets in line, does what it came for when it is its turn, and goes. -/
theorem Fits.follows_inTurn {α : Type} (hfit : L.Fits) (hloaded : L.Loaded w)
    {body : Flow (World χ) α} (hbody : ∀ t w, body.Follows L.protocol c
      (fun _ k => k = .served t ∨ k = .failed t) (.called t) w) :
    (World.inTurn L.queue body).Follows L.protocol c (fun _ k => k = .gone) .away w := by
  refine Flow.follows_sync (.join (joins_takeTicket hfit.toLeftAlone hloaded)) ?_
  refine Flow.follows_untilReady fun s _ hready => ⟨_, .call (first_of_isTurnOf hready), ?_⟩
  refine (hbody _ s).bind fun value k s hk => ?_
  exact Flow.follows_sync (.quit hk (quits_giveBack hfit.toLeftAlone _ s)) rfl

/-- The record of the extension is changed. -/
theorem alters_modify (change : Extension → Extension) {e : Extension}
    (hfind : w.host.find? L.id = some e) (hqueue : ∀ e, (change e).queue = e.queue)
    (hmodules : (change e).hasModule = true →
      (change e).isActive = true ∧ (L.code.entry L.id).isSome = true) :
    L.Alters w (hostPart.modify (fun h => h.modify L.id change) w) e (change e) := by
  refine ⟨w.keepsQueues_modify L.id hqueue, rfl, hfind, ?_, hqueue e, hmodules⟩
  exact (w.host.find?_modify L.id L.id change).trans (by simp [hfind])

theorem Fits.follows_enter (hfit : L.Fits) (manifest : Manifest) (context : ContextId) (t : Nat) :
    (World.enter L.code L.id manifest context).Follows L.protocol c
      (fun result k => L.Reaches t (if result.2 then .entered context else .outside) k ∧
        (result.2 = true → (L.code.entry L.id).isSome = true)) (.busy t .outside) w := by
  unfold World.enter
  split
  next entry hbuild =>
    have hentry := World.entry_of_build hbuild
    refine (hfit.activate entry hentry c context t w).bind fun outcome k s hk => ?_
    exact ⟨hk, fun _ => by simp [hentry]⟩
  · exact ⟨.of_eq rfl, fun h => nomatch h⟩

theorem Fits.may_becomeActive (hfit : L.Fits) (hc : c.activates = true) (exports : Json)
    {hasModule : Bool} {context : ContextId} {t : Nat}
    (hentry : hasModule = true → (L.code.entry L.id).isSome = true) {k : Place}
    (hk : L.Reaches t (if hasModule then .entered context else .outside) k)
    (hknows : L.Knows c k w) :
    L.May c k w (.served t)
        (hostPart.zoom (World.becomeActive L.id exports hasModule context) w).2 ∧
      (hostPart.zoom (World.becomeActive L.id exports hasModule context) w).1 = true := by
  obtain ⟨phase, rfl, hphase⟩ := hk
  obtain ⟨e, hfind, -⟩ := hknows.loaded.record
  have hinactive : e.isActive = false := (isActive_of_find? hfind).symm.trans hknows.holds.1
  have harrives := hfit.arrives w e exports hasModule context hfind hinactive
  rw [World.zoom_becomeActive hfind] at harrives ⊢
  have halters := alters_modify (L := L) (fun e =>
    { e with isActive := true, exports, hasModule, context := some context }) hfind (fun _ => rfl)
    fun h => ⟨rfl, hentry h⟩
  exact ⟨.activated hc halters rfl fun hat => harrives (hphase w hat), rfl⟩

/-- An activation whose turn it is finds the extension active, or makes it so if it can. -/
theorem Fits.follows_activateInTurn (hfit : L.Fits) (hc : c.activates = true) (path : Path)
    (manifest : Manifest) (t : Nat) (w : World χ) :
    (World.activateInTurn L.code L.id path manifest).Follows L.protocol c
      (fun _ k => k = .served t ∨ k = .failed t) (.called t) w := by
  refine Flow.follows_pause fun s hknows => ?_
  obtain ⟨e, hfind, -⟩ := hknows.loaded.record
  cases hactive : e.isActive with
  | true =>
      have hneedless : L.isActive s = c.activates := by
        rw [isActive_of_find? hfind, hactive, hc]
      refine ⟨.served t, .needless hneedless, Flow.follows_read (.bystand rfl (.refl s)) ?_⟩
      simp only [hfind, hactive, if_true]
      exact .inl rfl
  | false =>
      have hinactive : L.isActive s = false := by rw [isActive_of_find? hfind, hactive]
      cases hmade : (World.makeContext L.id path s).1 with
      | none =>
          have hnot : ¬s.CanMake L.id := fun hcan => by simpa [hmade] using hcan path
          refine ⟨.failed t, .fail hc hinactive hnot, Flow.follows_read (.bystand rfl (.refl s)) ?_⟩
          simp only [hfind, hactive]
          refine Flow.follows_sync (.bystand rfl (hfit.rules.keeps_makeContext L.id path s)) ?_
          rw [hmade]
          exact .inr rfl
      | some context =>
          refine ⟨.busy t .outside, .setOut hinactive,
            Flow.follows_read (.bystand rfl (.refl s)) ?_⟩
          simp only [hfind, hactive]
          refine Flow.follows_sync (.bystand rfl (hfit.rules.keeps_makeContext L.id path s)) ?_
          rw [hmade]
          refine (hfit.follows_enter manifest context t).bind fun result k s hk => ?_
          obtain ⟨exports, hasModule⟩ := result
          obtain ⟨hreach, hentry⟩ := hk
          have hbusy : k.isWaiting = false := by
            obtain ⟨phase, rfl, -⟩ := hreach
            rfl
          refine Flow.follows_pause fun s hknows => ⟨_, .stay hbusy, ?_⟩
          have hmay := hfit.may_becomeActive hc exports hentry hreach hknows
          refine Flow.follows_sync hmay.1 ?_
          rw [hmay.2]
          exact Flow.follows_sync (.bystand rfl (hfit.rules.keeps_emit _ _)) (.inl rfl)

theorem Fits.may_becomeInactive (hfit : L.Fits) (hc : c.activates = false) {e : Extension} {t : Nat}
    (hfind : w.host.find? L.id = some e) (hactive : e.isActive = true) :
    L.May c (.called t) w
        (.busy t (if e.hasModule then .leaving e.context else .left e.context))
        (hostPart.zoom (World.becomeInactive L.id) w).2 ∧
      (hostPart.zoom (World.becomeInactive L.id) w).1 = some (e.hasModule, e.context) := by
  have hdeparts := hfit.departs w e hfind hactive
  rw [World.zoom_becomeInactive hfind hactive] at hdeparts ⊢
  have halters := alters_modify (L := L) (fun e =>
    { e with isActive := false, exports := .null, hasModule := false, context := none })
    hfind (fun _ => rfl) fun h => nomatch h
  exact ⟨.deactivated hc halters rfl hdeparts, rfl⟩

theorem Fits.follows_leave (hfit : L.Fits) {hasModule : Bool} {context : Option ContextId}
    (hentry : hasModule = true → (L.code.entry L.id).isSome = true) (t : Nat) :
    (World.leave L.code L.id hasModule).Follows L.protocol c
      (fun _ k => L.Reaches t (.left context) k)
      (.busy t (if hasModule then .leaving context else .left context)) w := by
  unfold World.leave
  cases hasModule with
  | false => exact .of_eq rfl
  | true =>
      obtain ⟨entry, hsome⟩ := Option.isSome_iff_exists.mp (hentry rfl)
      simp only [if_true, hsome]
      exact (hfit.deactivate entry hsome c context t w).bind fun _ _ _ hk => hk

/-- What is left of a deactivation when the module has been told. -/
theorem Fits.follows_clear (hfit : L.Fits) (hc : c.activates = false)
    {context : Option ContextId} {t : Nat} {k : Place} (hk : L.Reaches t (.left context) k) :
    Flow.Follows L.protocol c (fun _ k => k = .served t ∨ k = .failed t) (do
        match context with
        | some context => Flow.sync (World.disposeContext L.code context)
        | none => pure ()
        Flow.pause
        let _ ← Flow.sync (hostPart.zoom fun h => h.killProcesses fun owner => owner == L.id)
        Flow.sync (World.release L.id)) k w := by
  obtain ⟨phase, rfl, hphase⟩ := hk
  -- Nothing more is done to the context, and the processes are still to be killed.
  have hrest {phase : Phase} (hphase : ∀ w, L.At phase w → L.At .disposed w) (w : World χ) :
      Flow.Follows L.protocol c (fun _ k => k = .served t ∨ k = .failed t) (do
        Flow.pause
        let _ ← Flow.sync (hostPart.zoom fun h => h.killProcesses fun owner => owner == L.id)
        Flow.sync (World.release L.id) : Flow (World χ) Unit) (.busy t phase) w := by
    refine Flow.follows_pause fun s _ => ⟨_, .stay rfl, ?_⟩
    have hkill : L.May c (.busy t phase) s (.busy t .cleared) _ :=
      .work (hfit.rules.keeps_kill _ s).toAside fun h => hfit.kills s (hphase s h)
    refine Flow.follows_sync hkill ?_
    exact ⟨_, .released hc (hfit.rules.keeps_release L.id _).toAside (hfit.releases _), .inl rfl⟩
  cases context with
  | none => exact hrest (fun w hat => hfit.disposes w none (hphase w hat)) w
  | some context =>
      have hdispose : L.May c (.busy t phase) w (.busy t .disposed) _ :=
        .work (hfit.rules.keeps_disposeContext context w).toAside fun hat =>
          hfit.disposes w (some context) (hphase w hat)
      exact Flow.follows_sync hdispose (hrest (fun _ h => h) _)

/-- A deactivation whose turn it is finds the extension inactive, or makes it so. -/
theorem Fits.follows_deactivateInTurn (hfit : L.Fits) (hc : c.activates = false) (t : Nat)
    (w : World χ) : (World.deactivateInTurn L.code L.id).Follows L.protocol c
      (fun _ k => k = .served t ∨ k = .failed t) (.called t) w := by
  refine Flow.follows_pause fun s hknows => ?_
  obtain ⟨e, hfind, -, hmodule⟩ := hknows.loaded.record
  cases hactive : e.isActive with
  | true =>
      have hmay := hfit.may_becomeInactive hc (t := t) hfind hactive
      refine ⟨.called t, .stay rfl, Flow.follows_sync hmay.1 ?_⟩
      rw [hmay.2]
      exact (hfit.follows_leave (fun h => (hmodule h).2) t).bind fun _ k s hk =>
        hfit.follows_clear hc hk
  | false =>
      have hneedless : L.isActive s = c.activates := by
        rw [isActive_of_find? hfind, hactive, hc]
      have hbecome : hostPart.zoom (World.becomeInactive L.id) s = (none, s) := by
        have hget : (hostPart.get s).find? L.id = some e := hfind
        simp only [Focus.zoom, World.becomeInactive, hget, hactive]
        rfl
      have hmay : L.May c (.served t) s (.served t)
          (hostPart.zoom (World.becomeInactive L.id) s).2 := by
        rw [hbecome]
        exact .bystand rfl (.refl s)
      refine ⟨.served t, .needless hneedless, Flow.follows_sync hmay ?_⟩
      rw [hbecome]
      exact .inl rfl

end Own

/-! ## Calls -/

section Calls

variable {c : HostCall} {k : Place}

/-- A call that has nothing to do with the extension waits for its next stretch. -/
theorem follows_pause_away {α : Type} {Ends : α → Place → Prop} {next : Unit → Flow (World χ) α}
    (hk : k.IsOut)
    (h : ∀ s, L.Loaded s → (next ()).Follows L.protocol c Ends .away s) :
    (Flow.pause.bind next).Follows L.protocol c Ends k w := by
  refine Flow.follows_pause fun s hknows => ⟨.away, ?_, h s hknows.loaded⟩
  rcases hk with rfl | rfl
  · exact .stay rfl
  · exact .back

theorem follows_read_away {α β : Type} {Ends : α → Place → Prop} {view : World χ → β}
    {next : β → Flow (World χ) α} (h : (next (view w)).Follows L.protocol c Ends .away w) :
    ((Flow.read view).bind next).Follows L.protocol c Ends .away w :=
  Flow.follows_read (.bystand rfl (.refl w)) h

theorem Loaded.queue_ne (h : L.Loaded w) {other : String} {e : Extension}
    (hfind : w.host.find? other = some e) (hother : other ≠ L.id) : e.queue ≠ L.queue :=
  fun hqueue => hother (h.owners other e hfind hqueue)

theorem Loaded.queue_eq (h : L.Loaded w) {e : Extension} (hfind : w.host.find? L.id = some e) :
    e.queue = L.queue := by
  obtain ⟨e', hfind', hqueue, -⟩ := h.record
  rw [hfind, Option.some.injEq] at hfind'
  rw [hfind', hqueue]

theorem Fits.follows_activate (hfit : L.Fits) (hc : c.activates = true) (id : String)
    (force : Bool) (hk : k.IsOut) :
    (World.activate L.code id force).Follows L.protocol c (fun _ k => k.IsOut)
      k w := by
  refine follows_pause_away hk fun s hloaded => follows_read_away ?_
  cases hfind : s.host.find? id with
  | none => exact .inl rfl
  | some e =>
      dsimp only
      split
      · exact .inl rfl
      split
      · exact .inl rfl
      · by_cases hid : id = L.id
        · subst hid
          rw [hloaded.queue_eq hfind]
          refine (hfit.follows_inTurn hloaded ?_).mono fun _ _ hk => .inr hk
          exact hfit.follows_activateInTurn hc e.path e.manifest
        · have hbody := hfit.rules.within_activateInTurn hid e.path e.manifest
          have hturn := hfit.rules.within_inTurn (hloaded.queue_ne hfind hid) hbody
          exact (follows_of_within hturn rfl).mono fun _ _ hk => .inl hk

theorem Fits.follows_deactivate (hfit : L.Fits) (hc : c.activates = false) (id : String)
    (hk : k.IsOut) :
    (World.deactivate L.code id).Follows L.protocol c (fun _ k => k.IsOut) k w := by
  refine follows_pause_away hk fun s hloaded => follows_read_away ?_
  cases hfind : s.host.find? id with
  | none => exact .inl rfl
  | some e =>
      by_cases hid : id = L.id
      · subst hid
        simp only [hloaded.queue_eq hfind]
        refine (hfit.follows_inTurn hloaded ?_).bind fun _ _ _ hk => .inr hk
        exact hfit.follows_deactivateInTurn hc
      · have hturn := hfit.rules.within_inTurn (hloaded.queue_ne hfind hid)
          (hfit.rules.within_deactivateInTurn hid)
        exact (follows_of_within hturn rfl).bind fun _ _ _ hk => .inl hk

theorem Fits.follows_activateByEvent (hfit : L.Fits) (hc : c.activates = true) (event : String)
    (hk : k.IsOut) :
    (World.activateByEvent L.code event).Follows L.protocol c
      (fun _ k => k.IsOut) k w := by
  refine follows_pause_away hk fun s _ => follows_read_away ?_
  split
  · exact .inl rfl
  · refine Flow.follows_sync (.bystand rfl (hfit.rules.keeps_openJoin s)) ?_
    have hone (join : Nat) (id : String) (k : Place) (s : World χ) (hk : k.IsOut) :
        (Flow.start .joined do
          let active ← World.activate L.code id false
          Flow.sync (hostPart.zoom (World.noteJoined join id active))).Follows L.protocol c
            (fun _ k => k.IsOut) k s := by
      refine ⟨fun s _ => Flow.Follows.strand ?_, hk⟩
      refine (hfit.follows_activate hc id false (.inl rfl)).bind fun active k s hk => ?_
      have hnote := hfit.rules.keeps_noteJoined join id active s
      exact ⟨k, .bystand hk.isWaiting hnote, hk⟩
    refine (Flow.follows_each (hone _) (.inl rfl)).bind fun _ k s hk => ?_
    refine Flow.follows_untilReady fun s _ _ => ⟨k, .stay hk.isWaiting, ?_⟩
    exact Flow.follows_read (.bystand hk.isWaiting (.refl s)) hk

theorem LeftAlone.within_setDisabled (halone : L.LeftAlone) (id : String) (disabled : Bool) :
    (World.setDisabled id disabled : Flow (World χ) _).Within L.Bystands :=
  halone.rules.within_setDisabled (halone.bystands_mark id disabled)

theorem Fits.follows_disable (hfit : L.Fits) (hc : c.activates = false) (id : String)
    (hk : k.IsOut) :
    (World.disable L.code id).Follows L.protocol c (fun _ k => k.IsOut) k w := by
  refine follows_pause_away hk fun s _ => follows_read_away ?_
  split
  · exact .inl rfl
  · refine (hfit.follows_deactivate hc id (.inl rfl)).bind fun result k s hk => ?_
    cases result with
    | error fault => exact hk
    | ok _ =>
        exact (follows_of_within (hfit.within_setDisabled id true) hk.isWaiting).mono
          fun _ _ h => h ▸ hk

theorem Fits.follows_enable (hfit : L.Fits) (hc : c.activates = true) (id : String) :
    (World.enable L.code id).Follows L.protocol c (fun _ k => k.IsOut)
      .away w := by
  refine (follows_of_within (hfit.within_setDisabled id false) rfl).bind fun result k s hk => ?_
  subst hk
  cases result with
  | error fault => exact .inl rfl
  | ok _ =>
      refine follows_pause_away (.inl rfl) fun s _ => follows_read_away ?_
      split
      · exact .inl rfl
      · exact (hfit.follows_activate hc id true (.inl rfl)).bind fun _ _ _ hk => hk

theorem Fits.follows_teardownHost (hfit : L.Fits) (hc : c.activates = false) :
    (World.teardownHost L.code).Follows L.protocol c (fun _ k => k.IsOut)
      .away w := by
  refine follows_pause_away (.inl rfl) fun s _ => follows_read_away ?_
  have hone (id : String) (k : Place) (s : World χ) (hk : k.IsOut) :
      (do let _ ← World.deactivate L.code id : Flow (World χ) Unit).Follows L.protocol c
        (fun _ k => k.IsOut) k s :=
    (hfit.follows_deactivate hc id hk).bind fun _ _ _ hk => hk
  refine (Flow.follows_each hone (.inl rfl)).bind fun _ k s hk => ?_
  refine follows_pause_away hk fun s _ => ?_
  exact Flow.follows_sync (.bystand rfl (hfit.rules.keeps_kill _ s)) (.inl rfl)

theorem Fits.follows_didOpen (hfit : L.Fits) (hc : c.activates = true)
    (uri language text : String) (version : Int) :
    (World.didOpen L.code uri language text version).Follows L.protocol c
      (fun _ k => k.IsOut) .away w := by
  have hopened := hfit.rules.keeps_openDocument uri language text version w
  refine Flow.follows_sync (.bystand rfl hopened) ?_
  refine (hfit.follows_activateByEvent hc _ (.inl rfl)).bind fun _ k s hk => ?_
  have hopen : ((Rpc.Client.didOpen uri language text).focus clientPart :
      Flow (World χ) Unit).Within L.Bystands :=
    HouseRules.within_clientPart hfit.bystands_client _
  have hstart : (World.ensureServer language : Flow (World χ) Unit).Within L.Bystands :=
    hfit.rules.within_ensureServer (HouseRules.within_clientPart hfit.bystands_client _)
  refine (follows_of_within hopen hk.isWaiting).bind fun _ k' s hk' => ?_
  refine (follows_of_within hstart (hk' ▸ hk.isWaiting)).bind fun _ k'' s hk'' => ?_
  exact hk'' ▸ hk' ▸ hk

/-- Every call goes by the protocol. -/
theorem Fits.follows_flow (hfit : L.Fits) (call : HostCall) (w : World χ) :
    (call.flow L.code).Follows L.protocol call (fun _ k => k.IsOut) .away w := by
  cases call with
  | activate id force =>
      exact (hfit.follows_activate rfl id force (.inl rfl)).bind fun _ _ _ hk => hk
  | activateByEvent event =>
      exact (hfit.follows_activateByEvent rfl event (.inl rfl)).bind fun _ _ _ hk => hk
  | deactivate id => exact (hfit.follows_deactivate rfl id (.inl rfl)).bind fun _ _ _ hk => hk
  | disable id => exact (hfit.follows_disable rfl id (.inl rfl)).bind fun _ _ _ hk => hk
  | enable id => exact (hfit.follows_enable rfl id).bind fun _ _ _ hk => hk
  | teardownHost => exact hfit.follows_teardownHost rfl
  | didOpen uri language text version =>
      exact (hfit.follows_didOpen rfl uri language text version).bind fun _ _ _ hk => hk
  | teardown =>
      refine (hfit.follows_teardownHost rfl).bind fun _ k s hk => ?_
      have hshutdown := HouseRules.within_clientPart hfit.bystands_client Rpc.Client.forceShutdown
      exact (follows_of_within hshutdown hk.isWaiting).mono fun _ _ h => h ▸ hk

/-- Whatever happens, all calls go by the protocol. -/
theorem Fits.governs (hfit : L.Fits) (hsound : L.Sound w [])
    {moves : List (Interleaving.Move HostCall (World χ → World χ))}
    (houtside : ∀ change, .outside change ∈ moves → ∀ w, L.Bystands w (change w))
    (hreliable : L.IsReliable →
      (hostCalls L.code).Along (fun p _ => p.state.CanMake L.id) { state := w } moves) :
    ∃ entries, L.protocol.Governs L.Sound
      ((hostCalls L.code).run { state := w } moves) entries := by
  refine (Protocol.governs_nil hsound).run (keeps_protocol L) (fun move hmove => ?_) ?_
  · cases move with
    | start call => exact fun s _ => hfit.follows_flow call s
    | turn n => trivial
    | pass time => trivial
    | outside change => exact fun s l hs => hs.disturb (houtside change hmove s)
  · by_cases h : L.IsReliable
    · exact (hreliable h).mono fun p _ hcan _ => hcan
    · have hall : (hostCalls L.code).Along (fun _ _ => True) { state := w } moves :=
        Interleaving.System.along_of_forall (fun _ _ => trivial) _
      exact hall.mono fun _ _ _ h' => absurd h' h

end Calls

end Subject

end EditorHost
