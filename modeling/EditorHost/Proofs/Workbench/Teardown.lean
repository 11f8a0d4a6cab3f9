import EditorHost.Proofs.Extension.Contributions
import EditorHost.Proofs.Rpc.Succession

/-!
# What is left after a teardown

To tear everything down is to deactivate the extensions that are active then, and to end the servers
that are current then.  Whoever is on its way already comes later: an activation that is not through
yet makes its extension active behind the teardown's back, and so does the start of a server that
had not begun.

## Contents

* `HostCall.teardown_run`: when all calls are over, an extension is active exactly if the call that
  got in line for it last was to activate it, an inactive extension has nothing left, and every
  server that is current was connected after the teardown had begun.
* `HostCall.not_inactive_teardown`: an extension can be active when all is over.
-/

namespace EditorHost

open Interleaving (Move Pool System Task)

variable {χ : Type}

open World (clientPart)

/-! ## Language servers -/

namespace World

/-- On the language servers' side, what is current was current before or has been connected
since. -/
def Succeeds (w w' : World χ) : Prop := w.client.Succeeds w'.client

/-- On the language servers' side, all that is current has been connected since. -/
def Renewed (w w' : World χ) : Prop := w.client.Renewed w'.client

end World

/-- Every change that the code of extensions makes is of a kind. -/
structure Code.Guarantees (code : Code χ) (R : World χ → World χ → Prop) : Prop where
  listener : ∀ callback notice, Keeps R (code.listener callback notice)
  undo : ∀ callback, Keeps R (code.undo callback)
  activate : ∀ id entry, code.entry id = some entry → ∀ context, (entry.activate context).Within R
  deactivate : ∀ id entry, code.entry id = some entry → entry.deactivate.Within R

theorem Code.guarantees_slow {R : World Unit → World Unit → Prop} (hrefl : ∀ w, R w w) :
    Code.slow.Guarantees R where
  listener _ _ := hrefl
  undo _ := hrefl
  activate id entry hentry context := by
    cases hentry
    exact fun _ => trivial
  deactivate id entry hentry := by
    cases hentry
    exact fun _ => trivial

theorem World.Succeeds.refl (w : World χ) : World.Succeeds w w := Rpc.Client.Succeeds.refl w.client

section Servers

variable {code : Code χ} (hcode : code.Guarantees World.Succeeds)

include hcode

theorem World.Succeeds.rules : HouseRules code World.Succeeds (fun _ => True) (fun _ => True) where
  refl := .refl
  trans w₁ w₂ w₃ := .trans w₁.client w₂.client w₃.client
  listener := hcode.listener
  undo := hcode.undo
  activate id entry _ := hcode.activate id entry
  deactivate id entry _ := hcode.deactivate id entry
  tends w w' h := by
    rw [World.Succeeds, h.client]
    exact .refl w.client
  modify _ _ w _ _ := .refl w
  move _ _ _ w _ _ := .refl w

omit hcode in
theorem World.within_succeeds_clientPart {α : Type} {flow : Flow Rpc.Client α}
    (h : flow.Within Rpc.Client.Succeeds) :
    (flow.focus clientPart : Flow (World χ) α).Within World.Succeeds :=
  h.focus fun _ _ hclient => hclient

theorem HostCall.within_succeeds (call : HostCall) : (call.flow code).Within World.Succeeds :=
  (World.Succeeds.rules hcode).within_flow (fun _ => trivial) (fun _ => trivial)
    (fun _ _ w => .refl w) (fun _ _ w => .refl w)
    (fun uri language text => World.within_succeeds_clientPart
      (Rpc.Client.within_succeeds_didOpen uri language text))
    (fun language => World.within_succeeds_clientPart
      (Rpc.Client.within_succeeds_startServer language))
    (World.within_succeeds_clientPart
      (Rpc.Client.once_forceShutdown.within Rpc.Client.Renewed.succeeds))

/-- A teardown leaves no server that was current. -/
theorem HostCall.once_teardown :
    (HostCall.teardown.flow code).Once World.Succeeds World.Renewed := by
  have hhost : (World.teardownHost code).Within World.Succeeds :=
    (World.Succeeds.rules hcode).within_teardownHost (fun _ => trivial) (fun _ => trivial)
  exact hhost.bind_once fun _ => Rpc.Client.once_forceShutdown.focus (fun _ _ h => h) fun _ _ h => h

/-- When all calls are over, every server that is current was connected after the teardown had
begun. -/
theorem HostCall.renewed_run {w : World χ}
    {earlier later : List (Move HostCall (World χ → World χ))}
    (houtside : ∀ change, .outside change ∈ earlier ++ later → ∀ w, World.Succeeds w (change w))
    (hover : ∀ t ∈ ((hostCalls code).run { state := w }
      (earlier ++ .start .teardown :: later)).tasks, t.rest.isDone = true) :
    ((hostCalls code).run { state := w } earlier).state.Renewed
      ((hostCalls code).run { state := w } (earlier ++ .start .teardown :: later)).state :=
  System.once_of_start (S := hostCalls code) (World.Succeeds.rules hcode).refl
    (World.Succeeds.rules hcode).trans
    (fun w₁ w₂ w₃ => Rpc.Client.Renewed.before w₁.client w₂.client w₃.client)
    (fun w₁ w₂ w₃ => Rpc.Client.Renewed.behind w₁.client w₂.client w₃.client)
    (once_teardown hcode) (fun call _ => within_succeeds hcode call) houtside hover

end Servers

/-! ## A teardown gets in line for all that is active -/

namespace Subject

variable {L : Subject χ}

/-- What is done for other extensions leaves an extension active, wherever they get in line. -/
theorem LeftAlone.runs_rules (halone : L.LeftAlone) :
    HouseRules L.code (fun w w' => L.Runs w → L.Runs w') (· ≠ L.id) (fun _ => True) := by
  have hrules := halone.rules
  have hkeep (w w' : World χ) (hs : L.Bystands w w') (h : L.Runs w) : L.Runs w' :=
    h.keep hs.toKeepsQueues hs.record
  exact {
    refl := fun _ h => h
    trans := fun _ _ _ h h' hruns => h' (h hruns)
    listener := fun callback notice w => hkeep _ _ (hrules.listener callback notice w)
    undo := fun callback w => hkeep _ _ (hrules.undo callback w)
    activate := fun id entry hid hentry context =>
      (hrules.activate id entry hid hentry context).mono hkeep
    deactivate := fun id entry hid hentry => (hrules.deactivate id entry hid hentry).mono hkeep
    tends := fun w w' h => hkeep _ _ (hrules.tends w w' h)
    modify := fun id change w hid hqueue => hkeep _ _ (hrules.modify id change w hid hqueue)
    move := fun queue change tickets w _ htickets h =>
      h.keep ⟨fun _ e he => ⟨e, he, rfl⟩, Nat.le_of_eq (List.length_modify _ _ _).symm, htickets⟩
        rfl }

theorem LeftAlone.bringsAbout_deactivate (halone : L.LeftAlone) :
    (World.deactivate L.code L.id).BringsAbout L.Runs fun w => L.line w ≠ [] := by
  refine .pause_bind (.read_bind fun s hruns => ?_)
  obtain ⟨e, hfind, hqueue, -⟩ := hruns.1.record
  have hturn : (World.inTurn L.queue (World.deactivateInTurn L.code L.id)).BringsAbout L.Runs
      fun w => L.line w ≠ [] := by
    refine .sync_bind fun s hruns => .inr ⟨?_, rfl⟩
    rw [(joins_takeTicket halone hruns.1).line]
    simp
  simp only [hfind, hqueue]
  exact hturn.bind _

/-- A teardown that finds the extension active gets in line for it. -/
theorem LeftAlone.bringsAbout_teardown (halone : L.LeftAlone) :
    (HostCall.teardown.flow L.code).BringsAbout L.Runs fun w => L.line w ≠ [] := by
  have hrules := halone.runs_rules
  have hhost : (World.teardownHost L.code).BringsAbout L.Runs fun w => L.line w ≠ [] := by
    refine .pause_bind (.read_bind fun s hruns => ?_)
    obtain ⟨e, hfind, -⟩ := hruns.1.record
    have hactive : e.isActive = true := (isActive_of_find? hfind).symm.trans hruns.2
    have hmem : L.id ∈ s.host.activeIds :=
      List.mem_map.mpr ⟨(L.id, e), List.mem_filter.mpr ⟨Table.mem_of_find? hfind, hactive⟩, rfl⟩
    refine .bind (.each (R := fun w w' => L.Runs w → L.Runs w') (fun _ _ h => h) hmem
      (halone.bringsAbout_deactivate.bind _) fun other hother => ?_) _
    exact (hrules.within_deactivate hother fun _ => trivial).bind fun _ => trivial
  exact hhost.bind _

/-- A teardown that begins while an extension is active does not end before somebody has got in line
for it. -/
theorem Orderly.lastInLine_ne_none (hfit : L.Fits) {p : Pool HostCall (World χ) Unit}
    {entries : List (Task HostCall (World χ) Unit × Place)} (h : L.Orderly true none p entries)
    {moves : List (Move HostCall (World χ → World χ))}
    (houtside : ∀ change, .outside change ∈ moves → ∀ w, L.Bystands w (change w))
    (hreliable : L.IsReliable →
      (hostCalls L.code).Along (fun p _ => p.state.CanMake L.id) p (.start .teardown :: moves))
    (hover : ∀ t ∈ ((hostCalls L.code).run p (.start .teardown :: moves)).tasks,
      t.rest.isDone = true) :
    HostCall.lastInLine L.code L.id none p (.start .teardown :: moves) ≠ none := by
  intro hnone
  have hsame := h.governs.sound.loaded.getsInLine_of_state_eq (.start .teardown) rfl
  obtain ⟨entries', h'⟩ := h.step hfit (fun hr => (hreliable hr).1)
    fun change (heq : Move.start HostCall.teardown = .outside change) => nomatch heq
  rw [hsame] at h'
  rw [HostCall.lastInLine, hsame] at hnone
  obtain ⟨t, ht, hbound⟩ := h'.bringsAbout_run hfit houtside (fun hr => (hreliable hr).2) hnone
    List.getElem?_concat_length hfit.bringsAbout_teardown
  obtain ⟨value, hdone⟩ := Flow.eq_done_of_isDone (hover t (List.mem_of_getElem? ht))
  rw [hdone] at hbound
  cases hbound

end Subject

namespace HostCall

/-- When a teardown is over, somebody has got in line for every extension that was active at
first. -/
theorem lastInLine_ne_none {code : Code χ} (hcode : code.SparesHost) {w : World χ}
    (hidle : w.host.Idle code) {id : String} {e : Extension} (hfind : w.host.find? id = some e)
    (hactive : e.isActive = true) {earlier later : List (Move HostCall (World χ → World χ))}
    (houtside : ∀ change, .outside change ∈ earlier ++ .start .teardown :: later →
      ∀ w, World.SameHost w (change w))
    (hover : ∀ t ∈ ((hostCalls code).run { state := w }
      (earlier ++ .start .teardown :: later)).tasks, t.rest.isDone = true) :
    lastInLine code id none { state := w } (earlier ++ .start .teardown :: later) ≠ none := by
  let L := Subject.plain code id e.queue False
  have hfit : L.Fits := Subject.fits_plain hcode
  have hstart : L.Orderly true none { state := w } [] :=
    hactive ▸ Subject.orderly_nil hidle hfind rfl trivial
  have hbystands (change : World χ → World χ)
      (hchange : .outside change ∈ earlier ++ .start .teardown :: later) (w : World χ) :
      L.Bystands w (change w) :=
    Subject.bystands_plain (houtside change hchange w)
  have hbehind (change : World χ → World χ)
      (hchange : .outside change ∈ .start .teardown :: later) : ∀ w, L.Bystands w (change w) :=
    hbystands change (List.mem_append_right _ hchange)
  intro hnone
  rw [lastInLine_append] at hnone
  obtain ⟨entries, h⟩ := hstart.run hfit
    (fun change hchange => hbystands change (List.mem_append_left _ hchange)) False.elim
  -- Nobody has got in line before the teardown begins, so the extension is active still.
  have hbefore : lastInLine code id none { state := w } earlier = none :=
    h.eq_none_of_lastInLine hfit hbehind False.elim hnone
  rw [show lastInLine L.code L.id none { state := w } earlier = none from hbefore] at h
  rw [hbefore] at hnone
  rw [System.run_append] at hover
  exact h.lastInLine_ne_none hfit
    (fun change hchange => hbehind change (List.mem_cons_of_mem _ hchange)) False.elim hover hnone

/-- When all calls are over, among them a teardown, an extension is active only if the call that got
in line for it last was to activate it, and then it is, if activations can make what they need; an
inactive extension has nothing left; and every server that is current was connected after the
teardown had begun. -/
theorem teardown_run {code : Code χ} {id : String} (hcode : code.WorksFor id)
    (hservers : code.Guarantees World.Succeeds) {w : World χ} (hidle : w.host.Idle code)
    {e : Extension} (hfind : w.host.find? id = some e) (htidy : w.Tidy id)
    {earlier later : List (Move HostCall (World χ → World χ))}
    (houtside : ∀ change, .outside change ∈ earlier ++ .start .teardown :: later →
      ∀ w, World.StandsBy id w (change w) ∧ World.Succeeds w (change w))
    (hover : ∀ t ∈ ((hostCalls code).run { state := w }
      (earlier ++ .start .teardown :: later)).tasks, t.rest.isDone = true) :
    let moves := earlier ++ .start .teardown :: later
    let last := lastInLine code id none { state := w } moves
    let begun := ((hostCalls code).run { state := w } earlier).state
    let behind := ((hostCalls code).run { state := w } moves).state
    (behind.host.isActive id = true → last.any HostCall.activates = true) ∧
      ((hostCalls code).Along (fun p _ => p.state.CanMake id) { state := w } moves →
        last.any HostCall.activates = true → behind.host.isActive id = true) ∧
      (behind.host.isActive id = false → behind.Bare id ∧ behind.OnlyOpen id none) ∧
      ∀ language server, behind.client.servers.find? language = some server →
        begun.client.connections.length ≤ server := by
  intro moves last begun behind
  have hstand (change : World χ → World χ) (hchange : .outside change ∈ moves) (w : World χ) :
      World.StandsBy id w (change w) := (houtside change hchange w).1
  have hsame (change : World χ → World χ) (hchange : .outside change ∈ moves) (w : World χ) :
      World.SameHost w (change w) := (hstand change hchange w).toSameHost
  obtain ⟨honly, hif⟩ := isActive_run hcode.sparesHost hidle hfind hsame hover
  have htidy' : behind.Tidy id := tidy_run hcode hidle hfind htidy hstand hover
  refine ⟨fun hactive => ?_, fun hmake hlast => hif hmake (decision_of_any hlast e.isActive),
    fun hinactive => ?_, ?_⟩
  · exact any_of_decision (honly hactive) fun hfirst =>
      lastInLine_ne_none hcode.sparesHost hidle hfind hfirst hsame hover
  · have honly := htidy'.contexts
    rw [World.contextOf?_of_inactive hinactive] at honly
    exact ⟨htidy'.bare hinactive, honly⟩
  · have hrenewed : begun.Renewed behind := by
      refine renewed_run hservers (fun change hchange w => ?_) hover
      exact (houtside change (by simpa using hchange) w).2
    exact hrenewed.servers

/-- A document is opened, and the extension is activated for it. -/
def opening : List (Move HostCall (World Unit → World Unit)) :=
  [.start (.didOpen "file:///a.py" "python" "x" 1), .turn 0, .turn 0, .turn 1, .turn 1, .turn 1,
    .pass 10, .turn 1, .turn 1]

/-- The extension is deactivated by a teardown, while the document is still being opened. -/
def closing : List (Move HostCall (World Unit → World Unit)) :=
  [.turn 2, .turn 0, .turn 2, .turn 2, .turn 2, .turn 0, .turn 0, .turn 0, .pass 20, .turn 2,
    .turn 2, .turn 2, .turn 2, .turn 2]

theorem teardown_run_closing :
    (World.ofExtensions () ["me.py"]).host.Idle Code.slow ∧
      (World.ofExtensions () ["me.py"]).Tidy "me.py" ∧
      (∀ change, .outside change ∈ opening ++ .start .teardown :: closing →
        ∀ w, World.StandsBy "me.py" w (change w) ∧ World.Succeeds w (change w)) ∧
      (∀ t ∈ (pythonRun (opening ++ .start .teardown :: closing)).tasks, t.rest.isDone = true) ∧
      (pythonRun opening).state.host.isActive "me.py" = true ∧
      (pythonRun (opening ++ .start .teardown :: closing)).state.host.isActive "me.py" = false ∧
      (pythonRun (opening ++ .start .teardown :: closing)).state.Bare "me.py" ∧
      (pythonRun (opening ++ .start .teardown :: closing)).state.OnlyOpen "me.py" none ∧
      ∀ language server,
        (pythonRun (opening ++ .start .teardown :: closing)).state.client.servers.find? language =
            some server →
          (pythonRun opening).state.client.connections.length ≤ server := by
  unfold pythonRun
  have hidle : (World.ofExtensions () ["me.py"]).host.Idle Code.slow :=
    World.idle_ofExtensions _ _ _
  have htidy : (World.ofExtensions () ["me.py"]).Tidy "me.py" := World.tidy_ofExtensions _ _ _
  have houtside : ∀ change, .outside change ∈ opening ++ .start .teardown :: closing →
      ∀ w, World.StandsBy "me.py" w (change w) ∧ World.Succeeds w (change w) := by
    simp [opening, closing]
  obtain ⟨hdone, hbefore⟩ : ((hostCalls Code.slow).run
        { state := World.ofExtensions () ["me.py"] }
        (opening ++ .start .teardown :: closing)).tasks.all (fun t => t.rest.isDone) = true ∧
      ((hostCalls Code.slow).run { state := World.ofExtensions () ["me.py"] }
        opening).state.host.isActive "me.py" = true := by decide +kernel
  have hover := List.all_eq_true.mp hdone
  obtain ⟨e, hfind⟩ : ∃ e, (World.ofExtensions () ["me.py"]).host.find? "me.py" = some e :=
    ⟨_, rfl⟩
  obtain ⟨hactive, -, hnothing, hservers⟩ := teardown_run (Code.worksFor_slow "me.py")
    (Code.guarantees_slow World.Succeeds.refl) hidle hfind htidy houtside hover
  -- The teardown is the last one in line.
  have hlast : lastInLine Code.slow "me.py" none { state := World.ofExtensions () ["me.py"] }
      (opening ++ .start .teardown :: closing) = some .teardown := by decide +kernel
  rw [hlast] at hactive
  have hinactive := Bool.eq_false_iff.mpr fun h => Bool.noConfusion (hactive h)
  exact ⟨hidle, htidy, houtside, hover, hbefore, hinactive, (hnothing hinactive).1,
    (hnothing hinactive).2, hservers⟩

/-- The teardown comes while the extension is being activated. -/
def suspended : List (Move HostCall (World Unit → World Unit)) :=
  [.start (.didOpen "file:///a.py" "python" "x" 1), .turn 0, .turn 0, .turn 1, .turn 1, .turn 1,
    .start .teardown, .turn 2, .turn 2, .turn 2, .turn 2, .pass 10, .turn 1, .turn 1, .turn 0,
    .turn 0, .turn 0, .turn 0]

/-- The activation outlives the teardown: all is over, and the extension is active. -/
theorem not_inactive_teardown :
    Code.slow.WorksFor "me.py" ∧ Code.slow.Guarantees World.Succeeds ∧
      (World.ofExtensions () ["me.py"]).host.Idle Code.slow ∧
      (World.ofExtensions () ["me.py"]).Tidy "me.py" ∧
      (∀ t ∈ (pythonRun suspended).tasks, t.rest.isDone = true) ∧
      ¬(pythonRun suspended).state.host.isActive "me.py" = false := by
  have hrun : (pythonRun suspended).tasks.all (fun t => t.rest.isDone) = true ∧
      ¬(pythonRun suspended).state.host.isActive "me.py" = false := by decide +kernel
  exact ⟨Code.worksFor_slow _, Code.guarantees_slow World.Succeeds.refl,
    World.idle_ofExtensions _ _ _, World.tidy_ofExtensions _ _ _, List.all_eq_true.mp hrun.1,
    hrun.2⟩

end HostCall

end EditorHost
