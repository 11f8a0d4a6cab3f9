import EditorHost.Proofs.Extension.LastInLine
import EditorHost.Proofs.Purpose

/-!
# Disabled extensions

Disabling an extension deactivates it first, in line with everybody else, and then puts it into the
set of disabled ones, where it stays unless it is enabled.  An activation looks at that set before
it gets in line.  So one that has looked already and gets in line behind the deactivation is not
stopped, and the extension ends up disabled and active.

## Contents

* `HostCall.disable_run`: when all calls are over the extension is in the set, and it is active
  exactly if the last call in line was to activate it.
* `HostCall.not_inactive_disabled`: an activation can win over disabling.
-/

namespace EditorHost

open Interleaving (Move Pool System Task)

variable {χ : Type}

/-! ## Staying in the set -/

/-- An extension stays loaded, and disabled if it is. -/
structure World.StaysDisabled (id : String) (w w' : World χ) : Prop where
  loaded : (w.host.find? id).isSome = true → (w'.host.find? id).isSome = true
  disabled : w.host.isDisabled id = true → w'.host.isDisabled id = true

namespace World.StaysDisabled

variable {id : String} {w w' : World χ}

theorem of_eq (hextensions : w'.host.extensions = w.host.extensions)
    (hdisabled : w'.host.disabled = w.host.disabled) : StaysDisabled id w w' := by
  refine ⟨fun h => ?_, fun h => ?_⟩
  · simpa [Host.find?, hextensions] using h
  · simpa [Host.isDisabled, hdisabled] using h

theorem refl (w : World χ) : StaysDisabled id w w := ⟨fun h => h, fun h => h⟩

theorem trans (w₁ w₂ w₃ : World χ) (h : StaysDisabled id w₁ w₂) (h' : StaysDisabled id w₂ w₃) :
    StaysDisabled id w₁ w₃ :=
  ⟨fun hloaded => h'.loaded (h.loaded hloaded), fun hd => h'.disabled (h.disabled hd)⟩

theorem of_sameHost (h : SameHost w w') : StaysDisabled id w w' :=
  of_eq h.extensions h.disabled

theorem modify (w : World χ) (other : String) (change : Extension → Extension) :
    StaysDisabled id w (hostPart.modify (fun h => h.modify other change) w) := by
  refine ⟨fun h => ?_, fun h => h⟩
  show ((w.host.modify other change).find? id).isSome = true
  rw [Host.find?_modify]
  split
  · simpa using h
  · exact h

end World.StaysDisabled

/-- Only enabling an extension takes it out of the set. -/
theorem Host.isDisabled_mark (h : Host) (id other : String) (disabled : Bool) :
    (h.mark other disabled).2.isDisabled id =
      if id = other then disabled else h.isDisabled id := by
  unfold mark
  by_cases hsame : h.isDisabled other = disabled
  · rw [if_pos hsame]
    split
    next hid => rw [hid, hsame]
    · rfl
  · rw [if_neg hsame]
    cases disabled with
    | true => by_cases hid : id = other <;> simp [isDisabled, Selector.mem_insertSorted, hid]
    | false => by_cases hid : id = other <;> simp [isDisabled, hid]

theorem World.StaysDisabled.mark {id other : String} {disabled : Bool}
    (h : other = id → disabled = true) (w : World χ) :
    StaysDisabled id w { w with host := (w.host.mark other disabled).2 } := by
  refine ⟨fun hloaded => ?_, fun hdisabled => ?_⟩
  · simpa [Host.find?, Host.extensions_mark] using hloaded
  · show (w.host.mark other disabled).2.isDisabled id = true
    rw [Host.isDisabled_mark]
    split
    next hid => exact h hid.symm
    · exact hdisabled

section Calls

variable {code : Code χ} (hcode : code.SparesHost) (id : String)

include hcode

theorem World.StaysDisabled.rules :
    HouseRules code (World.StaysDisabled id) (fun _ => True) (fun _ => True) where
  refl := .refl
  trans := .trans
  listener callback notice w := .of_sameHost (hcode.listener callback notice w)
  undo callback w := .of_sameHost (hcode.undo callback w)
  activate other entry _ hentry context :=
    (hcode.activate other entry hentry context).mono fun _ _ => .of_sameHost
  deactivate other entry _ hentry :=
    (hcode.deactivate other entry hentry).mono fun _ _ => .of_sameHost
  tends _ _ h := .of_eq h.extensions h.disabled
  modify other change w _ _ := .modify w other change
  move _ _ _ _ _ _ := .of_eq rfl rfl

/-- Every call but the one that enables the extension leaves it disabled. -/
theorem HostCall.within_staysDisabled {call : HostCall} (hcall : call ≠ .enable id) :
    (call.flow code).Within (World.StaysDisabled id) := by
  have hrules := World.StaysDisabled.rules hcode id
  have hclient (w : World χ) (client : Rpc.Client) :
      World.StaysDisabled id w { w with client } := .of_eq rfl rfl
  refine hrules.within_flow (fun _ => trivial) (fun _ => trivial) (fun other _ => ?_)
    (fun other henable => ?_) (fun _ _ _ => HouseRules.within_clientPart hclient _)
    (fun _ => HouseRules.within_clientPart hclient _) (HouseRules.within_clientPart hclient _)
  · exact .mark fun _ => rfl
  · exact .mark fun heq => absurd (heq ▸ henable) hcall

end Calls

/-! ## Getting into the set -/

/-- An extension that was loaded is disabled. -/
def World.GetsDisabled (id : String) (w w' : World χ) : Prop :=
  (w.host.find? id).isSome = true → w'.host.isDisabled id = true

namespace World.GetsDisabled

variable {id : String} {w w' w'' : World χ}

theorem before (w w' w'' : World χ) (h : StaysDisabled id w w') (h' : GetsDisabled id w' w'') :
    GetsDisabled id w w'' :=
  fun hloaded => h' (h.loaded hloaded)

theorem behind (w w' w'' : World χ) (h : GetsDisabled id w w') (h' : StaysDisabled id w' w'') :
    GetsDisabled id w w'' :=
  fun hloaded => h'.disabled (h hloaded)

theorem of_none (h : w.host.find? id = none) : GetsDisabled id w w' := by
  intro hloaded
  rw [h] at hloaded
  cases hloaded

end World.GetsDisabled

section Calls

variable {code : Code χ} (hcode : code.SparesHost) (id : String)

include hcode

open World (StaysDisabled GetsDisabled)

theorem World.once_setDisabled : (setDisabled id true : Flow (World χ) _).Once
    (StaysDisabled id) (GetsDisabled id) := by
  have hrules := World.StaysDisabled.rules hcode id
  refine .pause_bind (.bind (Flow.once_sync fun w _ => ?_) fun (changed, h) =>
    hrules.within_saveDisabled changed h)
  show (w.host.mark id true).2.isDisabled id = true
  rw [Host.isDisabled_mark, if_pos rfl]

/-- The deactivation of a loaded extension succeeds, so that what is to come behind it comes. -/
theorem World.once_deactivate_bind {α : Type} {next : Except Fault Unit → Flow (World χ) α}
    (hnext : (next (.ok ())).Once (StaysDisabled id) (GetsDisabled id))
    (hfault : ∀ fault, (next (.error fault)).Within (StaysDisabled id)) :
    ((World.deactivate code id).bind next).Once (StaysDisabled id) (GetsDisabled id) := by
  have hrules := World.StaysDisabled.rules hcode id
  simp only [World.deactivate, Flow.bind_eq, Flow.bind_assoc]
  refine .pause_bind (.read_bind fun w => ?_)
  cases hfind : w.host.find? id with
  | none => exact .inr ⟨.of_none hfind, hfault _⟩
  | some e =>
      have hturn : (World.inTurn e.queue (World.deactivateInTurn code id)).Within
          (StaysDisabled id) :=
        hrules.within_inTurn trivial (hrules.within_deactivateInTurn trivial)
      refine .inl ⟨.refl w, ?_⟩
      simp only [Flow.bind_assoc]
      exact hturn.bind_once fun _ => hnext

/-- Disabling a loaded extension puts it into the set. -/
theorem World.once_disable : (World.disable code id).Once (StaysDisabled id) (GetsDisabled id) := by
  refine .pause_bind (.read_bind fun w => ?_)
  cases hfind : w.host.find? id with
  | none => exact .inr ⟨.of_none hfind, trivial⟩
  | some e =>
      exact .inl ⟨.refl w, once_deactivate_bind hcode id (once_setDisabled hcode id)
        fun _ => trivial⟩

end Calls

/-- When all calls are over, an extension is disabled if one of them was to disable it, and none to
enable it. -/
theorem HostCall.isDisabled_run {code : Code χ} (hcode : code.SparesHost) {w : World χ}
    {id : String} (hloaded : (w.host.find? id).isSome = true)
    {moves : List (Move HostCall (World χ → World χ))} (hdisable : .start (.disable id) ∈ moves)
    (henable : .start (.enable id) ∉ moves)
    (houtside : ∀ change, .outside change ∈ moves → ∀ w, World.SameHost w (change w))
    (hover : ∀ t ∈ ((hostCalls code).run { state := w } moves).tasks, t.rest.isDone = true) :
    ((hostCalls code).run { state := w } moves).state.host.isDisabled id = true := by
  obtain ⟨earlier, later, rfl⟩ := List.append_of_mem hdisable
  have hwithin (call : HostCall) (hcall : .start call ∈ earlier ++ later) :
      (call.flow code).Within (World.StaysDisabled id) := by
    refine within_staysDisabled hcode id fun heq => henable ?_
    subst heq
    simpa using hcall
  have hstays (change : World χ → World χ) (hchange : .outside change ∈ earlier ++ later)
      (w : World χ) : World.StaysDisabled id w (change w) :=
    .of_sameHost (houtside change (by simpa using hchange) w)
  have hkept := (System.within_run (S := hostCalls code) (p := { state := w })
    World.StaysDisabled.refl World.StaysDisabled.trans
    (fun call hcall => hwithin call (List.mem_append_left _ hcall))
    (fun change hchange => hstays change (List.mem_append_left _ hchange))
    fun _ ht => nomatch ht).1
  exact System.once_of_start (S := hostCalls code) World.StaysDisabled.refl
    World.StaysDisabled.trans World.GetsDisabled.before World.GetsDisabled.behind
    ((World.once_disable hcode id).bind fun _ => trivial) hwithin hstays hover
    (hkept.loaded hloaded)

namespace HostCall

/-- When all calls are over, among them one that disables an extension and none that enables it, the
extension is disabled; and it is active only if the call that got in line for it last wants it to be
active, and then it is, if activations can make what they need. -/
theorem disable_run {code : Code χ} (hcode : code.SparesHost) {w : World χ}
    (hidle : w.host.Idle code) {id : String} {e : Extension} (hfind : w.host.find? id = some e)
    {moves : List (Move HostCall (World χ → World χ))} (hdisable : .start (.disable id) ∈ moves)
    (henable : .start (.enable id) ∉ moves)
    (houtside : ∀ change, .outside change ∈ moves → ∀ w, World.SameHost w (change w))
    (hover : ∀ t ∈ ((hostCalls code).run { state := w } moves).tasks, t.rest.isDone = true) :
    let behind := ((hostCalls code).run { state := w } moves).state
    let last := lastInLine code id none { state := w } moves
    behind.host.isDisabled id = true ∧
      (behind.host.isActive id = true → decision e.isActive last = true) ∧
      ((hostCalls code).Along (fun p _ => p.state.CanMake id) { state := w } moves →
        decision e.isActive last = true → behind.host.isActive id = true) := by
  intro behind last
  have hloaded : (w.host.find? id).isSome = true := by rw [hfind]; rfl
  have hdisabled := isDisabled_run hcode hloaded hdisable henable houtside hover
  exact ⟨hdisabled, isActive_run hcode hidle hfind houtside hover⟩

/-- The extension is disabled while an event activates it. -/
def queued : List (Move HostCall (World Unit → World Unit)) :=
  [.start (.activateByEvent "onLanguage:python"), .start (.disable "me.py"), .turn 0, .turn 2,
    .turn 2, .turn 2, .turn 1, .turn 1, .pass 10, .turn 2, .turn 2, .turn 1, .turn 1, .pass 20,
    .turn 1, .turn 1, .turn 1, .turn 1, .turn 1, .turn 0]

theorem disable_run_queued :
    (World.ofExtensions () ["me.py"]).host.Idle Code.slow ∧
      .start (.disable "me.py") ∈ queued ∧ .start (.enable "me.py") ∉ queued ∧
      (∀ change, .outside change ∈ queued → ∀ w, World.SameHost w (change w)) ∧
      (∀ t ∈ (pythonRun queued).tasks, t.rest.isDone = true) ∧
      (pythonRun queued).state.host.isDisabled "me.py" = true ∧
      (pythonRun queued).state.host.isActive "me.py" = false := by
  unfold pythonRun
  have hidle : (World.ofExtensions () ["me.py"]).host.Idle Code.slow :=
    World.idle_ofExtensions _ _ _
  have hdisable : .start (.disable "me.py") ∈ queued := by simp [queued]
  have henable : .start (.enable "me.py") ∉ queued := by simp [queued]
  have houtside : ∀ change, .outside change ∈ queued → ∀ w, World.SameHost w (change w) := by
    simp [queued]
  have hover : ∀ t ∈ ((hostCalls Code.slow).run { state := World.ofExtensions () ["me.py"] }
      queued).tasks, t.rest.isDone = true := List.all_eq_true.mp (by decide +kernel)
  obtain ⟨e, hfind, hinactive⟩ : ∃ e,
      (World.ofExtensions () ["me.py"]).host.find? "me.py" = some e ∧ e.isActive = false :=
    ⟨_, rfl, rfl⟩
  obtain ⟨hdisabled, hactive, -⟩ :=
    disable_run Code.sparesHost_slow hidle hfind hdisable henable houtside hover
  -- The call that disables the extension is the last one in line.
  have hlast : lastInLine Code.slow "me.py" none { state := World.ofExtensions () ["me.py"] }
      queued = some (.disable "me.py") := by decide +kernel
  rw [hlast] at hactive
  exact ⟨hidle, hdisable, henable, houtside, hover, hdisabled,
    Bool.eq_false_iff.mpr fun h => Bool.noConfusion (hactive h)⟩

/-- An activation looks whether the extension is disabled, and gets in line behind the call that
disables it. -/
def overtaken : List (Move HostCall (World Unit → World Unit)) :=
  [.start (.disable "me.py"), .start (.activate "me.py" false), .turn 0, .turn 0, .turn 1, .turn 0,
    .turn 0, .turn 0, .turn 0, .turn 0, .turn 1, .turn 1, .pass 10, .turn 1, .turn 1]

/-- The activation wins: all is over, and the extension is disabled and active. -/
theorem not_inactive_disabled :
    Code.slow.SparesHost ∧ (World.ofExtensions () ["me.py"]).host.Idle Code.slow ∧
      (∀ t ∈ (pythonRun overtaken).tasks, t.rest.isDone = true) ∧
      (pythonRun overtaken).state.host.isDisabled "me.py" = true ∧
      ¬(pythonRun overtaken).state.host.isActive "me.py" = false := by
  have hrun : (pythonRun overtaken).tasks.all (fun t => t.rest.isDone) = true ∧
      (pythonRun overtaken).state.host.isDisabled "me.py" = true ∧
      ¬(pythonRun overtaken).state.host.isActive "me.py" = false := by decide +kernel
  exact ⟨Code.sparesHost_slow, World.idle_ofExtensions _ _ _, List.all_eq_true.mp hrun.1, hrun.2⟩

end HostCall

end EditorHost
