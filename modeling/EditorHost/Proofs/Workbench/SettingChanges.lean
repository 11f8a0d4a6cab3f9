import EditorHost.Proofs.Diary
import EditorHost.Proofs.Json.Routes

/-!
# No change of a setting goes unreported

A change of a setting is told with its key, and a listener that cares for some section asks whether
the key affects it.  The tree is changed along routes, through objects that may have to be made on
the way, while the question is answered by comparing the texts of the two names.  Both come to the
same: of two names one is a beginning of the other, up to a dot, just when its route is a beginning
of the other's (`Configuration.within_iff`), and a value put at the end of a route is seen only by
those who follow this route, or one that begins or goes on from it (`Json.at?_put?`).

A listener may itself change settings while it is told of a change.  What it changes is its own
doing, so a section that has changed when all listeners have been told is one that the key affects
or one that a listener changed (`World.updateConfiguration_reported`).
-/

namespace EditorHost

/-! ## Names and routes -/

/-- The parts of a text begin with those of another one just when it is this text, or goes on from
it behind a separator. -/
theorem Text.split_prefix_iff {separator : Char} {outer inner : List Char} :
    split separator outer <+: split separator inner ↔
      inner = outer ∨ outer ++ [separator] <+: inner := by
  constructor
  · intro h
    induction outer generalizing inner with
    | nil =>
        cases inner with
        | nil => exact .inl rfl
        | cons d inner =>
            by_cases hd : d = separator
            · exact .inr (by simp [hd])
            · obtain ⟨part, parts, hparts⟩ :=
                List.exists_cons_of_ne_nil (split_ne_nil separator inner)
              simp [split, hd, hparts] at h
    | cons c outer ih =>
        cases inner with
        | nil =>
            -- the parts of the empty text are one, and that is empty
            obtain ⟨part, parts, hparts⟩ :=
              List.exists_cons_of_ne_nil (split_ne_nil separator outer)
            by_cases hc : c = separator <;> simp [split, hc, hparts] at h
        | cons d inner =>
            obtain ⟨part, parts, hparts⟩ :=
              List.exists_cons_of_ne_nil (split_ne_nil separator outer)
            obtain ⟨part', parts', hparts'⟩ :=
              List.exists_cons_of_ne_nil (split_ne_nil separator inner)
            have hsame : d = c ∧ split separator outer <+: split separator inner := by
              by_cases hc : c = separator <;> by_cases hd : d = separator <;>
                simp_all [split, List.cons_prefix_cons]
            obtain ⟨rfl, hrest⟩ := hsame
            simpa [List.cons_prefix_cons] using ih hrest
  · rintro (rfl | ⟨behind, rfl⟩)
    · exact List.prefix_refl _
    · rw [List.append_assoc, List.singleton_append, split_append]
      exact List.prefix_append _ _

namespace Configuration

/-- A key is another one, or lies below it, just when its route begins with the route of the
other. -/
theorem within_iff {inner outer : String} :
    within inner outer = true ↔ Json.route outer <+: Json.route inner := by
  rw [Json.route, Json.route, Text.splitText, Text.splitText,
    List.prefix_map_iff_of_injective fun a b hab => String.ofList_injective hab,
    Text.split_prefix_iff, within, Bool.or_eq_true, beq_iff_eq, List.isPrefixOf_iff_prefix,
    String.toList_inj]

/-- A change of a key affects the whole tree, and each section whose route begins with that of the
key or the other way round. -/
theorem affects_iff {key name : String} :
    affects key name = true ↔
      name = "" ∨ Json.route name <+: Json.route key ∨ Json.route key <+: Json.route name := by
  rw [affects, Bool.or_eq_true, Bool.or_eq_true, beq_iff_eq, within_iff, within_iff, or_assoc]

end Configuration

/-! ## Changed sections -/

/-- Where a section has changed by a setting, the key of this setting affects it. -/
theorem Settings.affects_of_put {tree tree' value : Json} {key name : String}
    (hput : put tree key value = .ok tree')
    (hchanged : Configuration.ofTree tree' name ≠ Configuration.ofTree tree name) :
    Configuration.affects key name = true := by
  by_contra hnot
  rw [Configuration.affects_iff, not_or, not_or] at hnot
  obtain ⟨hname, houter, hinner⟩ := hnot
  have hvalue : tree.put? value (Json.route key) = some tree' := by
    simp only [put] at hput
    split at hput
    · cases hput
    · split at hput
      · cases hput
        assumption
      · cases hput
  refine hchanged ?_
  rw [Configuration.ofTree, Configuration.ofTree, Json.lookup?, Json.lookup?, if_neg hname,
    if_neg hname, Json.at?_put? hvalue houter hinner]

/-! ## Telling the listeners -/

namespace World

variable {χ : Type}

/-- The world when some listeners have been told, one after another. -/
def afterTelling (code : Code χ) (notice : Notice) (listeners : List Callback) (w : World χ) :
    World χ :=
  listeners.foldl (fun w listener => (code.listener listener notice w).2) w

theorem tell_eq (code : Code χ) (notice : Notice) (w : World χ) :
    (tell code notice w).2 =
      afterTelling code notice (w.api.listeners.callbacks notice.topic) w := by
  have hloop : ∀ (listeners : List Callback) (w : World χ),
      ((forIn listeners PUnit.unit fun listener _ => do
        let _ ← code.listener listener notice
        return ForInStep.yield PUnit.unit) w).2 = afterTelling code notice listeners w := by
    intro listeners
    induction listeners with
    | nil => exact fun w => rfl
    | cons listener listeners ih =>
        intro w
        rw [List.forIn_cons]
        exact ih (code.listener listener notice w).2
  exact hloop (w.api.listeners.callbacks notice.topic) w

/-- What has changed when all listeners have been told was changed by one of them. -/
theorem exists_listener_of_changed {β : Type} {code : Code χ} {notice : Notice}
    {listeners : List Callback} {w : World χ} (view : World χ → β)
    (hchanged : view (afterTelling code notice listeners w) ≠ view w) :
    ∃ before listener behind, listeners = before ++ listener :: behind ∧
      view (afterTelling code notice (before ++ [listener]) w) ≠
        view (afterTelling code notice before w) := by
  induction listeners generalizing w with
  | nil => exact absurd rfl hchanged
  | cons listener listeners ih =>
      by_cases hfirst : view (code.listener listener notice w).2 = view w
      · obtain ⟨before, other, behind, rfl, hother⟩ :=
          ih (w := (code.listener listener notice w).2) (fun hsame => hchanged (hsame.trans hfirst))
        exact ⟨listener :: before, other, behind, rfl, hother⟩
      · exact ⟨[], listener, listeners, rfl, hfirst⟩

/-- A world with other settings. -/
def withSettings (w : World χ) (tree : Json) : World χ :=
  { w with api := { w.api with configuration := tree } }

/-- Changing a setting either fails, with the world as it was and nobody told, or tells it once:
each listener that is subscribed then, in order.  Every section that is not the same in the new tree
is affected by the key, and one that is not the same at the end of the call is affected by the key
or was changed by a listener while that was told. -/
theorem updateConfiguration_reported (code : Code χ) (key : String) (value : Json)
    (w : World (Noted χ)) :
    let listeners := w.api.listeners.callbacks .configured
    let telling := afterTelling code.noted (.configured key)
    (∃ fault, updateConfiguration code.noted key value w = (.error fault, w)) ∨
    ∃ tree w', updateConfiguration code.noted key value w = (.ok (), w') ∧
      w' = telling listeners (w.withSettings tree) ∧
      w'.diary = w.diary ++ listeners.map (.told · (.configured key)) ∧
      (∀ name, (w.withSettings tree).api.section? name ≠ w.api.section? name →
        Configuration.affects key name = true) ∧
      ∀ name, w'.api.section? name ≠ w.api.section? name →
        Configuration.affects key name = true ∨
        ∃ before listener behind, listeners = before ++ listener :: behind ∧
          (telling (before ++ [listener]) (w.withSettings tree)).api.section? name ≠
            (telling before (w.withSettings tree)).api.section? name := by
  intro listeners telling
  cases hput : Settings.put w.api.configuration key value with
  | error fault =>
      left
      have hcall : w.api.updateConfiguration key value = (.error fault, w.api) := by
        simp only [Api.updateConfiguration, hput]
      refine ⟨fault, ?_⟩
      simp only [updateConfiguration, bind, StateT.bind, Focus.zoom, apiPart, hcall]
      rfl
  | ok tree =>
      right
      have hcall : w.api.updateConfiguration key value =
          (.ok (.configured key), { w.api with configuration := tree }) := by
        simp only [Api.updateConfiguration, hput]
      have hrun : updateConfiguration code.noted key value w =
          (.ok (), (tell code.noted (.configured key) (w.withSettings tree)).2) := by
        simp only [updateConfiguration, bind, StateT.bind, Focus.zoom, apiPart, hcall]
        rfl
      have hown : ∀ name, (w.withSettings tree).api.section? name ≠ w.api.section? name →
          Configuration.affects key name = true :=
        fun name hchanged => Settings.affects_of_put hput hchanged
      refine ⟨tree, _, hrun, tell_eq code.noted _ _, diary_tell code _ _, hown, ?_⟩
      intro name hchanged
      by_cases hbefore : (w.withSettings tree).api.section? name = w.api.section? name
      · rw [tell_eq, ← hbefore] at hchanged
        exact .inr (exists_listener_of_changed (fun w => w.api.section? name) hchanged)
      · exact .inl (hown name hbefore)

end World

end EditorHost
