import EditorHost.Proofs.Guarantee
import EditorHost.World

/-!
# A diary of what extensions are asked to do

To say which code of extensions runs, in which order, and how often, every call of it is noted in a
diary (`Code.noted`).  The diary stands beside what the code keeps for itself, where no code of an
extension can see it or write to it, so the code does what it does without one.

Most calls are noted when they begin.  Entry modules may take their time, so the ends of their calls
are noted too; a module is built in the same stretch in which its activation begins.
-/

namespace EditorHost

variable {χ : Type}

/-- What an extension is asked to do. -/
inductive DiaryEntry where
  /-- A listener is told something. -/
  | told (listener : Callback) (notice : Notice)
  /-- An undo action runs. -/
  | undone (action : Callback)
  /-- A provider is asked about a document. -/
  | asked (provider : Callback) (document : DocumentId) (query : Query)
  /-- A command runs. -/
  | ran (command : Callback) (args : List Json)
  /-- The entry module of an extension has been built, and its activation begins. -/
  | activating (id : String)
  | activated (id : String)
  | deactivating (id : String)
  | deactivated (id : String)
  deriving DecidableEq

/-- What the code of extensions keeps for itself, and the diary of its calls. -/
structure Noted (χ : Type) where
  own : χ
  diary : List DiaryEntry := []

namespace World

/-- The world as the code of extensions knows it. -/
def withoutDiary (w : World (Noted χ)) : World χ :=
  ⟨w.disk, w.events, w.log, w.api, w.host, w.client, w.own.own⟩

/-- All of a world but the diary. -/
def plainPart : Focus (World (Noted χ)) (World χ) where
  get := withoutDiary
  set v w := ⟨v.disk, v.events, v.log, v.api, v.host, v.client, ⟨v.own, w.own.diary⟩⟩

def diary (w : World (Noted χ)) : List DiaryEntry := w.own.diary

/-- Makes an entry. -/
def note (entry : DiaryEntry) : StateM (World (Noted χ)) Unit :=
  modify fun w => { w with own := ⟨w.own.own, w.own.diary ++ [entry]⟩ }

@[simp] theorem diary_note (entry : DiaryEntry) (w : World (Noted χ)) :
    (note entry w).2.diary = w.diary ++ [entry] := rfl

@[simp] theorem withoutDiary_note (entry : DiaryEntry) (w : World (Noted χ)) :
    (note entry w).2.withoutDiary = w.withoutDiary := rfl

@[simp] theorem diary_set (v : World χ) (w : World (Noted χ)) :
    (plainPart.set v w).diary = w.diary := rfl

@[simp] theorem withoutDiary_set (v : World χ) (w : World (Noted χ)) :
    (plainPart.set v w).withoutDiary = v := rfl

end World

open World (note plainPart)

/-- The entry module of an extension, whose calls are noted. -/
def Module.noted (id : String) (entry : Module χ) : Module (Noted χ) where
  builds := entry.builds
  activate context := do
    Flow.sync (note (.activating id))
    let outcome ← (entry.activate context).focus plainPart
    Flow.sync (note (.activated id))
    return outcome
  deactivate := do
    Flow.sync (note (.deactivating id))
    let outcome ← entry.deactivate.focus plainPart
    Flow.sync (note (.deactivated id))
    return outcome

/-- Code of extensions, whose calls are noted. -/
def Code.noted (code : Code χ) : Code (Noted χ) where
  listener callback notice := do
    note (.told callback notice)
    plainPart.zoom (code.listener callback notice)
  undo callback := do
    note (.undone callback)
    plainPart.zoom (code.undo callback)
  provider callback document query := do
    Flow.sync (note (.asked callback document query))
    (code.provider callback document query).focus plainPart
  command callback args := do
    Flow.sync (note (.ran callback args))
    (code.command callback args).focus plainPart
  entry id := (code.entry id).map (Module.noted id)

namespace Code

variable (code : Code χ)

@[simp] theorem diary_listener (callback : Callback) (notice : Notice) (w : World (Noted χ)) :
    (code.noted.listener callback notice w).2.diary = w.diary ++ [.told callback notice] := rfl

/-- A listener makes of the world what it makes of it without a diary. -/
@[simp] theorem withoutDiary_listener (callback : Callback) (notice : Notice)
    (w : World (Noted χ)) : (code.noted.listener callback notice w).2.withoutDiary =
      (code.listener callback notice w.withoutDiary).2 := rfl

@[simp] theorem diary_undo (callback : Callback) (w : World (Noted χ)) :
    (code.noted.undo callback w).2.diary = w.diary ++ [.undone callback] := rfl

@[simp] theorem withoutDiary_undo (callback : Callback) (w : World (Noted χ)) :
    (code.noted.undo callback w).2.withoutDiary = (code.undo callback w.withoutDiary).2 := rfl

end Code

/-! ## Listeners -/

section Listeners

variable {α β : Type}

/-- What a loop writes into the diary, when each round makes one entry. -/
theorem World.diary_loop (items : List α) {body : α → StateM (World (Noted χ)) β}
    {entry : α → DiaryEntry} (h : ∀ item w, (body item w).2.diary = w.diary ++ [entry item])
    (w : World (Noted χ)) :
    ((forIn items PUnit.unit fun item _ => do
      let _ ← body item
      return ForInStep.yield PUnit.unit) w).2.diary = w.diary ++ items.map entry := by
  induction items generalizing w with
  | nil => exact (List.append_nil w.diary).symm
  | cons item items ih =>
      rw [List.forIn_cons]
      refine (ih (body item w).2).trans ?_
      rw [h, List.append_assoc]
      rfl

/-- All listeners of a notice are told it, in the order of their subscription, and each once. -/
theorem World.diary_tell (code : Code χ) (notice : Notice) (w : World (Noted χ)) :
    (World.tell code.noted notice w).2.diary =
      w.diary ++ (w.api.listeners.callbacks notice.topic).map (.told · notice) :=
  World.diary_loop (w.api.listeners.callbacks notice.topic)
    (fun callback w => code.diary_listener callback notice w) w

end Listeners

end EditorHost
