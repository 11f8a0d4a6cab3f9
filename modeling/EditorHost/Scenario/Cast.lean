import EditorHost.Scenario.Play

/-!
# Extensions played by scripts

A listener, provider, command or undo action that a script registered notes that it was called, does
the steps that its part of the script lists, and then returns, fails or panics as the part says.
The entry module of an extension does the same with steps that may wait.
-/

namespace EditorHost.Scenario

open Stage

namespace Cast

/-- How a part of a script ends when it fails. -/
def failure : Failure := ⟨"scripted failure", []⟩

/-- How a part of a script ends. -/
def ending (part : Json) (value : α) : Outcome α :=
  match textOf part "mode" with
  | "fail" => .failed failure
  | "panic" => .panicked
  | _ => .returned value

/-- Does the steps that a part of a script lists. -/
def actions (code : Code Script) (part : Json) : StateM Stage Unit := do
  for step in listOf part "actions" do
    let r ← Step.perform code (part.textField? "ext") step
    trace [("by", .text (Step.nameOf part)), ("do", valueOf step "do"),
      ("r", r.getD Transcript.badStep)]

/-- What a listener is told, as it is noted. -/
def noticeJson (w : Stage) (part : Json) : Notice → Json
  | .opened document => documentJson w document
  | .changed document changes =>
    .ofFields [("document", documentJson w document),
      ("changes", .array (changes.map ContentChange.toJson))]
  | .closed document => document.toJson
  | .configured key =>
    .ofFields [("key", .text key), ("affects",
      .array ((textsOf part "sections").map fun name => .bool (Configuration.affects key name)))]

def listener (code : Code Script) (callback : Callback) (notice : Notice) :
    StateM Stage (Outcome Unit) := do
  let part ← part callback
  trace [("listener", .text (Step.nameOf part)), ("got", noticeJson (← get) part notice)]
  actions code part
  return ending part ()

def undo (code : Code Script) (callback : Callback) : StateM Stage (Outcome Unit) := do
  let part ← part callback
  trace [("disposed", .text (Step.nameOf part))]
  actions code part
  return ending part ()

/-- The arguments of a query, as they are noted. -/
def argumentsJson : Query → Json
  | .completion position trigger =>
    .ofFields [("position", position.toJson), ("trigger", .ofText? trigger)]
  | .hover position | .definition position => .ofFields [("position", position.toJson)]
  | .references position declaration =>
    .ofFields [("position", position.toJson), ("declaration", .bool declaration)]
  | .formatting options => .ofFields [("options", options.toJson)]
  | .rename position name => .ofFields [("position", position.toJson), ("name", .text name)]

/-- A value that may be null. -/
def readOptional (read : Json → Option α) (v : Json) : Option (Option α) :=
  if v.isNull then some none else (read v).map some

/-- Reads a value as an answer to a query. -/
def readAnswer : (query : Query) → Json → Option query.Answer
  | .completion _ _ => Json.readList CompletionItem.read
  | .hover _ => readOptional Hover.read
  | .definition _ => Json.readList Location.read
  | .references _ _ => Json.readList Location.read
  | .formatting _ => Json.readList TextEdit.read
  | .rename _ _ => readOptional WorkspaceEdit.read

def provider (code : Code Script) (callback : Callback) (document : DocumentId) (query : Query) :
    StateM Stage (Outcome query.Answer) := do
  let part ← part callback
  trace [("provider", .text (Step.nameOf part)), ("capability", .text query.capability.name),
    ("document", documentJson (← get) document), ("args", argumentsJson query)]
  actions code part
  match readAnswer query (valueOf part "value") with
  | some answer => return ending part answer
  | none => return if textOf part "mode" = "panic" then .panicked else .failed failure

def command (code : Code Script) (callback : Callback) (args : List Json) :
    StateM Stage (Option (Outcome Json)) := do
  let part ← part callback
  if textOf part "mode" = "panic_early" then return none
  trace [("command", .text (textOf part "name")), ("handler", .text (Step.nameOf part)),
    ("args", .array args)]
  actions code part
  match textOf part "mode" with
  | "fail" => return some (.failed ⟨"command failed", ["inner cause"]⟩)
  | "panic" => return some .panicked
  | "echo" => return some (.returned (.array args))
  | _ => return some (.returned (valueOf part "value"))

/-! ## Entry modules -/

/-- Does the steps of an activation; tells whether one of them panicked. -/
def activationSteps (kind : Kind) (code : Code Script) (id : String) : List Json → Flow Stage Bool
  | [] => .done false
  | step :: rest => do
    match ← Play.play kind code (some id) step with
    | .panicked => return true
    | .value r =>
      Flow.sync (trace [("ext", .text id), ("do", valueOf step "do"), ("r", r)])
      activationSteps kind code id rest

/-- How an activation ends. -/
def activationEnding (part : Json) : Outcome Json :=
  match textOf part "mode" with
  | "fail" => .failed ⟨"activate", ["missing dependency"]⟩
  | "panic" => .panicked
  | _ => .returned (valueOf part "exports")

def activate (kind : Kind) (code : Code Script) (id : String) (part : Json) (context : ContextId) :
    Flow Stage (Outcome Json) := do
  Flow.sync do
    let c := (World.contextPart context).get (← get)
    trace [("ext", .text id), ("activate", .text id), ("context", .text c.extension),
      ("path", .text c.path.text)]
    note fun s => { s with contexts := s.contexts.insert id context }
  if ← activationSteps kind code id (listOf part "activate") then return .panicked
  return activationEnding part

def deactivate (id : String) (part : Json) : StateM Stage (Outcome Unit) := do
  let w ← get
  let count := (w.own.contexts.find? id).map fun context =>
    Json.whole ((World.contextPart context).get w).subscriptions.length
  trace [("ext", .text id), ("deactivate", .ofOption count)]
  match textOf part "deactivate" with
  | "fail" => return .failed failure
  | "panic" => return .panicked
  | _ => return .returned ()

/-- The entry module that a part of a script plays. -/
def moduleOf (kind : Kind) (code : Code Script) (id : String) (part : Json) : Module Script :=
  if textOf part "mode" = "plain" then
    { activate := fun _ => .done (.returned (.text "plain"))
      deactivate := .done (.returned ()) }
  else
    { builds := textOf part "mode" ≠ "construct_panic"
      activate := activate kind code id part
      deactivate := Flow.sync (deactivate id part) }

/-- What scripts play, with calls inside calls down to a depth. -/
def code (kind : Kind) (modules : Table Json) : Nat → Code Script
  | 0 => .idle
  | depth + 1 =>
    let inner := code kind modules depth
    { listener := listener inner
      undo := undo inner
      provider := fun callback document query => Flow.sync (provider inner callback document query)
      command := fun callback args => Flow.sync (command inner callback args)
      entry := fun id => (modules.find? id).map (moduleOf kind inner id) }

/-- How deep calls may be inside calls. -/
def maxDepth : Nat := 200

end Cast

end EditorHost.Scenario
