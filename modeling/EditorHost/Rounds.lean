import EditorHost.Schedule

/-!
# Running flows in rounds

The strands whose end is waited for belong to one task, the others are tasks of their own.  The one
task goes on in rounds: in a round every strand of it that can go on takes a turn, in order, and
those that a strand started stand in front of it.  Between two rounds the other tasks run until none
of them can go on.

Tasks are fair to each other.  A wait that is over when it comes up does not interrupt a task, but
no task gets past more than `allowance` waits in one go.  Whoever meets a further one steps back
there, as if it had to wait, and the other tasks run first.
-/

namespace EditorHost.Rounds

open Schedule (Waiting waiting? isDue isReady enqueue pick nextDeadline maxTurns)

variable {σ α : Type}

/-- How many waits a task gets past in one go. -/
def allowance : Nat := 128

/-- What a strand came to when it had to wait or stepped back: the state, the rest of it, what it
started, and how many waits the task may still get past. -/
structure Progress (σ : Type) where
  state : σ
  rest : Strand σ
  started : List (Rank × Strand σ)
  left : Nat

/-- Runs a strand until it has to wait or step back; so do the strands that it starts and waits
for. -/
def advance (left : Nat) (started : List (Rank × Strand σ)) : Strand σ → σ → Progress σ
  | .stop, s => ⟨s, .stop, started, left⟩
  | .act change next, s => advance left started (next s) (change s)
  | .fork .joined child next, s =>
    let p := advance left started child s
    advance p.left (p.started ++ [(.joined, p.rest)]) next p.state
  | .fork rank child next, s => advance left (started ++ [(rank, child)]) next s
  | .await ready limit next, s =>
    if left = 0 then ⟨s, .await ready limit next, started, 0⟩
    else if ready s then advance (left - 1) started (next true) s
    else if limit = some 0 then advance (left - 1) started (next false) s
    else ⟨s, .await ready limit next, started, left⟩

/-- Goes on with a strand whose turn it is. -/
def resume (left : Nat) (s : σ) : Strand σ → Progress σ
  | .await ready _ next => advance (left - 1) [] (next (ready s)) s
  | strand => advance left [] strand s

/-- The strands that were started and whose end is waited for. -/
def joinedOf (now : Nat) (started : List (Rank × Strand σ)) : List (Waiting σ) :=
  started.filterMap fun (rank, child) => if rank = .joined then waiting? now rank child else none

/-- The tasks that were started. -/
def tasksOf (now : Nat) (started : List (Rank × Strand σ)) : List (Waiting σ) :=
  started.filterMap fun (rank, child) => if rank = .joined then none else waiting? now rank child

/-- What a round came to: the state, the strands that are left, the tasks that were started, and
whether the main strand has ended. -/
structure Round (σ : Type) where
  state : σ
  strands : List (Waiting σ)
  tasks : List (Waiting σ)
  isOver : Bool

/-- Whether a strand has come to its end. -/
def hasEnded : Strand σ → Bool
  | .stop => true
  | _ => false

/-- A round of the task with some strands, which may get past a number of waits. -/
def round (now : Nat) : Nat → List (Waiting σ) → σ → Round σ
  | _, [], s => ⟨s, [], [], false⟩
  | left, w :: rest, s =>
    if left ≠ 0 ∧ isReady now s w then
      let p := resume left s w.strand
      let r := round now p.left rest p.state
      { state := r.state
        strands := joinedOf now p.started ++ (waiting? now w.rank p.rest).toList ++ r.strands
        tasks := tasksOf now p.started ++ r.tasks
        isOver := (w.rank = .main ∧ hasEnded p.rest) ∨ r.isOver }
    else
      let r := round now left rest s
      { r with strands := w :: r.strands }

/-- Runs tasks and rounds until the main strand has ended, or nothing can go on any more. -/
def run : Nat → Nat → List (Waiting σ) → List (Waiting σ) → σ → σ
  | 0, _, _, _, s => s
  | fuel + 1, now, tasks, strands, s =>
    match (pick (isDue now) tasks).or (pick (isReady now s) tasks) with
    | some (before, chosen, behind) =>
      let p := resume allowance s chosen.strand
      let kept := before ++ (waiting? now chosen.rank p.rest).toList ++ behind
      let started := p.started.filterMap fun (rank, child) => waiting? now rank child
      run fuel now (started.foldl enqueue kept) strands p.state
    | none =>
      match if strands.any (isReady now s) then some now else nextDeadline (tasks ++ strands) with
      | none => s
      | some time =>
        let r := round time allowance strands s
        if r.isOver then r.state else run fuel time (r.tasks.foldl enqueue tasks) r.strands r.state

/-- The state behind a flow and all that it starts. -/
def runFlow (flow : Flow σ α) (s : σ) : σ :=
  run maxTurns 0 [] (waiting? 0 .main flow.strand).toList s

end EditorHost.Rounds
