import EditorHost.Flow

/-!
# Running flows

Strands over one state take turns: one runs until it has to wait, and then another one that is
ready. The time stands still as long as some strand is ready; when none is, it jumps to the end of
the shortest wait.

Which of several ready strands runs is decided by their ranks and, among equals, by their age: work
that stands for a device goes first, work in the background next, and work that is waited for last.
When the time has jumped, the strands go on first whose waits ended then: those that are waited for,
and then the others.
-/

namespace EditorHost.Schedule

variable {σ : Type}

/-- A strand that waits for its turn. -/
structure Waiting (σ : Type) where
  rank : Rank
  /-- When its wait ends at the latest. -/
  deadline : Option Nat
  strand : Strand σ

/-- A strand that waits from a time on; `none` when it has come to its end. -/
def waiting? (now : Nat) (rank : Rank) : Strand σ → Option (Waiting σ)
  | .stop => none
  | .await ready limit next =>
    some ⟨rank, limit.map (now + ·), .await ready limit next⟩
  | strand => some ⟨rank, none, strand⟩

/-- Whether the wait of a strand has come to its end. -/
def isDue (now : Nat) (w : Waiting σ) : Bool := w.deadline.any (· ≤ now)

/-- Whether a strand can go on. -/
def isReady (now : Nat) (s : σ) (w : Waiting σ) : Bool :=
  match w.strand with
  | .await ready _ _ => ready s || isDue now w
  | _ => true

/-- What comes behind the wait of a strand that can go on. -/
def wake (s : σ) : Strand σ → Strand σ
  | .await ready _ next => next (ready s)
  | strand => strand

/-- What a strand came to when it had to wait: the state, the rest of it, and what it started. -/
structure Progress (σ : Type) where
  state : σ
  rest : Strand σ
  started : List (Rank × Strand σ)

/-- Runs a strand until it has to wait; so do the strands that it starts and waits for. -/
def advance (started : List (Rank × Strand σ)) : Strand σ → σ → Progress σ
  | .stop, s => ⟨s, .stop, started⟩
  | .act change next, s => advance started (next s) (change s)
  | .fork .joined child next, s =>
    let p := advance started child s
    advance (p.started ++ [(.joined, p.rest)]) next p.state
  | .fork rank child next, s => advance (started ++ [(rank, child)]) next s
  | .await ready limit next, s =>
    if ready s then advance started (next true) s
    else if limit = some 0 then advance started (next false) s
    else ⟨s, .await ready limit next, started⟩

/-- Which of two ranks goes first. -/
def Rank.order : Rank → Nat
  | .device => 0
  | .background => 1
  | .joined => 2
  | .main => 3

/-- Puts a strand behind those of its rank. -/
def enqueue (pool : List (Waiting σ)) (w : Waiting σ) : List (Waiting σ) :=
  match pool with
  | [] => [w]
  | other :: rest =>
    if Rank.order w.rank < Rank.order other.rank then w :: other :: rest
    else other :: enqueue rest w

/-- The first strand that a condition picks, and the others before and behind it. -/
def pick (chosen : Waiting σ → Bool) :
    List (Waiting σ) → Option (List (Waiting σ) × Waiting σ × List (Waiting σ))
  | [] => none
  | w :: rest =>
    if chosen w then some ([], w, rest)
    else (pick chosen rest).map fun (before, found, behind) => (w :: before, found, behind)

/-- Whether the end of a strand is waited for. -/
def Rank.isAwaited : Rank → Bool
  | .joined | .main => true
  | .device | .background => false

/-- The strand whose turn it is. -/
def turn? (now : Nat) (s : σ) (pool : List (Waiting σ)) :
    Option (List (Waiting σ) × Waiting σ × List (Waiting σ)) :=
  ((pick (fun w => Rank.isAwaited w.rank && isDue now w) pool).or
    (pick (isDue now) pool)).or (pick (isReady now s) pool)

/-- When the first wait ends. -/
def nextDeadline (pool : List (Waiting σ)) : Option Nat :=
  (pool.filterMap Waiting.deadline).min?

/-- Runs strands until the main one has ended, or none can go on any more. -/
def run : Nat → Nat → List (Waiting σ) → σ → σ
  | 0, _, _, s => s
  | fuel + 1, now, pool, s =>
    match turn? now s pool with
    | some (before, chosen, behind) =>
      let p := advance [] (wake s chosen.strand) s
      let kept := before ++ (waiting? now chosen.rank p.rest).toList ++ behind
      let started := p.started.filterMap fun (rank, child) => waiting? now rank child
      let pool := started.foldl enqueue kept
      match chosen.rank, p.rest with
      | .main, .stop => p.state
      | _, _ => run fuel now pool p.state
    | none =>
      match nextDeadline pool with
      | some time => run fuel time pool s
      | none => s

/-- How many turns are taken at most. -/
def maxTurns : Nat := 1000000000

/-- The state behind a flow and all that it starts. -/
def runFlow (flow : Flow σ α) (s : σ) : σ := run maxTurns 0 (waiting? 0 .main flow.strand).toList s

end EditorHost.Schedule
