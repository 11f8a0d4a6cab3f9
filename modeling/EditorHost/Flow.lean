/-!
# Flows

Work that is done in stretches.  A flow changes a shared state, waits until the state allows it to
go on, starts other work on the side, and ends with a value.  Between two stretches other flows may
run, so what they do to the state is the whole of what a flow sees of them.

## Contents

* `Flow σ α` is work over a state `σ` with a value of type `α`; it is a monad.
* `Strand σ` is work without a value, as it is started on the side.
* `Flow.sync` is one stretch, `Flow.untilReady` waits for the state, `Flow.within` waits for a
  limited time.
* `Flow.focus` confines work to a part of the state.
* `Strand.givingUp` is work that is given up as soon as the state says so.
-/

namespace EditorHost

/-- What kind of work a strand does. -/
inductive Rank where
  /-- It moves messages between programs. -/
  | device
  /-- Nobody waits for it. -/
  | background
  /-- The one that started it waits for it; it starts at once. -/
  | joined
  /-- Its end is the end of all. -/
  | main
  deriving DecidableEq, Repr, Inhabited

/-- Work over a state, without a value. -/
inductive Strand (σ : Type) : Type where
  | stop
  /-- Changes the state at once; what comes next may look at the state before the change. -/
  | act (change : σ → σ) (next : σ → Strand σ)
  /-- Waits until the state is ready, at most for the given time; what comes next is told whether
  the state was. -/
  | await (ready : σ → Bool) (limit : Option Nat) (next : Bool → Strand σ)
  /-- Starts a strand on the side. -/
  | fork (rank : Rank) (child : Strand σ) (next : Strand σ)

/-- Work over a state that ends with a value. -/
inductive Flow (σ : Type) (α : Type) : Type where
  | done (value : α)
  /-- Changes the state at once; what comes next may look at the state before the change. -/
  | act (change : σ → σ) (next : σ → Flow σ α)
  /-- Waits until the state is ready, at most for the given time; what comes next is told whether
  the state was. -/
  | await (ready : σ → Bool) (limit : Option Nat) (next : Bool → Flow σ α)
  /-- Starts a strand on the side. -/
  | fork (rank : Rank) (child : Strand σ) (next : Flow σ α)

namespace Flow

variable {σ α β γ : Type}

/-- Goes on with the value of a flow. -/
def bind : Flow σ α → (α → Flow σ β) → Flow σ β
  | done value, k => k value
  | act change next, k => act change fun s => (next s).bind k
  | await ready limit next, k => await ready limit fun met => (next met).bind k
  | fork rank child next, k => fork rank child (next.bind k)

instance : Monad (Flow σ) where
  pure := done
  bind := bind

/-- The work of a flow, followed by a strand. -/
def thenStrand : Flow σ α → (α → Strand σ) → Strand σ
  | done value, k => k value
  | act change next, k => .act change fun s => (next s).thenStrand k
  | await ready limit next, k => .await ready limit fun met => (next met).thenStrand k
  | fork rank child next, k => .fork rank child (next.thenStrand k)

/-- The work of a flow, whose value nobody asks for. -/
def strand (flow : Flow σ α) : Strand σ := flow.thenStrand fun _ => .stop

/-! ## Parts of flows -/

/-- A computation on the state, in one stretch. -/
def sync (run : StateM σ α) : Flow σ α := act (fun s => (run s).2) fun s => done (run s).1

/-- What a function says of the state. -/
def read (view : σ → α) : Flow σ α := act id fun s => done (view s)

/-- Waits until the state is ready. -/
def untilReady (ready : σ → Bool) : Flow σ Unit := await ready none fun _ => done ()

/-- Waits until the state is ready, at most for a number of milliseconds; tells whether it was. -/
def within (limit : Nat) (ready : σ → Bool) : Flow σ Bool := await ready (some limit) done

/-- Lets a number of milliseconds pass. -/
def sleep (limit : Nat) : Flow σ Unit := await (fun _ => false) (some limit) fun _ => done ()

/-- A place where other flows may run. -/
def pause : Flow σ Unit := await (fun _ => true) none fun _ => done ()

/-- Starts a flow on the side. -/
def start (rank : Rank) (child : Flow σ α) : Flow σ Unit := fork rank child.strand (done ())

/-- Does a flow for every item, in order. -/
def each (items : List α) (body : α → Flow σ Unit) : Flow σ Unit :=
  match items with
  | [] => done ()
  | item :: rest => (body item).bind fun _ => each rest body

/-- The values of a flow for every item, in order. -/
def mapEach (items : List α) (body : α → Flow σ β) : Flow σ (List β) :=
  match items with
  | [] => done []
  | item :: rest => (body item).bind fun value => (mapEach rest body).bind fun values =>
      done (value :: values)

end Flow

/-! ## Parts of a state -/

/-- A part of a state that work may be confined to. -/
structure Focus (σ τ : Type) where
  get : σ → τ
  set : τ → σ → σ

namespace Focus

variable {σ τ υ : Type}

/-- The whole state as a part of itself. -/
def whole : Focus σ σ := ⟨id, fun part _ => part⟩

/-- The part of a part. -/
def comp (outer : Focus σ τ) (inner : Focus τ υ) : Focus σ υ :=
  ⟨fun s => inner.get (outer.get s), fun part s => outer.set (inner.set part (outer.get s)) s⟩

/-- Changes a part. -/
def modify (f : Focus σ τ) (change : τ → τ) (s : σ) : σ := f.set (change (f.get s)) s

/-- A computation on a part, as one on the state. -/
def zoom (f : Focus σ τ) (run : StateM τ α) : StateM σ α := fun s =>
  let (value, part) := run (f.get s)
  (value, f.set part s)

end Focus

/-- A strand on a part of a state. -/
def Strand.focus {σ τ : Type} (f : Focus σ τ) : Strand τ → Strand σ
  | stop => stop
  | act change next => act (f.modify change) fun s => (next (f.get s)).focus f
  | await ready limit next => await (fun s => ready (f.get s)) limit fun met => (next met).focus f
  | fork rank child next => fork rank (child.focus f) (next.focus f)

/-- A flow on a part of a state. -/
def Flow.focus {σ τ α : Type} (f : Focus σ τ) : Flow τ α → Flow σ α
  | done value => done value
  | act change next => act (f.modify change) fun s => (next (f.get s)).focus f
  | await ready limit next => await (fun s => ready (f.get s)) limit fun met => (next met).focus f
  | fork rank child next => fork rank (child.focus f) (next.focus f)

namespace Flow

variable {σ α β γ : Type}

/-! ## Laws -/

@[simp] theorem pure_eq (value : α) : (pure value : Flow σ α) = done value := rfl

@[simp] theorem bind_eq (flow : Flow σ α) (k : α → Flow σ β) : (flow >>= k) = flow.bind k := rfl

theorem bind_done (flow : Flow σ α) : flow.bind done = flow := by
  induction flow with
  | done value => rfl
  | act change next ih => simp only [bind, ih]
  | await ready limit next ih => simp only [bind, ih]
  | fork rank child next ih => simp only [bind, ih]

theorem bind_assoc (flow : Flow σ α) (f : α → Flow σ β) (g : β → Flow σ γ) :
    (flow.bind f).bind g = flow.bind fun value => (f value).bind g := by
  induction flow with
  | done value => rfl
  | act change next ih => simp only [bind, ih]
  | await ready limit next ih => simp only [bind, ih]
  | fork rank child next ih => simp only [bind, ih]

end Flow

namespace Strand

variable {σ : Type}

/-- The strand, given up at its first wait during which the state says so. -/
def givingUp (given : σ → Bool) : Strand σ → Strand σ
  | stop => stop
  | act change next => act change fun s => (next s).givingUp given
  | await ready limit next =>
    await (fun s => ready s || given s) limit fun met =>
      act id fun s => if given s then stop else (next met).givingUp given
  | fork rank child next => fork rank child (next.givingUp given)

end Strand

end EditorHost
