import EditorHost.Proofs.Uninterrupted
import Mathlib.Logic.Hydra

/-!
# Calls that come to their end

With every turn a call leaves a piece of itself behind, and so does what it starts on the side.  The
pieces get smaller, so the calls under way cannot take turns for ever (`Pool.wellFounded_spent`),
and no time passes beyond the end of a wait.  So where somebody can always go on, now or later, as
long as something has not come about, it comes about (`System.exists_run_of_live`).

## Contents

* `Flow.Piece` is what a flow may leave behind, and `Flow.Behind` its transitive closure.
* `Pool.Spent` says that less is left of the calls under way than there was.
* `Pool.IsLive` says that somebody can go on, now or when some time has passed.
-/

namespace EditorHost

variable {ι ε σ α : Type}

namespace Flow

variable [Inhabited α]

/-! ## Pieces of flows -/

/-- What is left of a flow when its first part is over, and what it starts on the side. -/
inductive Piece : Flow σ α → Flow σ α → Prop
  | act (change : σ → σ) (next : σ → Flow σ α) (s : σ) : Piece (next s) (.act change next)
  | await (ready : σ → Bool) (limit : Option Nat) (next : Bool → Flow σ α) (met : Bool) :
      Piece (next met) (.await ready limit next)
  | fork (rank : Rank) (child : Strand σ) (next : Flow σ α) : Piece next (.fork rank child next)
  | child (rank : Rank) (child : Strand σ) (next : Flow σ α) :
      Piece (.ofStrand child) (.fork rank child next)

/-- What may be left of a flow after some parts. -/
abbrev Behind : Flow σ α → Flow σ α → Prop := Relation.TransGen Piece

theorem acc_ofStrand (strand : Strand σ) : Acc Piece (.ofStrand strand : Flow σ α) := by
  induction strand with
  | stop => exact ⟨_, fun _ h => nomatch h⟩
  | act change next ih =>
      refine ⟨_, fun _ h => ?_⟩
      cases h
      exact ih _
  | await ready limit next ih =>
      refine ⟨_, fun _ h => ?_⟩
      cases h
      exact ih _
  | fork rank child next ihchild ihnext =>
      refine ⟨_, fun _ h => ?_⟩
      cases h
      · exact ihnext
      · exact ihchild

theorem acc_piece (flow : Flow σ α) : Acc Piece flow := by
  induction flow with
  | done value => exact ⟨_, fun _ h => nomatch h⟩
  | act change next ih =>
      refine ⟨_, fun _ h => ?_⟩
      cases h
      exact ih _
  | await ready limit next ih =>
      refine ⟨_, fun _ h => ?_⟩
      cases h
      exact ih _
  | fork rank child next ih =>
      refine ⟨_, fun _ h => ?_⟩
      cases h
      · exact ih
      · exact acc_ofStrand child

theorem wellFounded_behind : WellFounded (Behind : Flow σ α → Flow σ α → Prop) :=
  WellFounded.transGen ⟨acc_piece⟩

/-- What a flow leaves after a stretch is behind all that the flow is behind of. -/
theorem behind_stretch {first flow : Flow σ α} (h : Behind first flow) (s : σ) :
    Behind (first.stretch s).rest flow ∧
      ∀ child ∈ (first.stretch s).started, Behind (.ofStrand child) flow := by
  induction first generalizing s with
  | done value => exact ⟨h, fun _ hchild => nomatch hchild⟩
  | act change next ih => exact ih s ((Relation.TransGen.single (.act change next s)).trans h) _
  | await ready limit next ih => exact ⟨h, fun _ hchild => nomatch hchild⟩
  | fork rank child next ih =>
      obtain ⟨hrest, hstarted⟩ :=
        ih ((Relation.TransGen.single (.fork rank child next)).trans h) s
      have hchild : Behind (.ofStrand child) flow :=
        (Relation.TransGen.single (.child rank child next)).trans h
      exact ⟨hrest, List.forall_mem_cons.mpr ⟨hchild, hstarted⟩⟩

/-- A flow that can go on leaves pieces of itself. -/
theorem behind_turn {flow : Flow σ α} {now : Nat} {s : σ} {deadline : Option Nat}
    (h : flow.canGoOn now s deadline = true) :
    Behind ((flow.wake s).stretch s).rest flow ∧
      ∀ child ∈ ((flow.wake s).stretch s).started, Behind (.ofStrand child) flow := by
  cases flow with
  | done value => cases h
  | act change next => exact behind_stretch (.single (.act change next s)) (change s)
  | await ready limit next => exact behind_stretch (.single (.await ready limit next (ready s))) s
  | fork rank child next =>
      obtain ⟨hrest, hstarted⟩ := behind_stretch (.single (.fork rank child next)) s
      exact ⟨hrest, List.forall_mem_cons.mpr ⟨.single (.child rank child next), hstarted⟩⟩

end Flow

namespace Interleaving

variable [Inhabited α]

/-! ## Turns -/

namespace Pool

/-- What is left of the calls under way. -/
def rests (p : Pool ι σ α) : Multiset (Flow σ α) := p.tasks.map Task.rest

/-- Of the calls under way less is left than there was. -/
def Spent (p' p : Pool ι σ α) : Prop := Relation.CutExpand Flow.Behind p'.rests p.rests

theorem wellFounded_spent : WellFounded (Spent : Pool ι σ α → Pool ι σ α → Prop) :=
  InvImage.wf rests Flow.wellFounded_behind.cutExpand

/-- Every turn leaves less. -/
theorem spent_turn {p : Pool ι σ α} {n : Nat} {t : Task ι σ α} (hn : p.tasks[n]? = some t)
    (hready : t.isReady p.now p.state = true) : Spent (p.turn n) p := by
  obtain ⟨hrest, hstarted⟩ := Flow.behind_turn hready
  let r := (t.rest.wake p.state).stretch p.state
  refine ⟨r.rest ::ₘ (r.started.map Flow.ofStrand : List (Flow σ α)), t.rest, ?_, ?_⟩
  · intro flow hflow
    rcases Multiset.mem_cons.mp hflow with rfl | hflow
    · exact hrest
    · obtain ⟨child, hchild, rfl⟩ := List.mem_map.mp (Multiset.mem_coe.mp hflow)
      exact hstarted child hchild
  · obtain ⟨hlt, rfl⟩ := List.getElem?_eq_some_iff.mp hn
    let others : Multiset (Flow σ α) := (p.tasks.eraseIdx n).map Task.rest
    have hbefore : p.rests = p.tasks[n].rest ::ₘ others :=
      Multiset.coe_eq_coe.mpr ((List.getElem_cons_eraseIdx_perm hlt).symm.map Task.rest)
    have hbehind : (p.turn n).rests = r.rest ::ₘ others +
        (r.started.map Flow.ofStrand : List (Flow σ α)) := by
      rw [System.turn_of_ready hn hready]
      have hset := (List.set_perm_cons_eraseIdx hlt
        (Task.of p.now p.tasks[n].call r.rest)).map Task.rest
      refine Multiset.coe_eq_coe.mpr ?_
      rw [goneOn, List.map_append, List.map_map]
      exact hset.append_right _
    rw [hbefore, hbehind]
    simp only [← Multiset.singleton_add]
    ac_rfl

end Pool

/-! ## Runs -/

/-- A move of the calls under way: a turn, or the passing of time. -/
def Move.IsOwn : Move ι ε → Prop
  | .turn _ | .pass _ => True
  | .start _ | .outside _ => False

/-- The end of a wait is that of the wait with which what is left of a call begins. -/
def Pool.Timely (p : Pool ι σ α) : Prop :=
  ∀ t ∈ p.tasks, ∃ since, t.deadline = t.rest.waitEnd since

/-- Somebody can go on, now or when some time has passed. -/
def Pool.IsLive (p : Pool ι σ α) : Prop :=
  ∃ t ∈ p.tasks, t.isReady p.now p.state = true ∨ t.deadline.isSome = true

namespace System

variable {S : System ι ε σ α} {p : Pool ι σ α}

theorem timely_step (h : p.Timely) (move : Move ι ε) : (S.step p move).Timely := by
  have hstep := S.step_cases p move
  generalize S.step p move = p' at hstep
  cases hstep with
  | idle => exact h
  | start call =>
      exact List.forall_mem_append.mpr ⟨h, List.forall_mem_singleton.mpr ⟨p.now, rfl⟩⟩
  | turn hn hstretch =>
      refine List.forall_mem_append.mpr ⟨fun t ht => ?_, fun t ht => ?_⟩
      · rcases List.mem_or_eq_of_mem_set ht with ht | rfl
        · exact h t ht
        · exact ⟨p.now, rfl⟩
      · obtain ⟨child, -, rfl⟩ := List.mem_map.mp ht
        exact ⟨p.now, rfl⟩
  | pass time => exact h
  | outside event => exact h

omit [Inhabited α] in
/-- A call whose wait has come to its end can go on. -/
theorem isReady_of_deadline {t : Task ι σ α} {since deadline now : Nat} {s : σ}
    (h : t.deadline = t.rest.waitEnd since) (hdeadline : t.deadline = some deadline)
    (hle : deadline ≤ now) : t.isReady now s = true := by
  obtain ⟨call, waitEnd, rest⟩ := t
  obtain rfl : waitEnd = some deadline := hdeadline
  cases rest with
  | await ready limit next => simp [Task.isReady, Flow.canGoOn, hle]
  | done value => cases h
  | act change next => cases h
  | fork rank child next => cases h

/-- When somebody can go on now or later, the time can come at which somebody can. -/
theorem exists_pass (S : System ι ε σ α) (htimely : p.Timely) (hlive : p.IsLive) :
    ∃ (time n : Nat) (t : Task ι σ α), (S.step p (.pass time)).tasks[n]? = some t ∧
      t.isReady (S.step p (.pass time)).now (S.step p (.pass time)).state = true := by
  by_cases hready : ∃ t ∈ p.tasks, t.isReady p.now p.state = true
  · obtain ⟨t, hmem, hready⟩ := hready
    obtain ⟨n, hn⟩ := List.mem_iff_getElem?.mp hmem
    have hsame : S.step p (.pass p.now) = p := by
      simp only [step, Pool.pass]
      split <;> rfl
    exact ⟨p.now, n, t, by rwa [hsame], by rwa [hsame]⟩
  · -- Nobody can go on now, so the time passes to the end of the wait that ends first.
    have hends : ∃ deadline, ∃ t ∈ p.tasks, t.deadline = some deadline := by
      obtain ⟨t, hmem, hnow | hlater⟩ := hlive
      · exact absurd ⟨t, hmem, hnow⟩ hready
      · obtain ⟨deadline, hdeadline⟩ := Option.isSome_iff_exists.mp hlater
        exact ⟨deadline, t, hmem, hdeadline⟩
    classical
    obtain ⟨t, hmem, hdeadline⟩ := Nat.find_spec hends
    obtain ⟨since, hsince⟩ := htimely t hmem
    have hnow : p.now ≤ Nat.find hends := by
      by_contra hpast
      exact hready ⟨t, hmem, isReady_of_deadline hsince hdeadline (Nat.le_of_not_le hpast)⟩
    have hall : p.tasks.all (fun t => t.deadline.all (Nat.find hends ≤ ·)) = true := by
      refine List.all_eq_true.mpr fun other hother => ?_
      cases hend : other.deadline with
      | none => rfl
      | some later => simpa using Nat.find_min' hends ⟨other, hother, hend⟩
    have hpass : S.step p (.pass (Nat.find hends)) = { p with now := Nat.find hends } :=
      if_pos ⟨hnow, hall⟩
    obtain ⟨n, hn⟩ := List.mem_iff_getElem?.mp hmem
    refine ⟨Nat.find hends, n, t, by rwa [hpass], ?_⟩
    rw [hpass]
    exact isReady_of_deadline hsince hdeadline le_rfl

/-- Calls that can go on as long as something has not come about bring it about. -/
theorem exists_run_of_live {Good Goal : Pool ι σ α → Prop}
    (hgood : ∀ p move, Move.IsOwn move → Good p → Good (S.step p move))
    (hlive : ∀ p, Good p → ¬ Goal p → p.IsLive) (htimely : p.Timely) (h : Good p) :
    ∃ moves : List (Move ι ε), (∀ move ∈ moves, move.IsOwn) ∧ Goal (S.run p moves) := by
  induction Pool.wellFounded_spent.apply p with
  | intro p _ ih =>
      by_cases hgoal : Goal p
      · exact ⟨[], List.forall_mem_nil _, hgoal⟩
      obtain ⟨time, n, t, hn, hready⟩ := S.exists_pass htimely (hlive p h hgoal)
      have hrests : (S.step p (.pass time)).rests = p.rests := by
        simp only [step, Pool.pass]
        split <;> rfl
      have hspent : Pool.Spent ((S.step p (.pass time)).turn n) p := by
        have hturn := Pool.spent_turn hn hready
        rwa [Pool.Spent, hrests] at hturn
      obtain ⟨moves, hown, hreached⟩ := ih _ hspent
        (timely_step (S := S) (timely_step htimely (.pass time)) (.turn n))
        (hgood _ (.turn n) trivial (hgood p (.pass time) trivial h))
      exact ⟨.pass time :: .turn n :: moves, by simpa [Move.IsOwn] using hown, hreached⟩

end System

end Interleaving

end EditorHost
