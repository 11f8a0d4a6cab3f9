import EditorHost.StatusBar
import Mathlib.Data.List.Basic

/-!
# Laws of the status bar

What the user interface shows is what the last update told it (`shownBy`).  An operation on the
status bar tells what is visible behind it, unless that is what was visible before (`Tells`), so
that both stay the same.

The visible items are sorted by their place only.  The sort is stable, so that items with the same
place keep the order in which they stand, which is that of their creation (`pairwise_mergeSort`).
-/

namespace EditorHost

namespace StatusBar

/-! ## The order of the visible items -/

theorem precedes_iff {a b : StatusItem} : precedes a b = true ↔
    (a.side = .left ∧ b.side = .right) ∨ (a.side = b.side ∧ b.priority ≤ a.priority) := by
  unfold precedes
  cases a.side <;> cases b.side <;> simp

theorem precedes_trans (a b c : StatusItem) (hab : precedes a b) (hbc : precedes b c) :
    precedes a c := by
  rw [precedes_iff] at hab hbc ⊢
  rcases hab with ⟨ha, hb⟩ | ⟨hab, hle⟩ <;> rcases hbc with ⟨hb', hc⟩ | ⟨hbc, hle'⟩
  · exact .inl ⟨ha, hc⟩
  · exact .inl ⟨ha, hbc ▸ hb⟩
  · exact .inl ⟨hab.trans hb', hc⟩
  · exact .inr ⟨hab.trans hbc, Int.le_trans hle' hle⟩

theorem precedes_total (a b : StatusItem) : (precedes a b || precedes b a) = true := by
  rw [Bool.or_eq_true, precedes_iff, precedes_iff]
  rcases a.side with _ | _ <;> rcases b.side with _ | _ <;> simp [Int.le_total]

/-- Sorting leaves what has the same place in the order in which it came. -/
theorem pairwise_mergeSort {α : Type} {le : α → α → Bool} {early : α → α → Prop}
    (htrans : ∀ a b c, le a b → le b c → le a c) (htotal : ∀ a b, (le a b || le b a) = true)
    {items : List α} (h : items.Pairwise early) :
    (items.mergeSort le).Pairwise fun a b => le a b ∧ (le b a → early a b) := by
  induction items with
  | nil => simp
  | cons first items ih =>
      obtain ⟨hfirst, hitems⟩ := List.pairwise_cons.mp h
      obtain ⟨before, behind, hsort, hrest, hless⟩ := List.mergeSort_cons htrans htotal first items
      have hsorted := List.pairwise_mergeSort htrans htotal (first :: items)
      rw [hsort] at hsorted ⊢
      replace ih := ih hitems
      rw [hrest] at ih
      obtain ⟨hbefore, hbehind, hcross⟩ := List.pairwise_append.mp ih
      have hmem : ∀ b ∈ behind, b ∈ items := fun b hb =>
        (List.mergeSort_perm items le).mem_iff.mp (hrest ▸ List.mem_append_right _ hb)
      have hfollow := (List.pairwise_cons.mp (List.pairwise_append.mp hsorted).2.1).1
      refine List.pairwise_append.mpr ⟨hbefore, List.pairwise_cons.mpr ⟨?_, hbehind⟩, ?_⟩
      · exact fun b hb => ⟨hfollow b hb, fun _ => hfirst b (hmem b hb)⟩
      · refine fun a ha => List.forall_mem_cons.mpr ⟨?_, hcross a ha⟩
        have hnot : le first a = false := by simpa using hless a ha
        have hle : le a first = true := by simpa [hnot] using htotal first a
        exact ⟨hle, fun habove => absurd habove (by simp [hnot])⟩

/-! ## What the user interface is told -/

/-- The items that an event tells to be shown. -/
def told? : Event → Option (List StatusItem)
  | .statusBarUpdate items => some items
  | _ => none

/-- What the user interface shows after some events. -/
def shownBy (events : List Event) : List StatusItem :=
  ((events.filterMap told?).getLast?).getD []

/-- What an operation on the status bar tells is what is visible behind it; it tells nothing only
if that was visible before. -/
def Tells (run : StatusBar → List Event × StatusBar) : Prop :=
  ∀ bar, (run bar).1 = [(run bar).2.event] ∨
    (run bar).1 = [] ∧ (run bar).2.visible = bar.visible

/-- What is shown stays what is visible. -/
theorem Tells.shownBy {run : StatusBar → List Event × StatusBar} (h : Tells run) {bar : StatusBar}
    {events : List Event} (hshown : shownBy events = bar.visible) :
    StatusBar.shownBy (events ++ (run bar).1) = (run bar).2.visible := by
  rcases h bar with htold | ⟨hnone, hsame⟩
  · simp [htold, StatusBar.shownBy, event, told?]
  · rw [hnone, List.append_nil, hsame, hshown]

theorem tells_update (id : String) (change : StatusEntry → StatusEntry) :
    Tells fun bar => bar.update id change := by
  intro bar
  simp only [update]
  split
  · exact .inl rfl
  next hdue =>
    refine .inr ⟨rfl, ?_⟩
    -- what changes was hidden before and is hidden behind
    have hhidden : ∀ entry ∈ bar.entries, entry.item.id = id →
        entry.visible = false ∧ (change entry).visible = false := by
      intro entry hentry hid
      refine ⟨Bool.eq_false_iff.mpr fun hv => hdue ?_, Bool.eq_false_iff.mpr fun hv => hdue ?_⟩ <;>
        exact List.any_eq_true.mpr ⟨entry, hentry, by simp [hid, hv]⟩
    rw [visible, visible, List.filter_map]
    have hfilter : bar.entries.filter (StatusEntry.visible ∘ fun entry =>
        if entry.item.id = id then change entry else entry) =
          bar.entries.filter StatusEntry.visible := by
      refine List.filter_congr fun entry hentry => ?_
      by_cases hid : entry.item.id = id
      · simp [hid, hhidden entry hentry hid]
      · simp [hid]
    congr 2
    rw [hfilter]
    refine (List.map_congr_left fun entry hentry => if_neg fun hid => ?_).trans (List.map_id _)
    obtain ⟨hmem, hvisible⟩ := List.mem_filter.mp hentry
    exact absurd hvisible (by simp [hhidden entry hmem hid])

theorem tells_removeAll (goes : StatusItem → Bool) : Tells fun bar => bar.removeAll goes := by
  intro bar
  simp only [removeAll]
  split
  · exact .inl rfl
  next hdue =>
    refine .inr ⟨rfl, ?_⟩
    rw [visible, visible, List.filter_filter]
    congr 2
    refine List.filter_congr fun entry hentry => ?_
    cases hgoes : goes entry.item with
    | false => simp
    | true =>
        have hhidden : entry.visible = false := by
          by_contra hvisible
          exact hdue (List.any_eq_true.mpr ⟨entry, hentry, by simp_all⟩)
        simp [hhidden]

end StatusBar

end EditorHost
