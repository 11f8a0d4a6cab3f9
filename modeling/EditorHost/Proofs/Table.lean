import EditorHost.Table

/-!
# Laws of tables

What a look-up finds behind each operation, which entries there are, and that tables in order stay
in order.  In a table in order each key has one entry, so that its entries say the same as look-ups
(`Sorted.find?_filter`).
-/

namespace EditorHost.Table

variable {α : Type u} {β : Type v}

/-! ## Look-ups -/

theorem find?_insert (t : Table α) (key other : String) (value : α) :
    (t.insert key value).find? other = if other = key then some value else t.find? other := by
  by_cases h : other = key
  · rw [if_pos h, h, find?_insert_self]
  · rw [if_neg h, find?_insert_of_ne t value h]

theorem find?_erase (t : Table α) (key other : String) :
    (t.erase key).find? other = if other = key then none else t.find? other := by
  by_cases h : other = key
  · rw [if_pos h, h, find?_erase_self]
  · rw [if_neg h, find?_erase_of_ne t h]

theorem find?_adjust (t : Table α) (key other : String) (f : α → α) :
    (t.adjust key f).find? other =
      if other = key then (t.find? other).map f else t.find? other := by
  induction t with
  | nil => simp [adjust]
  | cons entry rest ih =>
      obtain ⟨k, value⟩ := entry
      rw [adjust, List.map_cons, ← adjust]
      by_cases hk : k = key
      · subst hk
        by_cases hother : other = k
        · simp [find?, hother]
        · simpa [find?, hother, Ne.symm hother] using ih
      · by_cases hother : k = other
        · subst hother
          simp [find?, hk]
        · simpa [find?, hk, hother] using ih

theorem find?_mapValues (t : Table α) (f : α → β) (key : String) :
    (t.mapValues f).find? key = (t.find? key).map f := by
  induction t with
  | nil => rfl
  | cons entry rest ih =>
      rw [mapValues, List.map_cons, ← mapValues, find?, find?, ih]
      split <;> rfl

/-- In a table of pairs the last pair of a key counts. -/
theorem find?_foldl_insert (pairs : List (String × α)) (t : Table α) (key : String) :
    (pairs.foldl (fun t entry => t.insert entry.1 entry.2) t).find? key =
      ((pairs.reverse.find? fun entry => entry.1 == key).map Prod.snd).or (t.find? key) := by
  induction pairs generalizing t with
  | nil => simp
  | cons entry rest ih =>
      rw [List.foldl_cons, ih, find?_insert, List.reverse_cons, List.find?_append, Option.map_or,
        Option.or_assoc]
      congr 1
      by_cases h : entry.1 = key
      · simp [h]
      · simp [h, Ne.symm h]

/-! ## Entries -/

theorem mem_of_find? {t : Table α} {key : String} {value : α} (h : t.find? key = some value) :
    (key, value) ∈ t := by
  induction t with
  | nil => cases h
  | cons entry rest ih =>
      obtain ⟨k, old⟩ := entry
      rw [find?] at h
      split at h
      next heq =>
        cases h
        rw [heq]
        exact List.mem_cons_self
      · exact List.mem_cons_of_mem _ (ih h)

theorem mem_insert {t : Table α} {key : String} {value : α} {entry : String × α}
    (h : entry ∈ t.insert key value) : entry = (key, value) ∨ entry ∈ t := by
  induction t with
  | nil => exact .inl (List.mem_singleton.mp h)
  | cons first rest ih =>
      obtain ⟨k, old⟩ := first
      rw [insert] at h
      split at h
      · rcases List.mem_cons.mp h with h | h
        · exact .inl h
        · exact .inr (List.mem_cons_of_mem _ h)
      · split at h
        · exact List.mem_cons.mp h
        · rcases List.mem_cons.mp h with h | h
          · exact .inr (h ▸ List.mem_cons_self)
          · exact (ih h).imp_right (List.mem_cons_of_mem _)

theorem mem_erase {t : Table α} {key : String} {entry : String × α} :
    entry ∈ t.erase key ↔ entry ∈ t ∧ entry.1 ≠ key := by
  simp [erase]

theorem mem_values {t : Table α} {value : α} : value ∈ t.values ↔ ∃ key, (key, value) ∈ t := by
  simp [values]

/-! ## Tables in order -/

theorem sorted_cons {entry : String × α} {rest : Table α} :
    Sorted (entry :: rest) ↔ (∀ other ∈ rest, entry.1 < other.1) ∧ Sorted rest := by
  simp [Sorted, keys, List.pairwise_cons]

theorem sorted_nil : Sorted ([] : Table α) := List.Pairwise.nil

theorem Sorted.insert {t : Table α} (h : t.Sorted) (key : String) (value : α) :
    (t.insert key value).Sorted := by
  induction t with
  | nil => exact List.pairwise_singleton _ _
  | cons entry rest ih =>
      obtain ⟨k, old⟩ := entry
      obtain ⟨hless, hrest⟩ := sorted_cons.mp h
      rw [Table.insert]
      split
      next heq =>
        subst heq
        exact sorted_cons.mpr ⟨hless, hrest⟩
      next hne =>
        split
        next hlt =>
          refine sorted_cons.mpr ⟨fun other hother => ?_, h⟩
          rcases List.mem_cons.mp hother with rfl | hother
          · exact hlt
          · exact String.lt_trans hlt (hless other hother)
        next hnot =>
          refine sorted_cons.mpr ⟨fun other hother => ?_, ih hrest⟩
          rcases mem_insert hother with rfl | hother
          · have hle : k ≤ key := String.not_lt.mp hnot
            exact Std.lt_of_le_of_ne hle hne
          · exact hless other hother

theorem Sorted.filter {t : Table α} (h : t.Sorted) (p : String × α → Bool) :
    Sorted (t.filter p) := by
  have hsublist : (keys (t.filter p)).Sublist t.keys := List.filter_sublist.map Prod.fst
  exact List.Pairwise.sublist hsublist h

theorem Sorted.erase {t : Table α} (h : t.Sorted) (key : String) : (t.erase key).Sorted :=
  h.filter _

theorem Sorted.adjust {t : Table α} (h : t.Sorted) (key : String) (f : α → α) :
    (t.adjust key f).Sorted := by
  have hkeys : keys (t.adjust key f) = t.keys := by
    rw [keys, Table.adjust, List.map_map]
    refine List.map_congr_left fun entry _ => ?_
    simp only [Function.comp]
    split <;> rfl
  rw [Sorted, hkeys]
  exact h

theorem Sorted.mapValues {t : Table α} (h : t.Sorted) (f : α → β) : (t.mapValues f).Sorted := by
  rw [Sorted, keys, Table.mapValues, List.map_map]
  exact h

theorem insert_of_lt {t : Table α} {key : String} (value : α) (h : ∀ entry ∈ t, entry.1 < key) :
    t.insert key value = t ++ [(key, value)] := by
  induction t with
  | nil => rfl
  | cons entry rest ih =>
      obtain ⟨hentry, hrest⟩ := List.forall_mem_cons.mp h
      have hne : entry.1 ≠ key := fun heq => String.lt_irrefl key (heq ▸ hentry)
      have hnot : ¬ key < entry.1 := fun hlt => String.lt_irrefl key (String.lt_trans hlt hentry)
      rw [Table.insert, if_neg hne, if_neg hnot, ih hrest, List.cons_append]

/-- Pairs in order are a table as they are. -/
theorem Sorted.ofList_eq {t : Table α} (h : t.Sorted) : ofList t = t := by
  have hfold (later before : Table α) (hsorted : Sorted (before ++ later)) :
      later.foldl (fun t entry => t.insert entry.1 entry.2) before = before ++ later := by
    induction later generalizing before with
    | nil => exact (List.append_nil before).symm
    | cons entry rest ih =>
        have hless : ∀ other ∈ before, other.1 < entry.1 := by
          rw [Sorted, keys, List.map_append, List.pairwise_append] at hsorted
          exact fun other hother =>
            hsorted.2.2 _ (List.mem_map_of_mem hother) _ List.mem_cons_self
        rw [List.append_cons] at hsorted ⊢
        rw [List.foldl_cons, insert_of_lt entry.2 hless, ih _ hsorted]
  exact hfold t [] h

theorem find?_of_lt {t : Table α} {key : String} (h : ∀ entry ∈ t, key < entry.1) :
    t.find? key = none := by
  induction t with
  | nil => rfl
  | cons entry rest ih =>
      obtain ⟨hfirst, hrest⟩ := List.forall_mem_cons.mp h
      have hne : entry.1 ≠ key := fun heq => String.lt_irrefl key (heq ▸ hfirst)
      obtain ⟨k, old⟩ := entry
      rw [find?, if_neg hne, ih hrest]

/-- In a table in order an entry is what a look-up finds. -/
theorem Sorted.find?_of_mem {t : Table α} (h : t.Sorted) {key : String} {value : α}
    (hmem : (key, value) ∈ t) : t.find? key = some value := by
  induction t with
  | nil => cases hmem
  | cons entry rest ih =>
      obtain ⟨k, old⟩ := entry
      obtain ⟨hless, hrest⟩ := sorted_cons.mp h
      rcases List.mem_cons.mp hmem with heq | hmem
      · obtain ⟨rfl, rfl⟩ := Prod.mk.inj heq
        simp [find?]
      · have hne : k ≠ key := fun heq => String.lt_irrefl key (heq ▸ hless _ hmem)
        rw [find?, if_neg hne, ih hrest hmem]

/-- To insert what is there changes nothing. -/
theorem Sorted.insert_of_find? {t : Table α} (h : t.Sorted) {key : String} {value : α}
    (hfind : t.find? key = some value) : t.insert key value = t := by
  induction t with
  | nil => cases hfind
  | cons entry rest ih =>
      obtain ⟨k, old⟩ := entry
      obtain ⟨hless, hrest⟩ := sorted_cons.mp h
      rw [find?] at hfind
      rw [Table.insert]
      split
      next heq =>
        rw [if_pos heq] at hfind
        cases hfind
        rw [heq]
      next hne =>
        rw [if_neg hne] at hfind
        have hlt : k < key := hless _ (mem_of_find? hfind)
        rw [if_neg fun hlt' => String.lt_irrefl k (String.lt_trans hlt hlt'), ih hrest hfind]

/-- The entries of a table in order that have a property. -/
theorem Sorted.find?_filter {t : Table α} (h : t.Sorted) (p : α → Bool) (key : String) :
    find? (t.filter fun entry => p entry.2) key = (t.find? key).filter p := by
  induction t with
  | nil => rfl
  | cons entry rest ih =>
      obtain ⟨k, value⟩ := entry
      obtain ⟨hless, hrest⟩ := sorted_cons.mp h
      rw [List.filter_cons]
      by_cases heq : k = key
      · subst heq
        cases hp : p value with
        | true => simp [find?, Option.filter, hp]
        | false =>
            -- There is no other entry of the key behind it.
            rw [if_neg (by simp), ih hrest, find?_of_lt hless]
            simp [find?, Option.filter, hp]
      · cases p value with
        | true => simpa [find?, heq] using ih hrest
        | false => simpa [find?, heq] using ih hrest

/-! ## Tables as lists of entries -/

variable {t : Table α} {key : String} {value : α}

theorem erase_cons (entry : String × α) (rest : Table α) (key : String) :
    erase (entry :: rest) key =
      if entry.1 = key then rest.erase key else entry :: rest.erase key := by
  by_cases h : entry.1 = key
  · rw [if_pos h, Table.erase, List.filter_cons_of_neg (by simpa using h), ← Table.erase]
  · rw [if_neg h, Table.erase, List.filter_cons_of_pos (by simpa using h), ← Table.erase]

theorem erase_of_find?_none (h : t.find? key = none) : t.erase key = t := by
  induction t with
  | nil => rfl
  | cons entry rest ih =>
      rw [find?] at h
      split at h
      · cases h
      next hne => rw [erase_cons, if_neg hne, ih h]

theorem erase_insert (t : Table α) (key : String) (value : α) :
    (t.insert key value).erase key = t.erase key := by
  induction t with
  | nil => simp [Table.insert, erase_cons]
  | cons entry rest ih =>
      obtain ⟨k, old⟩ := entry
      rw [Table.insert]
      split
      next heq => rw [erase_cons, erase_cons, if_pos rfl, if_pos heq]
      next hne =>
        split
        · rw [erase_cons, if_pos rfl]
        · rw [erase_cons, erase_cons, if_neg hne, if_neg hne, ih]

/-- What is inserted later takes the place of what was inserted. -/
theorem insert_insert (t : Table α) (key : String) (value last : α) :
    (t.insert key value).insert key last = t.insert key last := by
  induction t with
  | nil => simp [Table.insert]
  | cons entry rest ih =>
      obtain ⟨k, old⟩ := entry
      by_cases heq : k = key
      · simp [Table.insert, heq]
      · by_cases hlt : key < k
        · simp [Table.insert, heq, hlt]
        · simp [Table.insert, heq, hlt, ih]

/-- A new key stands once. -/
theorem filter_insert_of_find?_none (h : t.find? key = none) (value : α) :
    (t.insert key value).filter (fun entry => entry.1 == key) = [(key, value)] := by
  induction t with
  | nil => simp [Table.insert]
  | cons entry rest ih =>
      obtain ⟨k, old⟩ := entry
      rw [find?] at h
      split at h
      · cases h
      next hne =>
        have hnone : rest.filter (fun entry => entry.1 == key) = [] := by
          rw [← erase_of_find?_none h, Table.erase, List.filter_filter, List.filter_eq_nil_iff]
          simp
        rw [Table.insert, if_neg hne]
        split
        · simp [hne, hnone]
        · rw [List.filter_cons_of_neg (by simpa using hne), ih h]

/-- In a table in order an entry stands once, besides those of other keys. -/
theorem perm_of_mem (h : t.Sorted) (hmem : (key, value) ∈ t) :
    t.Perm ((key, value) :: t.erase key) := by
  induction t with
  | nil => cases hmem
  | cons entry rest ih =>
      obtain ⟨hless, hrest⟩ := sorted_cons.mp h
      rw [erase_cons]
      rcases List.mem_cons.mp hmem with rfl | hmem
      · rw [if_pos rfl, erase_of_find?_none (find?_of_lt hless)]
      · have hlt : entry.1 < key := hless _ hmem
        have hne : entry.1 ≠ key := fun heq => String.lt_irrefl key (heq ▸ hlt)
        rw [if_neg hne]
        exact ((ih hrest hmem).cons entry).trans (.swap _ _ _)

theorem perm_insert (h : t.Sorted) (key : String) (value : α) :
    (t.insert key value).Perm ((key, value) :: t.erase key) := by
  have hmem := mem_of_find? (find?_insert_self t key value)
  exact erase_insert t key value ▸ perm_of_mem (h.insert key value) hmem

end EditorHost.Table
