/-!
# Tables keyed by text

A table is a list of key and value pairs in increasing order of the keys, each key once.  It is the
form of a JSON object and of every store of the library that is looked up by an identifier.  Keys
compare by code point, which is also the order of their UTF-8 bytes.

The operations are defined on any list of pairs, so that they also apply to a list whose order is
not known; `Table.Sorted` is the property that they keep.
-/

namespace EditorHost

/-- Pairs of a key and a value. -/
abbrev Table (α : Type u) := List (String × α)

namespace Table

variable {α : Type u} {β : Type v}

/-- The keys, in order. -/
def keys (t : Table α) : List String := t.map Prod.fst

/-- The values, in the order of their keys. -/
def values (t : Table α) : List α := t.map Prod.snd

/-- Every key is less than the ones after it. -/
def Sorted (t : Table α) : Prop := t.keys.Pairwise (· < ·)

/-- The value of a key. -/
def find? (t : Table α) (key : String) : Option α :=
  match t with
  | [] => none
  | (k, value) :: rest => if k = key then some value else find? rest key

/-- Whether a key has a value. -/
def has (t : Table α) (key : String) : Bool := (t.find? key).isSome

/-- Gives a key a value, in place of any that it had. -/
def insert (t : Table α) (key : String) (value : α) : Table α :=
  match t with
  | [] => [(key, value)]
  | (k, old) :: rest =>
    if k = key then (key, value) :: rest
    else if key < k then (key, value) :: (k, old) :: rest
    else (k, old) :: insert rest key value

/-- Takes a key out. -/
def erase (t : Table α) (key : String) : Table α :=
  t.filter fun entry => entry.1 ≠ key

/-- The table of a list of pairs, the last one of a key winning. -/
def ofList (pairs : List (String × α)) : Table α :=
  pairs.foldl (fun t entry => t.insert entry.1 entry.2) []

/-- Applies a function to every value. -/
def mapValues (t : Table α) (f : α → β) : Table β :=
  t.map fun entry => (entry.1, f entry.2)

/-- Changes the value of a key, if it has one. -/
def adjust (t : Table α) (key : String) (f : α → α) : Table α :=
  t.map fun entry => if entry.1 = key then (entry.1, f entry.2) else entry

@[simp] theorem find?_nil (key : String) : find? ([] : Table α) key = none := rfl

theorem find?_insert_self (t : Table α) (key : String) (value : α) :
    (t.insert key value).find? key = some value := by
  induction t with
  | nil => simp [insert, find?]
  | cons entry rest ih =>
    obtain ⟨k, old⟩ := entry
    by_cases h : k = key
    · simp [insert, find?, h]
    · by_cases hlt : key < k <;> simp [insert, find?, h, hlt, ih]

theorem find?_insert_of_ne (t : Table α) {key other : String} (value : α) (h : other ≠ key) :
    (t.insert key value).find? other = t.find? other := by
  induction t with
  | nil => simp [insert, find?, h.symm]
  | cons entry rest ih =>
    obtain ⟨k, old⟩ := entry
    by_cases hk : k = key
    · subst hk; simp [insert, find?, h.symm]
    · by_cases hlt : key < k
      · simp [insert, find?, hk, hlt, h.symm]
      · simp [insert, find?, hk, hlt, ih]

theorem find?_erase_self (t : Table α) (key : String) : (t.erase key).find? key = none := by
  induction t with
  | nil => rfl
  | cons entry rest ih =>
    obtain ⟨k, old⟩ := entry
    by_cases h : k = key
    · simpa [erase, h] using ih
    · have ih' : find? (List.filter (fun e => decide (e.1 ≠ key)) rest) key = none := ih
      simp [erase, h, find?]
      simpa using ih'

theorem find?_erase_of_ne (t : Table α) {key other : String} (h : other ≠ key) :
    (t.erase key).find? other = t.find? other := by
  induction t with
  | nil => rfl
  | cons entry rest ih =>
    obtain ⟨k, old⟩ := entry
    have ih' : find? (List.filter (fun e => decide (e.1 ≠ key)) rest) other = find? rest other := ih
    by_cases hk : k = key
    · subst hk
      simp [erase, find?, h.symm]
      simpa using ih'
    · simp [erase, find?, hk]
      simp at ih'
      rw [ih']

end Table

end EditorHost
