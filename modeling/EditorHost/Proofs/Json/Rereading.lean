import EditorHost.Json.Slots
import EditorHost.Proofs.Json.Lines
import EditorHost.Proofs.Json.Numerals
import EditorHost.Proofs.Table

/-!
# Values in files

A value that is written with indentation can be read (`Json.parse?_indented`): what is read is the
value with each number replaced by the one that its numeral denotes, and nothing if more arrays and
objects are open in it than a reader allows.

## Contents

* `Json.readString_quoted`: a string is read as it was, whatever characters it has.  Those that a
  string cannot hold are escaped.
* `Json.Tree.written` is the tree of a value's text, whatever the value (`Json.readValue_indented`).
* `Json.Survives` says that a value is read as it was, and is spelled out for each kind of value.
-/

namespace EditorHost.Json

/-! ## Strings -/

/-- The four digits of a control character are its code. -/
theorem codeUnit?_hexChar : ∀ n < 0x20,
    codeUnit? '0' '0' (hexChar (n / 16)) (hexChar (n % 16)) = some n := by decide

theorem readString_short {c e : Char} (h : shortEscape? c = some e) (hu : c ≠ 'u')
    (rest : List Char) :
    readString none ('\\' :: c :: rest) = prepend e (readString none rest) := by
  rw [readString.eq_6 _ _ _ (fun _ _ _ _ _ heq => absurd heq hu), h]
  rfl

/-- A character that is written is read. -/
theorem readString_escapeChar (c : Char) (rest : List Char) :
    readString none (escapeChar c ++ rest) = prepend c (readString none rest) := by
  by_cases hshort : c ∈ ['"', '\\', '\n', '\r', '\t', '\x08', '\x0c']
  · simp only [List.mem_cons, List.not_mem_nil, or_false] at hshort
    rcases hshort with rfl | rfl | rfl | rfl | rfl | rfl | rfl <;>
      exact readString_short (by decide) (by decide) rest
  simp only [List.mem_cons, List.not_mem_nil, or_false, not_or] at hshort
  obtain ⟨hquote, hback, hline, hreturn, htab, hbell, hfeed⟩ := hshort
  simp only [escapeChar, if_neg, hquote, hback, hline, hreturn, htab, hbell, hfeed,
    not_false_eq_true]
  by_cases hcontrol : c.toNat < 0x20
  · have hhigh : isHighSurrogate c.toNat = false := by simp [isHighSurrogate]; omega
    have hlow : isLowSurrogate c.toNat = false := by simp [isLowSurrogate]; omega
    simp only [hcontrol, if_true, List.cons_append, List.nil_append]
    rw [readString.eq_5 _ _ _ _ _ _ (codeUnit?_hexChar c.toNat hcontrol)]
    simp [hhigh, hlow]
  · rw [if_neg hcontrol, List.singleton_append,
      readString.eq_7 _ _ _ hquote (fun _ _ _ _ _ h _ => hback h) fun _ _ h _ => hback h]
    simp [hcontrol, hback]

/-- A string that is written is read up to its closing quote. -/
theorem readString_quoted (s : String) (rest : List Char) :
    readString none (s.toList.flatMap escapeChar ++ '"' :: rest) = some (some s.toList, rest) := by
  induction s.toList with
  | nil => rw [List.flatMap_nil, List.nil_append, readString.eq_2]; rfl
  | cons c cs ih =>
      rw [List.flatMap_cons, List.append_assoc, readString_escapeChar, ih]
      rfl

/-! ## Trees -/

mutual
/-- The tree that is read where a value has been written. -/
def Tree.written : Json → Tree
  | .null => .null
  | .bool b => .bool b
  | .number n => .number (rereadNumber? n)
  | .text s => .text (some s)
  | .array items => .array (Tree.writtenItems items)
  | .object fields => .object (Tree.writtenFields fields)

def Tree.writtenItems : List Json → List Tree
  | [] => []
  | v :: rest => Tree.written v :: Tree.writtenItems rest

def Tree.writtenFields : List (String × Json) → List (Option String × Tree)
  | [] => []
  | (k, v) :: rest => (some k, Tree.written v) :: Tree.writtenFields rest
end

/-! ## Blanks -/

section Blanks

variable {cs rest : List Char}

theorem skipBlanks_newline (depth : Nat) (cs : List Char) :
    skipBlanks (newline depth ++ cs) = skipBlanks cs := by
  have hblank : ∀ c ∈ newline depth, isBlank c = true := by
    intro c hc
    rcases List.mem_cons.mp hc with rfl | hc
    · rfl
    · rw [List.eq_of_mem_replicate hc]
      rfl
  rw [skipBlanks, List.dropWhile_append_of_pos hblank]
  rfl

theorem readValue_skipBlanks (fuel : Nat) (cs : List Char) :
    readValue fuel (skipBlanks cs) = readValue fuel cs := by
  cases fuel with
  | zero => rfl
  | succ fuel => rw [readValue, readValue, skipBlanks_skipBlanks]

theorem readItems_skipBlanks (fuel : Nat) (cs : List Char) :
    readItems fuel (skipBlanks cs) = readItems fuel cs := by
  cases fuel with
  | zero => rfl
  | succ fuel => rw [readItems, readItems, readValue_skipBlanks]

theorem readFields_skipBlanks (fuel : Nat) (cs : List Char) :
    readFields fuel (skipBlanks cs) = readFields fuel cs := by
  cases fuel with
  | zero => rfl
  | succ fuel => rw [readFields, readFields, skipBlanks_skipBlanks]

/-- Blanks before a value do no harm. -/
theorem readValue_congr (fuel : Nat) {cs ds : List Char} (h : skipBlanks cs = skipBlanks ds) :
    readValue fuel cs = readValue fuel ds := by
  rw [← readValue_skipBlanks, h, readValue_skipBlanks]

theorem readValue_blank (fuel : Nat) (cs : List Char) :
    readValue fuel (' ' :: cs) = readValue fuel cs :=
  readValue_congr fuel (List.dropWhile_cons_of_pos rfl)

end Blanks

/-! ## Texts -/

theorem endsNumeral_newline (depth : Nat) (cs : List Char) : EndsNumeral (newline depth ++ cs) := by
  intro c hc
  cases hc
  decide

theorem endsNumeral_comma (cs : List Char) : EndsNumeral (',' :: cs) := by
  intro c hc
  cases hc
  decide

/-- A numeral is read as a value. -/
theorem readValue_numberChars (n : Number) {rest : List Char} (hrest : EndsNumeral rest)
    (fuel : Nat) : readValue (fuel + 1) (numberChars n ++ rest) =
      some (.number (rereadNumber? n), rest) := by
  obtain ⟨numeral, hvalue, hread⟩ := exists_readNumeral n
  specialize hread rest hrest
  obtain ⟨c, more, hcons, hc⟩ := beginsToken_readNumeral hread
  have hskip : skipBlanks (c :: more) = c :: more :=
    List.dropWhile_cons_of_neg (by simp [not_isBlank_of_beginsToken hc])
  rw [readValue, hcons, hskip]
  rw [hcons] at hread
  -- no other token begins as a numeral does
  split
  all_goals first
    | rw [hread, ← hvalue]; rfl
    | next heq =>
        rw [heq] at hread
        simp [readNumeral, readDigits] at hread

/-- A value does not begin with what closes a list or an object. -/
theorem exists_skipBlanks_indentedChars (depth : Nat) (v : Json) (rest : List Char) :
    ∃ c more, skipBlanks (indentedChars depth v ++ rest) = c :: more ∧ c ≠ ']' ∧ c ≠ '}' := by
  match v with
  | .null => exact ⟨'n', _, rfl, by decide, by decide⟩
  | .bool true => exact ⟨'t', _, rfl, by decide, by decide⟩
  | .bool false => exact ⟨'f', _, rfl, by decide, by decide⟩
  | .number n =>
      obtain ⟨numeral, -, hread⟩ := exists_readNumeral n
      specialize hread [] nofun
      rw [List.append_nil] at hread
      obtain ⟨c, more, hcons, hc⟩ := beginsToken_readNumeral hread
      refine ⟨c, more ++ rest, ?_, ?_, ?_⟩
      · rw [indentedChars, hcons, List.cons_append]
        exact List.dropWhile_cons_of_neg (by simp [not_isBlank_of_beginsToken hc])
      all_goals
        rintro rfl
        rw [hcons] at hread
        simp [readNumeral, readDigits] at hread
  | .text s => exact ⟨'"', _, rfl, by decide, by decide⟩
  | .array [] => exact ⟨'[', _, rfl, by decide, by decide⟩
  | .array (_ :: _) => exact ⟨'[', _, rfl, by decide, by decide⟩
  | .object [] => exact ⟨'{', _, rfl, by decide, by decide⟩
  | .object (_ :: _) => exact ⟨'{', _, rfl, by decide, by decide⟩

/-- The first item of a list stands on its own line, and is followed by the others. -/
theorem exists_indentedItems (depth : Nat) (v : Json) (items : List Json) : ∃ more,
    indentedItems depth (v :: items) = newline depth ++ (indentedChars depth v ++ more) := by
  cases items with
  | nil => exact ⟨[], by rw [indentedItems, List.append_nil]⟩
  | cons w items => exact ⟨_, by rw [indentedItems, List.append_assoc]; simp⟩

theorem exists_indentedFields (depth : Nat) (k : String) (v : Json)
    (fields : List (String × Json)) :
    ∃ more, indentedFields depth ((k, v) :: fields) = newline depth ++ (quoted k ++ more) := by
  cases fields with
  | nil => exact ⟨_, by rw [indentedFields, List.append_assoc]⟩
  | cons w fields => exact ⟨_, by rw [indentedFields, List.append_assoc, List.append_assoc]; simp⟩

@[simp] theorem length_newline (depth : Nat) : (newline depth).length = 2 * depth + 1 := by
  simp [newline]

/-! ### Steps of the reader -/

section Steps

variable {cs rest after more : List Char} {fuel : Nat} {item : Tree} {items : List Tree}
  {fields : List (Option String × Tree)} {k : String}

theorem readValue_items (h : ∀ after, skipBlanks cs ≠ ']' :: after)
    (hread : readItems fuel cs = some (items, rest)) :
    readValue (fuel + 1) ('[' :: cs) = some (.array items, rest) := by
  have hskip : skipBlanks ('[' :: cs) = '[' :: cs := List.dropWhile_cons_of_neg (by decide)
  rw [← readItems_skipBlanks] at hread
  rw [readValue, hskip]
  simp only [hread, Option.map_some]

theorem readValue_fields (h : ∀ after, skipBlanks cs ≠ '}' :: after)
    (hread : readFields fuel cs = some (fields, rest)) :
    readValue (fuel + 1) ('{' :: cs) = some (.object fields, rest) := by
  have hskip : skipBlanks ('{' :: cs) = '{' :: cs := List.dropWhile_cons_of_neg (by decide)
  rw [← readFields_skipBlanks] at hread
  rw [readValue, hskip]
  simp only [hread, Option.map_some]

theorem readItems_last (hitem : readValue fuel cs = some (item, after))
    (hclose : skipBlanks after = ']' :: rest) :
    readItems (fuel + 1) cs = some ([item], rest) := by
  simp [readItems, hitem, hclose]

theorem readItems_next (hitem : readValue fuel cs = some (item, after))
    (hcomma : skipBlanks after = ',' :: more) (hitems : readItems fuel more = some (items, rest)) :
    readItems (fuel + 1) cs = some (item :: items, rest) := by
  simp [readItems, hitem, hcomma, hitems]

/-- The name of a field, and the colon behind it. -/
theorem skipBlanks_quoted (k : String) (cs : List Char) :
    skipBlanks (quoted k ++ cs) = '"' :: (k.toList.flatMap escapeChar ++ '"' :: cs) := by
  simp [quoted, skipBlanks, isBlank]

theorem readFields_last (hname : skipBlanks cs = skipBlanks (quoted k ++ ':' :: more))
    (hitem : readValue fuel more = some (item, after)) (hclose : skipBlanks after = '}' :: rest) :
    readFields (fuel + 1) cs = some ([(some k, item)], rest) := by
  have hcolon : skipBlanks (':' :: more) = ':' :: more := List.dropWhile_cons_of_neg (by decide)
  rw [skipBlanks_quoted] at hname
  simp [readFields, hname, readString_quoted, hcolon, hitem, hclose, fieldName]

theorem readFields_next (hname : skipBlanks cs = skipBlanks (quoted k ++ ':' :: more))
    (hitem : readValue fuel more = some (item, after)) {following : List Char}
    (hcomma : skipBlanks after = ',' :: following)
    (hfields : readFields fuel following = some (fields, rest)) :
    readFields (fuel + 1) cs = some ((some k, item) :: fields, rest) := by
  have hcolon : skipBlanks (':' :: more) = ':' :: more := List.dropWhile_cons_of_neg (by decide)
  rw [skipBlanks_quoted] at hname
  simp [readFields, hname, readString_quoted, hcolon, hitem, hcomma, hfields, fieldName]

end Steps

/-! ### The indented form -/

mutual
/-- A value that is written is read, with fuel for its characters. -/
theorem readValue_indented : ∀ (v : Json) (depth fuel : Nat) (rest : List Char),
    (indentedChars depth v).length < fuel → EndsNumeral rest →
      readValue fuel (indentedChars depth v ++ rest) = some (Tree.written v, rest)
  | _, _, 0, _, hfuel, _ => absurd hfuel (Nat.not_lt_zero _)
  | .null, _, fuel + 1, rest, _, _ => rfl
  | .bool true, _, fuel + 1, rest, _, _ => rfl
  | .bool false, _, fuel + 1, rest, _, _ => rfl
  | .number n, _, fuel + 1, rest, _, hrest => readValue_numberChars n hrest fuel
  | .text s, _, fuel + 1, rest, _, _ => by
    rw [indentedChars, readValue, skipBlanks_quoted]
    simp only [readString_quoted, Option.map_some, fieldName, String.ofList_toList, Tree.written]
  | .array [], _, fuel + 1, rest, _, _ => rfl
  | .object [], _, fuel + 1, rest, _, _ => rfl
  | .array (v :: items), depth, fuel + 1, rest, hfuel, hrest => by
    have hchars : indentedChars depth (.array (v :: items)) =
        '[' :: (indentedItems (depth + 1) (v :: items) ++ newline depth ++ [']']) :=
      indentedChars.eq_3 _ _ (List.cons_ne_nil _ _)
    rw [hchars] at hfuel ⊢
    simp only [List.length_cons, List.length_append, List.length_nil] at hfuel
    simp only [List.cons_append, List.append_assoc, List.nil_append]
    refine readValue_items (fun after hclose => ?_)
      (readItems_indented (v :: items) depth fuel rest (List.cons_ne_nil _ _) (by omega))
    obtain ⟨more, hmore⟩ := exists_indentedItems (depth + 1) v items
    obtain ⟨c, others, hfirst, hc, -⟩ := exists_skipBlanks_indentedChars (depth + 1) v
      (more ++ (newline depth ++ ']' :: rest))
    rw [hmore, List.append_assoc, List.append_assoc, skipBlanks_newline, hfirst] at hclose
    exact hc (List.cons.inj hclose).1
  | .object ((k, v) :: fields), depth, fuel + 1, rest, hfuel, hrest => by
    have hchars : indentedChars depth (.object ((k, v) :: fields)) =
        '{' :: (indentedFields (depth + 1) ((k, v) :: fields) ++ newline depth ++ ['}']) :=
      indentedChars.eq_4 _ _ (List.cons_ne_nil _ _)
    rw [hchars] at hfuel ⊢
    simp only [List.length_cons, List.length_append, List.length_nil] at hfuel
    simp only [List.cons_append, List.append_assoc, List.nil_append]
    refine readValue_fields (fun after hclose => ?_)
      (readFields_indented ((k, v) :: fields) depth fuel rest (List.cons_ne_nil _ _) (by omega))
    obtain ⟨more, hmore⟩ := exists_indentedFields (depth + 1) k v fields
    rw [hmore, List.append_assoc, List.append_assoc, skipBlanks_newline, skipBlanks_quoted]
      at hclose
    cases hclose

theorem readItems_indented : ∀ (items : List Json) (depth fuel : Nat) (rest : List Char),
    items ≠ [] → (indentedItems (depth + 1) items).length < fuel →
      readItems fuel (indentedItems (depth + 1) items ++ (newline depth ++ ']' :: rest)) =
        some (Tree.writtenItems items, rest)
  | [], _, _, _, hne, _ => absurd rfl hne
  | _, _, 0, _, _, hfuel => absurd hfuel (Nat.not_lt_zero _)
  | [v], depth, fuel + 1, rest, _, hfuel => by
    simp only [indentedItems, List.length_append, length_newline] at hfuel
    have hitem := readValue_indented v (depth + 1) fuel _ (by omega)
      (endsNumeral_newline depth (']' :: rest))
    rw [indentedItems, List.append_assoc]
    exact readItems_last ((readValue_congr _ (skipBlanks_newline _ _)).trans hitem)
      (skipBlanks_newline _ _)
  | v :: w :: items, depth, fuel + 1, rest, _, hfuel => by
    simp only [indentedItems, List.length_append, List.length_cons, length_newline] at hfuel
    have hitem := readValue_indented v (depth + 1) fuel _ (by omega) (endsNumeral_comma
      (indentedItems (depth + 1) (w :: items) ++ (newline depth ++ ']' :: rest)))
    have hitems := readItems_indented (w :: items) depth fuel rest (List.cons_ne_nil _ _) (by omega)
    rw [indentedItems, List.append_assoc, List.append_assoc, List.cons_append]
    · exact readItems_next ((readValue_congr _ (skipBlanks_newline _ _)).trans hitem) rfl hitems
    · exact List.cons_ne_nil _ _

theorem readFields_indented : ∀ (fields : List (String × Json)) (depth fuel : Nat)
    (rest : List Char), fields ≠ [] → (indentedFields (depth + 1) fields).length < fuel →
      readFields fuel (indentedFields (depth + 1) fields ++ (newline depth ++ '}' :: rest)) =
        some (Tree.writtenFields fields, rest)
  | [], _, _, _, hne, _ => absurd rfl hne
  | _, _, 0, _, _, hfuel => absurd hfuel (Nat.not_lt_zero _)
  | [(k, v)], depth, fuel + 1, rest, _, hfuel => by
    simp only [indentedFields, List.length_append, List.length_cons, length_newline] at hfuel
    have hitem := readValue_indented v (depth + 1) fuel _ (by omega)
      (endsNumeral_newline depth ('}' :: rest))
    rw [indentedFields, List.append_assoc, List.append_assoc, List.cons_append, List.cons_append]
    exact readFields_last (skipBlanks_newline _ _) ((readValue_blank _ _).trans hitem)
      (skipBlanks_newline _ _)
  | (k, v) :: w :: fields, depth, fuel + 1, rest, _, hfuel => by
    simp only [indentedFields, List.length_append, List.length_cons, length_newline] at hfuel
    have hitem := readValue_indented v (depth + 1) fuel _ (by omega) (endsNumeral_comma
      (indentedFields (depth + 1) (w :: fields) ++ (newline depth ++ '}' :: rest)))
    have hfields := readFields_indented (w :: fields) depth fuel rest (List.cons_ne_nil _ _)
      (by omega)
    rw [indentedFields, List.append_assoc, List.append_assoc, List.append_assoc, List.cons_append]
    · exact readFields_next (skipBlanks_newline _ _) ((readValue_blank _ _).trans hitem) rfl hfields
    · exact List.cons_ne_nil _ _
end

/-- What is read where a value has been written with indentation. -/
theorem parse?_indented (v : Json) : parse? v.indented = (Tree.written v).value? maxDepth := by
  have hread := readValue_indented v 0 (2 * (indentedChars 0 v).length + 2) [] (by omega) nofun
  rw [List.append_nil] at hread
  rw [parse?, indented, String.toList_ofList, Tree.parse?, hread]
  rfl

/-! ## Values that survive -/

/-- What is written of a value is read as the value, in a place below which so many arrays and
objects may be open. -/
def Survives (depth : Nat) (v : Json) : Prop := (Tree.written v).value? depth = some v

section Survives

variable {depth : Nat}

theorem survives_null : Survives depth .null := rfl

theorem survives_bool (b : Bool) : Survives depth (.bool b) := rfl

theorem survives_text (s : String) : Survives depth (.text s) := rfl

theorem survives_number_iff {n : Number} :
    Survives depth (.number n) ↔ rereadNumber? n = some n := by
  rw [Survives, Tree.written, Tree.value?, Option.map_eq_some_iff]
  simp

theorem survives_whole {z : Int} (hlow : -9223372036854775808 ≤ z) (hhigh : z ≤ maxSignificand) :
    Survives depth (whole z) :=
  survives_number_iff.mpr (rereadNumber?_whole hlow hhigh)

theorem values?_writtenItems_iff {items : List Json} :
    Tree.values? depth (Tree.writtenItems items) = some items ↔ ∀ v ∈ items, Survives depth v := by
  induction items with
  | nil => simp [Tree.writtenItems, Tree.values?]
  | cons v items ih =>
      rw [Tree.writtenItems, Tree.values?, List.forall_mem_cons, ← ih, Survives]
      simp [Option.bind_eq_some_iff]

theorem fieldValues?_writtenFields_iff {fields : List (String × Json)} :
    Tree.fieldValues? depth (Tree.writtenFields fields) = some fields ↔
      ∀ field ∈ fields, Survives depth field.2 := by
  induction fields with
  | nil => simp [Tree.writtenFields, Tree.fieldValues?]
  | cons field fields ih =>
      obtain ⟨k, v⟩ := field
      rw [Tree.writtenFields, Tree.fieldValues?, List.forall_mem_cons, ← ih, Survives]
      simp [Option.bind_eq_some_iff]

theorem survives_array_iff {items : List Json} :
    Survives (depth + 1) (.array items) ↔ ∀ v ∈ items, Survives depth v := by
  rw [Survives, Tree.written, Tree.value?, ← values?_writtenItems_iff]
  simp

/-- The fields of an object are put in order when they are read. -/
theorem Survives.object {fields : List (String × Json)} (hsorted : Table.Sorted fields)
    (h : ∀ field ∈ fields, Survives depth field.2) : Survives (depth + 1) (.object fields) := by
  rw [Survives, Tree.written, Tree.value?, fieldValues?_writtenFields_iff.mpr h, Option.map_some,
    ofFields, hsorted.ofList_eq]

end Survives

/-! ## Lists of texts -/

/-- A list of texts that is written is read back. -/
theorem parse?_ofTexts (texts : List String) :
    parse? (ofTexts texts).indented = some (ofTexts texts) := by
  rw [parse?_indented]
  refine survives_array_iff.mpr fun v hv => ?_
  obtain ⟨s, -, rfl⟩ := List.mem_map.mp hv
  exact survives_text s

end EditorHost.Json
