import EditorHost.Proofs.Payload.Edits
import EditorHost.Proofs.Payload.Reading

/-!
# Numbers in answers

Lines, characters and kinds are read as the lowest 32 bits of what is written (`LowBits`).  That is
the number itself as long as it fits, and another one where it does not: a range that ends at line
`2 ^ 32` is read as one that ends at line `0`, before its start (`numbers_changed`).

Where the numbers of a result are written is said by one predicate for each type, from `NumberIn`
and `PositionIn` up to the lists (`ListIn`).  They are about any agreement between a written number and
the one that is read, so that `Numbered` says for one answer and all readers that the numbers agree:
`Numbered Same` if each is the written one, and `Numbered LowBits` for what holds of every answer
(`numbered_lowBits`).
-/

namespace EditorHost.Rpc.Payload

/-- The number that is read is the one that is written. -/
def Same (written : Int) (n : Nat) : Prop := (n : Int) = written

/-- The number that is read is the lowest 32 bits of the one that is written. -/
def LowBits (written : Int) (n : Nat) : Prop := 0 ≤ written ∧ (n : Int) = written % 4294967296

/-- The bits are the number exactly if it fits. -/
theorem LowBits.same_iff {written : Int} {n : Nat} (h : LowBits written n) :
    Same written n ↔ written < 4294967296 := by
  obtain ⟨hsign, hn⟩ := h
  unfold Same
  omega

/-! ## Where numbers are written -/

/-- A field is there and has a property. -/
def At (v : Json) (key : String) (P : Json → Prop) : Prop :=
  ∃ field, v.get? key = some field ∧ P field

/-- The results stand for some of the items, in order. -/
def ListIn {α : Type} (Stands : Json → α → Prop) (items : List Json) (results : List α) : Prop :=
  ∃ kept, kept.Sublist items ∧ List.Forall₂ Stands kept results

section Written

variable (agree : Int → Nat → Prop)

def NumberIn (v : Json) (n : Nat) : Prop := ∃ written, v = .whole written ∧ agree written n

structure PositionIn (v : Json) (p : Position) : Prop where
  line : At v "line" (NumberIn agree · p.line)
  character : At v "character" (NumberIn agree · p.character)

structure RangeIn (v : Json) (r : Range) : Prop where
  start : At v "start" (PositionIn agree · r.start)
  finish : At v "end" (PositionIn agree · r.finish)

/-- The range of a location or of a link; of the two ranges of a link the one to select counts. -/
inductive LocationIn (v : Json) (l : Location) : Prop where
  | location (range : At v "range" (RangeIn agree · l.range))
  | selection (range : At v "targetSelectionRange" (RangeIn agree · l.range))
  | target (plain : v.get? "targetSelectionRange" = none)
      (range : At v "targetRange" (RangeIn agree · l.range))

def EditIn (v : Json) (e : TextEdit) : Prop := At v "range" (RangeIn agree · e.range)

structure ItemIn (v : Json) (c : CompletionItem) : Prop where
  kind : ∀ n ∈ c.kind, At v "kind" (NumberIn agree · n)
  insertTextFormat : ∀ n ∈ c.insertTextFormat, At v "insertTextFormat" (NumberIn agree · n)
  textEdit : ∀ edit ∈ c.textEdit, At v "textEdit" (EditIn agree · edit)

def DiagnosticIn (v : Json) (d : Diagnostic) : Prop := At v "range" (RangeIn agree · d.range)

/-- The items of a list, or a value in the place of one. -/
def listed : Json → List Json
  | .array items => items
  | v => [v]

/-- The items of a list of completions or of an object around it. -/
def completions : Json → List Json
  | .array items => items
  | v => (field? v "items" Json.asArray?).getD []

/-- All numbers that are read from an answer agree with those that are written in it. -/
structure Numbered (v : Json) : Prop where
  position : ∀ p, position? v = some p → PositionIn agree v p
  range : ∀ r, range? v = some r → RangeIn agree v r
  location : ∀ l, location? v = some l → LocationIn agree v l
  locations : ListIn (LocationIn agree) (listed v) (locations v)
  textEdit : ∀ edit, textEdit? v = some edit → EditIn agree v edit
  textEdits : ListIn (EditIn agree) (v.asArray?.getD []) (textEdits v)
  completionItem : ∀ item, completionItem? v = some item → ItemIn agree v item
  completionList : ListIn (ItemIn agree) (completions v) (completionList v).items
  workspaceEdit : ∀ uri edits, (workspaceEdit v).changes.find? uri = some edits →
    ListIn (EditIn agree) (writtenEdits v uri) edits
  diagnostics : ∀ uri diagnostics, publishDiagnostics? v = some (uri, diagnostics) →
    ListIn (DiagnosticIn agree) ((field? v "diagnostics" Json.asArray?).getD []) diagnostics

end Written

/-- A place is not after another one. -/
def NotAfter (line character line' character' : Int) : Prop :=
  line < line' ∨ line = line' ∧ character ≤ character'

/-- A position is written with two numbers. -/
def Writes (v : Json) (line character : Int) : Prop :=
  v.get? "line" = some (.whole line) ∧ v.get? "character" = some (.whole character)

/-! ## Readers tell where they read -/

section Readers

variable {α : Type} {read : Json → Option α} {Stands : Json → α → Prop}

/-- What a reader of a field reads stands in the field. -/
theorem at_of_field? (h : ∀ v x, read v = some x → Stands v x) {v : Json} {key : String} {x : α}
    (hfield : field? v key read = some x) : At v key (Stands · x) := by
  obtain ⟨field, hget, hread⟩ := Option.bind_eq_some_iff.mp hfield
  exact ⟨field, hget, h field x hread⟩

/-- What is read from the items of a list stands in those that are read. -/
theorem listIn_filterMap (h : ∀ v x, read v = some x → Stands v x) (items : List Json) :
    ListIn Stands items (items.filterMap read) := by
  induction items with
  | nil => exact ⟨[], .slnil, .nil⟩
  | cons item rest ih =>
      obtain ⟨kept, hsublist, hstands⟩ := ih
      cases hread : read item with
      | none =>
          rw [List.filterMap_cons_none hread]
          exact ⟨kept, hsublist.cons item, hstands⟩
      | some x =>
          rw [List.filterMap_cons_some hread]
          exact ⟨item :: kept, hsublist.cons_cons item, .cons (h item x hread) hstands⟩

end Readers

theorem numberIn_of_word (v : Json) (n : Nat) (h : word v = some n) : NumberIn LowBits v n := by
  obtain ⟨m, hm, rfl⟩ := Option.map_eq_some_iff.mp h
  cases v with
  | number number =>
      cases number with
      | whole written =>
          obtain ⟨hsign, rfl⟩ : 0 ≤ written ∧ written.toNat = m := by
            simpa [Json.asNat?] using hm
          refine ⟨written, rfl, hsign, ?_⟩
          omega
      | double value => cases hm
  | _ => cases hm

theorem positionIn_of_read (v : Json) (p : Position) (h : position? v = some p) :
    PositionIn LowBits v p := by
  simp only [position?, Option.bind_eq_bind, Option.bind_eq_some_iff, Option.pure_def,
    Option.some.injEq] at h
  obtain ⟨line, hline, character, hcharacter, rfl⟩ := h
  exact ⟨at_of_field? numberIn_of_word hline, at_of_field? numberIn_of_word hcharacter⟩

theorem rangeIn_of_read (v : Json) (r : Range) (h : range? v = some r) : RangeIn LowBits v r := by
  simp only [range?, Option.bind_eq_bind, Option.bind_eq_some_iff, Option.pure_def,
    Option.some.injEq] at h
  obtain ⟨start, hstart, finish, hfinish, rfl⟩ := h
  exact ⟨at_of_field? positionIn_of_read hstart, at_of_field? positionIn_of_read hfinish⟩

theorem locationIn_of_location (v : Json) (l : Location) (h : location? v = some l) :
    LocationIn LowBits v l := by
  simp only [location?, Option.bind_eq_bind, Option.bind_eq_some_iff, Option.pure_def,
    Option.some.injEq] at h
  obtain ⟨uri, huri, range, hrange, rfl⟩ := h
  exact .location (at_of_field? rangeIn_of_read hrange)

theorem locationIn_of_link (v : Json) (l : Location) (h : link? v = some l) :
    LocationIn LowBits v l := by
  simp only [link?, Option.bind_eq_bind, Option.bind_eq_some_iff, Option.pure_def,
    Option.some.injEq] at h
  obtain ⟨uri, huri, written, hwritten, range, hrange, rfl⟩ := h
  rcases Option.or_eq_some_iff.mp hwritten with hselection | ⟨hplain, htarget⟩
  · exact .selection ⟨written, hselection, rangeIn_of_read written range hrange⟩
  · exact .target hplain ⟨written, htarget, rangeIn_of_read written range hrange⟩

theorem locationIn_of_read (v : Json) (l : Location) (h : locationOrLink? v = some l) :
    LocationIn LowBits v l := by
  rcases Option.or_eq_some_iff.mp h with hlocation | ⟨-, hlink⟩
  · exact locationIn_of_location v l hlocation
  · exact locationIn_of_link v l hlink

theorem editIn_of_read (v : Json) (edit : TextEdit) (h : textEdit? v = some edit) :
    EditIn LowBits v edit := by
  simp only [textEdit?, Option.bind_eq_bind, Option.bind_eq_some_iff, Option.pure_def,
    Option.some.injEq] at h
  obtain ⟨range, hrange, text, htext, rfl⟩ := h
  exact at_of_field? rangeIn_of_read hrange

theorem itemIn_of_read (v : Json) (item : CompletionItem) (h : completionItem? v = some item) :
    ItemIn LowBits v item := by
  simp only [completionItem?, Option.bind_eq_bind, Option.bind_eq_some_iff, Option.pure_def,
    Option.some.injEq] at h
  obtain ⟨label, hlabel, rfl⟩ := h
  exact ⟨fun n hn => at_of_field? numberIn_of_word hn,
    fun n hn => at_of_field? numberIn_of_word hn,
    fun edit hedit => at_of_field? editIn_of_read hedit⟩

theorem diagnosticIn_of_read (v : Json) (d : Diagnostic) (h : diagnostic? v = some d) :
    DiagnosticIn LowBits v d := by
  simp only [diagnostic?, Option.bind_eq_bind, Option.bind_eq_some_iff, Option.pure_def,
    Option.some.injEq] at h
  obtain ⟨range, hrange, message, hmessage, rfl⟩ := h
  exact at_of_field? rangeIn_of_read hrange

/-! ## All readers -/

theorem listIn_locations (v : Json) :
    ListIn (LocationIn LowBits) (listed v) (locations v) := by
  have hnothing (items : List Json) : ListIn (LocationIn LowBits) items [] :=
    ⟨[], List.nil_sublist items, .nil⟩
  cases v with
  | array items => exact listIn_filterMap locationIn_of_read items
  | object fields =>
      have hone : locations (.object fields) = [Json.object fields].filterMap locationOrLink? := by
        rw [List.filterMap_cons]
        show (locationOrLink? (.object fields)).toList = _
        cases locationOrLink? (.object fields) <;> rfl
      rw [hone]
      exact listIn_filterMap locationIn_of_read [.object fields]
  | _ => exact hnothing _

theorem listIn_completionList (v : Json) :
    ListIn (ItemIn LowBits) (completions v) (completionList v).items := by
  cases v <;> exact listIn_filterMap itemIn_of_read _

theorem numbered_lowBits (v : Json) : Numbered LowBits v where
  position := positionIn_of_read v
  range := rangeIn_of_read v
  location := locationIn_of_location v
  locations := listIn_locations v
  textEdit := editIn_of_read v
  textEdits := listIn_filterMap editIn_of_read _
  completionItem := itemIn_of_read v
  completionList := listIn_completionList v
  workspaceEdit := by
    intro uri edits h
    rw [((find?_workspaceEdit v uri edits).mp h).2]
    exact listIn_filterMap editIn_of_read _
  diagnostics := by
    intro uri diagnostics h
    simp only [publishDiagnostics?, Option.bind_eq_bind, Option.bind_eq_some_iff, Option.pure_def,
      Option.some.injEq, Prod.mk.injEq] at h
    obtain ⟨_, huri, rfl, rfl⟩ := h
    exact listIn_filterMap diagnosticIn_of_read _

/-! ## Ranges in order -/

theorem PositionIn.agree {agree : Int → Nat → Prop} {v : Json} {p : Position}
    (h : PositionIn agree v p) {line character : Int} (hwrites : Writes v line character) :
    agree line p.line ∧ agree character p.character := by
  have hnumber {key : String} {n : Nat} {written : Int} (hin : At v key (NumberIn agree · n))
      (hkey : v.get? key = some (.whole written)) : agree written n := by
    obtain ⟨field, hfield, other, rfl, hagree⟩ := hin
    rw [hkey] at hfield
    obtain rfl : written = other := by
      simpa [Json.whole] using hfield
    exact hagree
  exact ⟨hnumber h.line hwrites.1, hnumber h.character hwrites.2⟩

theorem RangeIn.agree {agree : Int → Nat → Prop} {v : Json} {r : Range} (h : RangeIn agree v r)
    {line character line' character' : Int} (hstart : At v "start" (Writes · line character))
    (hfinish : At v "end" (Writes · line' character')) :
    (agree line r.start.line ∧ agree character r.start.character) ∧
      agree line' r.finish.line ∧ agree character' r.finish.character := by
  obtain ⟨start, hget, hposition⟩ := h.start
  obtain ⟨finish, hget', hposition'⟩ := h.finish
  obtain ⟨start', hsame, hwrites⟩ := hstart
  obtain ⟨finish', hsame', hwrites'⟩ := hfinish
  obtain rfl : start = start' := Option.some.inj (hget.symm.trans hsame)
  obtain rfl : finish = finish' := Option.some.inj (hget'.symm.trans hsame')
  exact ⟨hposition.agree hwrites, hposition'.agree hwrites'⟩

/-- A range of numbers that fit is read in the order in which it is written. -/
theorem notAfter_range? {v : Json} {r : Range} (h : range? v = some r)
    {line character line' character' : Int} (hstart : At v "start" (Writes · line character))
    (hfinish : At v "end" (Writes · line' character'))
    (hfits : ∀ n ∈ [line, character, line', character'], n < 4294967296)
    (hordered : NotAfter line character line' character') :
    NotAfter r.start.line r.start.character r.finish.line r.finish.character := by
  obtain ⟨⟨hline, hcharacter⟩, hline', hcharacter'⟩ :=
    (rangeIn_of_read v r h).agree hstart hfinish
  have hfrom : (r.start.line : Int) = line ∧ (r.start.character : Int) = character :=
    ⟨hline.same_iff.mpr (hfits _ (by simp)), hcharacter.same_iff.mpr (hfits _ (by simp))⟩
  have hto : (r.finish.line : Int) = line' ∧ (r.finish.character : Int) = character' :=
    ⟨hline'.same_iff.mpr (hfits _ (by simp)), hcharacter'.same_iff.mpr (hfits _ (by simp))⟩
  rwa [hfrom.1, hfrom.2, hto.1, hto.2]

/-! ## What holds of every answer -/

/-- Each number that is read is the lowest 32 bits of the number in its place, which is that number
exactly if it fits, and ranges of numbers that fit stay in order. -/
theorem numbers_read (v : Json) :
    Numbered LowBits v ∧
    (∀ written n, LowBits written n → (Same written n ↔ written < 4294967296)) ∧
    (∀ r line character line' character', range? v = some r →
      At v "start" (Writes · line character) → At v "end" (Writes · line' character') →
      (∀ n ∈ [line, character, line', character'], n < 4294967296) →
      NotAfter line character line' character' →
      NotAfter r.start.line r.start.character r.finish.line r.finish.character) :=
  ⟨numbered_lowBits v, fun _ _ => LowBits.same_iff,
    fun _ _ _ _ _ h hstart hfinish => notAfter_range? h hstart hfinish⟩

/-- A range that starts in line 5 and ends at the start of a line. -/
def rangeUpTo (line : Int) : Json :=
  let position (line : Int) : Json := .object [("character", .whole 0), ("line", .whole line)]
  .object [("end", position line), ("start", position 5)]

theorem writes_rangeUpTo (line : Int) :
    At (rangeUpTo line) "start" (Writes · 5 0) ∧ At (rangeUpTo line) "end" (Writes · line 0) :=
  ⟨⟨_, rfl, rfl, rfl⟩, ⟨_, rfl, rfl, rfl⟩⟩

theorem numbers_read_lastLine :
    range? (rangeUpTo 4294967295) = some ⟨⟨5, 0⟩, ⟨4294967295, 0⟩⟩ ∧
    Numbered LowBits (rangeUpTo 4294967295) ∧ LowBits 4294967295 4294967295 ∧
    Same 4294967295 4294967295 ∧ NotAfter 5 0 (4294967295 : Nat) (0 : Nat) := by
  obtain ⟨hnumbered, hsame, hordered⟩ := numbers_read (rangeUpTo 4294967295)
  obtain ⟨hstart, hfinish⟩ := writes_rangeUpTo 4294967295
  have hbits : LowBits 4294967295 4294967295 := by
    unfold LowBits
    decide
  refine ⟨rfl, hnumbered, hbits, (hsame _ _ hbits).mpr (by decide),
    hordered ⟨⟨5, 0⟩, ⟨4294967295, 0⟩⟩ _ _ _ _ rfl hstart hfinish (by decide) ?_⟩
  exact .inl (by decide)

/-- One line on the number of the line is another one: the range is kept, and it ends before it
starts.  As a written range of this library it is rejected. -/
theorem numbers_changed :
    At (rangeUpTo 4294967296) "start" (Writes · 5 0) ∧
    At (rangeUpTo 4294967296) "end" (Writes · 4294967296 0) ∧
    NotAfter 5 0 4294967296 0 ∧
    range? (rangeUpTo 4294967296) = some ⟨⟨5, 0⟩, ⟨0, 0⟩⟩ ∧ ¬ NotAfter 5 0 (0 : Nat) (0 : Nat) ∧
    ¬ Numbered Same (rangeUpTo 4294967296) ∧ Range.read (rangeUpTo 4294967296) = none := by
  have hread : range? (rangeUpTo 4294967296) = some ⟨⟨5, 0⟩, ⟨0, 0⟩⟩ := rfl
  obtain ⟨hstart, hfinish⟩ := writes_rangeUpTo 4294967296
  refine ⟨hstart, hfinish, .inl (by decide), hread, ?_, fun hnumbered => ?_, rfl⟩
  · unfold NotAfter
    decide
  · have hline : Same 4294967296 0 := ((hnumbered.range _ hread).agree hstart hfinish).2.1
    exact absurd hline (by unfold Same; decide)

end EditorHost.Rpc.Payload
