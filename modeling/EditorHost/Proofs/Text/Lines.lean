import EditorHost.Document

/-!
# Lines and their terminators

A text is laid out in lines in one way only: a line feed ends a line and stands in none, a carriage
return before it belongs to the terminator, and there is no empty line behind the last terminator
(`Text.laidOut_iff`).

These are the lines that a document returns, one for every number below its count
(`Document.lineAt?_laidOut`).  The empty document is the exception: it counts one line, and returns
none.
-/

namespace EditorHost

namespace Text

variable {cs rest body : List Char} {s : Segment} {pieces : List Segment}

/-! ## Layouts -/

/-- What a line and its terminator are. -/
structure Segment.IsLine (s : Segment) : Prop where
  noFeed : '\n' ∉ s.body
  /-- A carriage return before a line feed belongs to the terminator. -/
  noReturn : s.ending = .lineFeed → s.body.getLast? ≠ some '\r'
  /-- No empty line stands behind the last terminator. -/
  filled : s.ending = .none → s.body ≠ []

/-- A text laid out in lines; a line before another one has a terminator. -/
structure LaidOut (cs : List Char) (pieces : List Segment) : Prop where
  whole : pieces.flatMap (fun s => s.body ++ s.ending.chars) = cs
  lines : ∀ s ∈ pieces, s.IsLine
  ended : pieces.Pairwise fun s _ => s.ending ≠ .none

theorem segments_eq_nil : segments cs = [] ↔ cs = [] := by
  constructor
  · intro h
    have hjoin := segments_join cs
    rw [h] at hjoin
    exact hjoin.symm
  · rintro rfl
    rfl

/-! ## A text has a layout -/

theorem Segment.IsLine.cons {c : Char} (h : s.IsLine) (hfeed : c ≠ '\n')
    (hreturn : s.body = [] → s.ending = .lineFeed → c ≠ '\r') :
    Segment.IsLine { s with body := c :: s.body } where
  noFeed := by
    simp only [List.mem_cons, not_or]
    exact ⟨hfeed.symm, h.noFeed⟩
  noReturn hending := by
    cases hbody : s.body with
    | nil => simpa using hreturn hbody hending
    | cons next body =>
        have hlast := h.noReturn hending
        rw [hbody] at hlast
        rwa [List.getLast?_cons_cons]
  filled _ := List.cons_ne_nil _ _

/-- Where the first line is empty, the text begins with a terminator. -/
theorem head?_of_segments (h : segments cs = s :: pieces) (hbody : s.body = [])
    (hending : s.ending = .lineFeed) : cs.head? = some '\n' := by
  rw [← segments_join cs, h, List.flatMap_cons, hbody, hending]
  rfl

/-- An empty line has a terminator. -/
theorem Segment.isLine_nil {ending : Ending} (h : ending ≠ .none) :
    Segment.IsLine ⟨[], ending⟩ where
  noFeed := List.not_mem_nil
  noReturn _ := by simp
  filled hnone := absurd hnone h

theorem isLine_of_mem_segments (cs : List Char) : ∀ s ∈ segments cs, s.IsLine := by
  fun_induction segments cs with
  | case1 => simp
  | case2 rest ih => exact List.forall_mem_cons.mpr ⟨Segment.isLine_nil (by simp), ih⟩
  | case3 rest ih => exact List.forall_mem_cons.mpr ⟨Segment.isLine_nil (by simp), ih⟩
  | case4 c rest hfeed _ _ _ =>
      have hc : '\n' ≠ c := fun h => hfeed h.symm
      refine List.forall_mem_singleton.mpr ⟨?_, ?_, ?_⟩
      · simpa using hc
      · simp
      · simp
  | case5 c rest hfeed hreturn first more hmore ih =>
      rw [hmore] at ih
      obtain ⟨hfirst, hothers⟩ := List.forall_mem_cons.mp ih
      refine List.forall_mem_cons.mpr ⟨hfirst.cons hfeed fun hbody hending hc => ?_, hothers⟩
      obtain ⟨behind, hrest⟩ := List.head?_eq_some_iff.mp (head?_of_segments hmore hbody hending)
      exact hreturn behind hc hrest

theorem pairwise_segments (cs : List Char) :
    (segments cs).Pairwise fun s _ => s.ending ≠ .none := by
  fun_induction segments cs with
  | case1 => exact .nil
  | case2 rest ih => exact List.pairwise_cons.mpr ⟨by simp, ih⟩
  | case3 rest ih => exact List.pairwise_cons.mpr ⟨by simp, ih⟩
  | case4 c rest _ _ _ _ => exact List.pairwise_singleton _ _
  | case5 c rest _ _ first more hmore ih =>
      rw [hmore] at ih
      obtain ⟨hfirst, hothers⟩ := List.pairwise_cons.mp ih
      exact List.pairwise_cons.mpr ⟨hfirst, hothers⟩

theorem laidOut_segments (cs : List Char) : LaidOut cs (segments cs) :=
  ⟨segments_join cs, isLine_of_mem_segments cs, pairwise_segments cs⟩

/-! ## It has no other -/

/-- A character that is not taken for a terminator belongs to the line behind it. -/
theorem segments_cons {c : Char} (hfeed : c ≠ '\n') (hreturn : c = '\r' → rest.head? ≠ some '\n')
    (h : segments rest = s :: pieces) :
    segments (c :: rest) = { s with body := c :: s.body } :: pieces := by
  rw [segments.eq_4, h]
  · rintro rfl
    exact hfeed rfl
  · rintro behind rfl rfl
    exact hreturn rfl rfl

/-- A text without a line feed is one line. -/
theorem segments_of_not_mem (hne : body ≠ []) (hfeed : '\n' ∉ body) :
    segments body = [⟨body, .none⟩] := by
  induction body with
  | nil => exact absurd rfl hne
  | cons c body ih =>
      obtain ⟨hc, hbody⟩ := not_or.mp (mt List.mem_cons.mpr hfeed)
      cases body with
      | nil =>
          rw [segments.eq_4]
          · rfl
          · rintro rfl
            exact hc rfl
          · simp
      | cons next body =>
          refine segments_cons (Ne.symm hc) (fun _ hnext => ?_) (ih (List.cons_ne_nil _ _) hbody)
          exact hbody (List.mem_of_mem_head? hnext)

/-- A line is cut off with its terminator. -/
theorem segments_append (h : s.IsLine) (hending : s.ending ≠ .none) (rest : List Char) :
    segments (s.body ++ s.ending.chars ++ rest) = s :: segments rest := by
  obtain ⟨body, ending⟩ := s
  induction body with
  | nil =>
      cases ending with
      | none => exact absurd rfl hending
      | lineFeed => rfl
      | carriageReturnLineFeed => rfl
  | cons c body ih =>
      obtain ⟨hc, hbody⟩ := not_or.mp (mt List.mem_cons.mpr h.noFeed)
      have hline : Segment.IsLine ⟨body, ending⟩ := by
        refine ⟨hbody, fun hfeed hlast => ?_, fun hnone => absurd hnone hending⟩
        obtain ⟨front, rfl⟩ := List.getLast?_eq_some_iff.mp hlast
        exact h.noReturn hfeed (List.getLast?_eq_some_iff.mpr ⟨c :: front, rfl⟩)
      refine segments_cons (Ne.symm hc) (fun hreturn hnext => ?_) (ih hline hending)
      -- Only a terminator could begin with a line feed here, and the return would belong to it.
      cases body with
      | nil =>
          cases ending with
          | none => exact hending rfl
          | lineFeed => exact h.noReturn rfl (congrArg some hreturn)
          | carriageReturnLineFeed => cases hnext
      | cons next body =>
          obtain rfl := Option.some.inj hnext
          exact hbody List.mem_cons_self

theorem LaidOut.eq_segments (h : LaidOut cs pieces) : pieces = segments cs := by
  obtain ⟨hwhole, hlines, hended⟩ := h
  induction pieces generalizing cs with
  | nil =>
      obtain rfl := hwhole
      rfl
  | cons s more ih =>
      obtain ⟨hs, hlines⟩ := List.forall_mem_cons.mp hlines
      obtain ⟨hended, hothers⟩ := List.pairwise_cons.mp hended
      rw [List.flatMap_cons] at hwhole
      obtain rfl := hwhole
      by_cases hending : s.ending = .none
      · obtain rfl : more = [] := List.eq_nil_iff_forall_not_mem.mpr fun other hother =>
          hended other hother hending
        obtain ⟨body, ending⟩ := s
        obtain rfl := hending
        have hcut := segments_of_not_mem (hs.filled rfl) hs.noFeed
        simpa [Ending.chars] using hcut.symm
      · rw [segments_append hs hending, ← ih rfl hlines hothers]

/-- There is one layout of a text. -/
theorem laidOut_iff : LaidOut cs pieces ↔ pieces = segments cs := by
  constructor
  · exact LaidOut.eq_segments
  · rintro rfl
    exact laidOut_segments cs

end Text

/-! ## Documents -/

namespace Document

theorem lineAt?_eq (d : Document) (i : Nat) :
    d.lineAt? i = (Text.segments d.text.toList)[i]?.map fun s => String.ofList s.body :=
  List.getElem?_map ..

theorem isSome_lineAt? (d : Document) (i : Nat) :
    (d.lineAt? i).isSome = true ↔ i < d.lineCount ∧ d.text ≠ "" := by
  have hempty : Text.segments d.text.toList = [] ↔ d.text = "" := by
    rw [Text.segments_eq_nil, String.toList_eq_nil_iff]
  have hlength : d.lineCount = max (Text.segments d.text.toList).length 1 := by
    rw [lineCount, Text.lines, List.length_map]
  rw [lineAt?_eq, Option.isSome_map, isSome_getElem?, hlength, ne_eq, ← hempty,
    ← List.length_eq_zero_iff]
  omega

/-- The lines of a document, each followed by its own terminator, make up its text; there is one for
every number below the count, unless the document is empty. -/
theorem lineAt?_laidOut (d : Document) :
    (∀ i, (d.lineAt? i).isSome = true ↔ i < d.lineCount ∧ d.text ≠ "") ∧
      (∀ i line, d.lineAt? i = some line → '\n' ∉ line.toList) ∧
      ∃ pieces, (∀ others, Text.LaidOut d.text.toList others ↔ others = pieces) ∧
        ∀ i, d.lineAt? i = (pieces[i]?).map fun s => String.ofList s.body := by
  refine ⟨isSome_lineAt? d, fun i line hline => ?_, _, fun _ => Text.laidOut_iff, lineAt?_eq d⟩
  rw [lineAt?_eq] at hline
  obtain ⟨s, hs, rfl⟩ := Option.map_eq_some_iff.mp hline
  rw [String.toList_ofList]
  exact (Text.isLine_of_mem_segments _ s (List.mem_of_getElem? hs)).noFeed

example : (⟨"file:///a.js", "javascript", 1, "first\r\n\nthird\n"⟩ : Document).lineCount = 3 := by
  decide

/-- The empty document counts a line that it does not return. -/
theorem counts_missing_line :
    0 < (⟨"file:///a.js", "javascript", 1, ""⟩ : Document).lineCount ∧
      (⟨"file:///a.js", "javascript", 1, ""⟩ : Document).lineAt? 0 = none :=
  ⟨by decide, by decide⟩

end Document

end EditorHost
