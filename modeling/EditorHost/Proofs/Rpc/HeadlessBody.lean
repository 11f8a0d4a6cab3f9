import EditorHost.Proofs.Json.Lines
import EditorHost.Proofs.Rpc.NoisyStream

/-!
# A body behind a header without length

A header block that says no length is discarded alone.  When a body stands behind it all the same,
nothing says where that body ends, and it is read as the beginning of the next header.  What comes
of it depends on the line on which the body ends, and on nothing else (`messages_headless`):

* If that line is blank, the header line of the next frame begins behind it as it should, and every
  message is read.
* Otherwise the header line of the next frame says no length any more, because a token of the body
  is before its name.  So that frame is discarded, and its body is in the same place again; it ends
  on a line that is not blank, so that no message is ever read.
-/

namespace EditorHost.Rpc

open Json (TokenFirst beginsToken)

/-! ## Lines that begin with a token -/

theorem isBlank_of_json {c : Char} (h : Json.isBlank c = true) : Text.isBlank c = true := by
  have hcases : ((c = ' ' ∨ c = '\n') ∨ c = '\t') ∨ c = '\r' := by simpa [Json.isBlank] using h
  rcases hcases with ((rfl | rfl) | rfl) | rfl <;> decide

/-- A token begins neither with a blank nor with the first letter of a header name. -/
theorem beginsToken_cases {c : Char} (h : beginsToken c = true) :
    Text.isBlank c = false ∧ c.toLower ≠ 'c' := by
  rcases Bool.or_eq_true_iff.mp h with hmem | hdigit
  · have hall : "{}[],:\"-tfn".toList.all
        (fun c => !Text.isBlank c && decide (c.toLower ≠ 'c')) = true := by decide
    simpa using List.all_eq_true.mp hall c (List.contains_iff_mem.mp hmem)
  · have hbounds := isDigit_bounds hdigit
    refine ⟨by simp [Text.isBlank]; omega, ?_⟩
    have hlower : c.toLower = c := by
      apply dif_neg
      intro hupper
      have hge : 65 ≤ c.toNat := UInt32.le_iff_toNat_le.mp hupper.1
      omega
    rw [hlower]
    rintro rfl
    exact absurd hdigit (by decide)

theorem dropReturns_beginning (line : List Char) : dropReturns line <+: line := by
  refine ⟨(line.reverse.takeWhile (· = '\r')).reverse, ?_⟩
  rw [dropReturns, ← List.reverse_append, List.takeWhile_append_dropWhile, List.reverse_reverse]

theorem blank_of_skipBlanks {cs : List Char} (h : Json.skipBlanks cs = []) :
    ∀ c ∈ cs, Text.isBlank c = true := by
  have hcut : cs.takeWhile Json.isBlank ++ Json.skipBlanks cs = cs :=
    List.takeWhile_append_dropWhile
  rw [h, List.append_nil] at hcut
  rw [← hcut]
  exact fun c hc => isBlank_of_json (List.all_eq_true.mp List.all_takeWhile c hc)

/-- The text that a line begins with is blank, or begins with a token. -/
theorem blank_or_token {name rest : List Char} (h : TokenFirst (name ++ rest)) :
    (∀ c ∈ name, Text.isBlank c = true) ∨ ∃ blanks c more, name = blanks ++ c :: more ∧
      (∀ d ∈ blanks, Text.isBlank d = true) ∧ beginsToken c = true := by
  have hname := h.beginning (List.prefix_append name rest)
  cases hskip : Json.skipBlanks name with
  | nil => exact .inl (blank_of_skipBlanks hskip)
  | cons c more =>
      have hcut : name.takeWhile Json.isBlank ++ Json.skipBlanks name = name :=
        List.takeWhile_append_dropWhile
      rw [hskip] at hcut
      exact .inr ⟨_, c, more, hcut.symm, fun d hd =>
        isBlank_of_json (List.all_eq_true.mp List.all_takeWhile d hd), hname c more hskip⟩

/-- A line that begins with a token is no header line. -/
theorem not_saysLength {line : List Char} (h : TokenFirst line) (value : List Char) :
    ¬ SaysLength line value := by
  rintro ⟨name, rest, hline, -, hname, -⟩
  have hfirst := h.beginning (dropReturns_beginning line)
  rw [hline] at hfirst
  rcases blank_or_token hfirst with hblank | ⟨blanks, c, more, rfl, hblanks, hc⟩
  · have htrim := Text.trim_append hblank []
    rw [List.append_nil] at htrim
    rw [htrim] at hname
    exact absurd hname (by decide)
  · obtain ⟨hnot, hlower⟩ := beginsToken_cases hc
    obtain ⟨tail, htail⟩ := Text.trim_of_not_blank hnot more
    rw [Text.trim_append hblanks, htail] at hname
    exact hlower (List.cons.inj hname).1

/-! ## The line on which octets end -/

/-- The line on which some octets end. -/
def lastLine (octets : List UInt8) : List Char := (headerLines octets).getLastD []

/-- Every line begins with a token, if it is not blank. -/
def TidyLines (octets : List UInt8) : Prop := ∀ line ∈ headerLines octets, TokenFirst line

theorem headerLines_append_text (octets : List UInt8) {text : List Char}
    (hascii : ∀ c ∈ text, c.toNat < 0x80) (hline : '\n' ∉ text) :
    headerLines (octets ++ Utf8.encode (String.ofList text)) =
      (headerLines octets).dropLast ++ [lastLine octets ++ text] := by
  rw [headerLines, Utf8.decodeLossy_append_ascii (by simpa using hascii), String.toList_ofList,
    Text.split_append_of_not_mem hline]
  rfl

theorem headerLines_eq (octets : List UInt8) :
    headerLines octets = (headerLines octets).dropLast ++ [lastLine octets] := by
  have hnone : ∀ c ∈ ([] : List Char), c.toNat < 0x80 := by simp
  simpa [Utf8.encode] using headerLines_append_text octets hnone (by simp)

theorem lastLine_newline (first second : List UInt8) :
    lastLine (first ++ 10 :: second) = lastLine second := by
  rw [lastLine, headerLines_newline, headerLines_eq second, ← List.append_assoc,
    List.getLastD_concat]

/-- The lines of a header are lines of the octets, less the carriage return at their end. -/
theorem TidyLines.header {header behind : List UInt8}
    (h : TidyLines (header ++ emptyLine ++ behind)) : TidyLines header ∧ TidyLines behind := by
  have hreturn : [13] = Utf8.encode (String.ofList ['\r']) := by decide
  have hsplit : header ++ emptyLine ++ behind =
      (header ++ [13]) ++ 10 :: ([13] ++ 10 :: behind) := by simp [emptyLine]
  rw [TidyLines, hsplit, headerLines_newline, headerLines_newline] at h
  refine ⟨fun line hline => ?_, fun line hline => h line (by simp [hline])⟩
  rw [headerLines_eq, List.mem_append, List.mem_singleton] at hline
  have hascii : ∀ c ∈ ['\r'], c.toNat < 0x80 := List.forall_mem_singleton.mpr (by decide)
  rw [hreturn, headerLines_append_text header hascii (by simp)] at h
  rcases hline with hline | rfl
  · exact h line (by simp [hline])
  · exact (h (lastLine header ++ ['\r']) (by simp)).beginning (List.prefix_append _ _)

theorem lastLine_behind (header behind : List UInt8) :
    lastLine (header ++ emptyLine ++ behind) = lastLine behind := by
  have hsplit : header ++ emptyLine ++ behind = (header ++ [13, 10, 13]) ++ 10 :: behind := by
    simp [emptyLine]
  rw [hsplit, lastLine_newline]

/-- A header of tidy lines says no length. -/
theorem hasNoLength_of_tidyLines {header : List UInt8} (h : TidyLines header) :
    HasNoLength header := .inl fun line hline => not_saysLength (h line hline)

theorem tidyLines_of_readBody? {body : List UInt8} {m : Json} (h : readBody? body = some m) :
    TidyLines body := by
  obtain ⟨text, hdecode, hparse⟩ := Option.bind_eq_some_iff.mp h
  have htidy := Json.beginsTidily_of_parse? hparse
  intro line hline
  rw [headerLines, Utf8.decodeLossy_of_decode? hdecode] at hline
  exact Json.tokenFirst_of_mem_split htidy.first htidy.lines line hline

/-- The text of a message is one line, and that is not blank. -/
theorem lastLine_compact {m : Json} (h : readBody? (Utf8.encode m.compact) = some m) :
    (lastLine (Utf8.encode m.compact)).all Text.isBlank = false := by
  obtain ⟨text, hdecode, hparse⟩ := Option.bind_eq_some_iff.mp h
  have htext : text = m.compact := by
    rw [← Utf8.decodeLossy_of_decode? hdecode, Utf8.decodeLossy_encode]
  obtain ⟨c, rest, hskip, hc, -⟩ := Json.beginsTidily_of_parse? hparse
  have hline : headerLines (Utf8.encode m.compact) = [m.compact.toList] := by
    rw [headerLines, Utf8.decodeLossy_encode]
    refine Text.split_of_not_mem ?_
    rw [Json.compact, String.toList_ofList]
    exact (Json.printable_compactChars m).newline
  have hmem : c ∈ m.compact.toList := by
    rw [← htext]
    refine (List.dropWhile_suffix Json.isBlank).subset ?_
    rw [show text.toList.dropWhile Json.isBlank = c :: rest from hskip]
    exact List.mem_cons_self
  rw [lastLine, hline, Bool.eq_false_iff]
  intro hblank
  have hc' := List.all_eq_true.mp hblank c hmem
  rw [(beginsToken_cases hc).1] at hc'
  cases hc'

/-! ## Frames behind a body -/

theorem dropReturns_append {first second : List Char} (hne : second ≠ []) (h : '\r' ∉ second) :
    dropReturns (first ++ second) = first ++ second := by
  have hreverse : ∀ c ∈ second.reverse, decide (c = '\r') = false := by
    intro c hc
    refine decide_eq_false ?_
    rintro rfl
    exact h (List.mem_reverse.mp hc)
  rw [dropReturns, List.reverse_append, List.dropWhile_append, Text.dropWhile_of_forall hreverse,
    if_neg (by simp [hne]), ← List.reverse_append, List.reverse_reverse]

theorem not_mem_lengthLine {n : Nat} {c : Char} (h : c.toNat < 32) : c ∉ lengthLine n :=
  fun hmem => absurd (lengthLine_bounds hmem).1 (Nat.not_le.mpr h)

/-- Blanks before a header line do no harm. -/
theorem lengthValue?_blank {blanks : List Char} (h : ∀ c ∈ blanks, Text.isBlank c = true)
    (n : Nat) : lengthValue? (blanks ++ lengthLine n) = lengthValue? (lengthLine n) := by
  obtain ⟨name, rest, hline, hcolon, hname, hvalue⟩ :=
    lengthValue?_iff.mp (lengthValue?_lengthLine n)
  have hreturn : '\r' ∉ lengthLine n := not_mem_lengthLine (by decide)
  have hne : lengthLine n ≠ [] := List.append_ne_nil_of_right_ne_nil _ (by simp)
  rw [dropReturns_of_not_mem hreturn] at hline
  rw [lengthValue?_lengthLine]
  refine lengthValue?_iff.mpr ⟨blanks ++ name, rest, ?_, ?_, ?_, hvalue⟩
  · rw [dropReturns_append hne hreturn, hline, List.append_assoc]
  · intro hmem
    rcases List.mem_append.mp hmem with hmem | hmem
    · exact absurd (h _ hmem) (by decide)
    · exact hcolon hmem
  · rwa [Text.trim_append h]

theorem headerLines_lengthOctets_append (octets : List UInt8) (n : Nat) :
    headerLines (octets ++ lengthOctets n) =
      (headerLines octets).dropLast ++ [lastLine octets ++ lengthLine n] :=
  headerLines_append_text octets (fun _ hc => (lengthLine_bounds hc).2)
    (not_mem_lengthLine (by decide))

section Frames

variable {octets body : List UInt8} {n : Nat} (htidy : TidyLines octets)

include htidy

/-- Behind a blank line the header line of a frame says the length of its body. -/
theorem lengthOfHeader_blank (hblank : (lastLine octets).all Text.isBlank = true)
    (h : n ≤ maxBody) : lengthOfHeader (octets ++ lengthOctets n) = .ok n := by
  have hlines : ∀ line ∈ (headerLines octets).dropLast, ∀ value, ¬ SaysLength line value :=
    fun line hline => not_saysLength (htidy line (List.dropLast_subset _ hline))
  have hlength : lengthOfLines none (headerLines (octets ++ lengthOctets n)) = .ok (some n) := by
    rw [headerLines_lengthOctets_append, lengthOfLines_append hlines, lengthOfLines,
      lengthValue?_blank (List.all_eq_true.mp hblank), lengthValue?_lengthLine]
    simp only [readLength_toDigits h]
    rfl
  rw [headerLines] at hlength
  simp only [lengthOfHeader, hlength]

/-- Behind a token the header line of a frame is no header line any more. -/
theorem tidyLines_lengthOctets (htoken : (lastLine octets).all Text.isBlank = false) :
    TidyLines (octets ++ lengthOctets n) := by
  intro line hline
  rw [headerLines_lengthOctets_append, List.mem_append, List.mem_singleton] at hline
  have hlast : lastLine octets ∈ headerLines octets := by
    rw [headerLines_eq]
    simp
  rcases hline with hline | rfl
  · exact htidy line (List.dropLast_subset _ hline)
  · refine (htidy _ hlast).append (fun hskip => ?_) _
    rw [List.all_eq_true.mpr (blank_of_skipBlanks hskip)] at htoken
    cases htoken

end Frames

/-! ## Reading on -/

theorem not_infix_of_splitHeader {octets : List UInt8} (h : splitHeader octets = none) :
    ¬ emptyLine <:+: octets := by
  induction octets using splitHeader.induct with
  | case1 rest => cases h
  | case2 octet rest hother ih =>
      rw [splitHeader, Option.map_eq_none_iff] at h
      · intro hinfix
        rcases List.infix_cons_iff.mp hinfix with ⟨after, hafter⟩ | hinfix
        · cases hafter
          exact hother after rfl rfl
        · exact ih h hinfix
      · exact hother
  | case3 => decide

theorem messages_warning (w : FrameWarning) (items : List Item) :
    messages (.warning w :: items) = messages items := rfl

theorem messages_message (m : Json) (items : List Item) :
    messages (.message m :: items) = m :: messages items := rfl

/-- The headers in tidy octets are discarded one by one. -/
theorem messages_skip {octets : List UInt8} (htidy : TidyLines octets) : ∃ left,
    splitHeader left = none ∧ TidyLines left ∧ lastLine left = lastLine octets ∧
      ∀ more, messages (read (octets ++ more)).1 = messages (read (left ++ more)).1 := by
  induction hlength : octets.length using Nat.strongRecOn generalizing octets with
  | ind length ih =>
      cases hsplit : splitHeader octets with
      | none => exact ⟨octets, hsplit, htidy, rfl, fun _ => rfl⟩
      | some parts =>
          obtain ⟨header, behind⟩ := parts
          obtain ⟨rfl, -⟩ := splitHeader_iff.mp hsplit
          obtain ⟨hheader, hbehind⟩ := htidy.header
          obtain ⟨w, hw⟩ := lengthOfHeader_bad (hasNoLength_of_tidyLines hheader)
          have hless : behind.length < length := by
            rw [← hlength]
            simp [emptyLine]
            omega
          obtain ⟨left, hopen, hleft, hlast, hmessages⟩ := ih _ hless hbehind rfl
          refine ⟨left, hopen, hleft, hlast.trans (lastLine_behind header behind).symm, ?_⟩
          intro more
          have hnext : (next (header ++ emptyLine ++ behind ++ more)).item? =
              some (.warning w, behind ++ more) := by
            rw [item?_next, splitHeader_append hsplit]
            simp [itemBehind, hw]
          rw [read_of_some hnext, messages_warning, hmessages]

/-- Messages whose frames can be read. -/
def Framed (ms : List Json) : Prop := ∀ m ∈ ms,
  (Utf8.encode m.compact).length ≤ maxBody ∧ readBody? (Utf8.encode m.compact) = some m

theorem tidyLines_nil : TidyLines [] := by
  intro line hline
  have hnil : line = [] := by
    simpa [headerLines, Utf8.decodeLossy, Utf8.decode, Utf8.decodeFrom, Text.split] using hline
  subst hnil
  exact fun c rest h => by cases h

/-- Behind octets of tidy lines either all messages are read or none, as their last line says. -/
theorem messages_behind {octets : List UInt8} (htidy : TidyLines octets) {ms : List Json}
    (hms : Framed ms) : messages (read (octets ++ ms.flatMap encode)).1 =
      if (lastLine octets).all Text.isBlank then ms else [] := by
  -- By the messages: what is read behind a frame that was discarded are its body and the rest.
  induction ms generalizing octets with
  | nil =>
      obtain ⟨left, hopen, -, -, hmessages⟩ := messages_skip htidy
      have hnone : (next left).item? = none := by
        rw [item?_next, hopen]
        rfl
      rw [hmessages, List.flatMap_nil, List.append_nil, read_of_none hnone, ite_self]
      rfl
  | cons m ms ih =>
      obtain ⟨left, hopen, hleft, hlast, hmessages⟩ := messages_skip htidy
      obtain ⟨⟨hsize, hread⟩, hms⟩ := List.forall_mem_cons.mp hms
      have hsplit := splitHeader_frame (not_infix_of_splitHeader hopen)
        (Utf8.encode m.compact) (ms.flatMap encode)
      rw [hmessages, List.flatMap_cons, ← List.append_assoc, ← hlast]
      cases hblank : (lastLine left).all Text.isBlank with
      | true =>
          have hnext : (next (left ++ encode m ++ ms.flatMap encode)).item? =
              some (.message m, ms.flatMap encode) := by
            rw [item?_next, encode, hsplit, Option.bind_some]
            simp [itemBehind, lengthOfHeader_blank hleft hblank hsize, bodyItem, hread]
          have hrest := ih tidyLines_nil hms
          rw [List.nil_append, if_pos (by decide)] at hrest
          rw [read_of_some hnext, if_pos rfl, messages_message, hrest]
      | false =>
          have hheader := tidyLines_lengthOctets (n := (Utf8.encode m.compact).length) hleft hblank
          obtain ⟨w, hw⟩ := lengthOfHeader_bad (hasNoLength_of_tidyLines hheader)
          have hnext : (next (left ++ encode m ++ ms.flatMap encode)).item? =
              some (.warning w, Utf8.encode m.compact ++ ms.flatMap encode) := by
            rw [item?_next, encode, hsplit, Option.bind_some]
            simp [itemBehind, hw]
          rw [read_of_some hnext, messages_warning, ih (tidyLines_of_readBody? hread) hms,
            lastLine_compact hread]
          rfl

/-- A body behind a header block without length ends all reading, unless its last line is blank. -/
theorem messages_headless {header body : List UInt8} {m : Json} {ms : List Json}
    (hend : ¬ emptyLine <:+: header ++ [13, 10, 13]) (hlength : HasNoLength header)
    (hbody : readBody? body = some m) (hms : Framed ms) :
    messages (({} : Decoder).feed (header ++ emptyLine ++ body ++ ms.flatMap encode)).1 =
      if (lastLine body).all Text.isBlank then ms else [] := by
  obtain ⟨w, hw⟩ := lengthOfHeader_bad hlength
  have hnext : (next (header ++ emptyLine ++ body ++ ms.flatMap encode)).item? =
      some (.warning w, body ++ ms.flatMap encode) := by
    rw [List.append_assoc _ body, item?_next, splitHeader_iff.mpr ⟨rfl, hend⟩, Option.bind_some]
    simp [itemBehind, hw]
  rw [Decoder.feed_eq, List.nil_append, read_of_some hnext, messages_warning]
  exact messages_behind (tidyLines_of_readBody? hbody) hms

theorem hasNoLength_word : HasNoLength (Utf8.encode "Content-Length: abc") :=
  .inr ⟨"Content-Length: abc".toList, by decide +kernel, "abc".toList,
    lengthValue?_iff.mp (by decide +kernel), isBadLength_iff.mpr ⟨.badLength "abc", rfl⟩⟩

theorem framed_two : Framed [.null, .bool true] := by
  intro m hm
  rcases List.mem_cons.mp hm with rfl | hm
  · decide +kernel
  · rw [List.mem_singleton.mp hm]
    decide +kernel

/-- The same body once without and once with a line end behind it. -/
theorem messages_headless_array :
    messages (({} : Decoder).feed (Utf8.encode "Content-Length: abc" ++ emptyLine ++
      Utf8.encode "[7]" ++ [Json.null, .bool true].flatMap encode)).1 = [] ∧
    messages (({} : Decoder).feed (Utf8.encode "Content-Length: abc" ++ emptyLine ++
      Utf8.encode "[7]\n" ++ [Json.null, .bool true].flatMap encode)).1 = [.null, .bool true] := by
  have hend : ¬ emptyLine <:+: Utf8.encode "Content-Length: abc" ++ [13, 10, 13] := by
    decide +kernel
  constructor
  · exact (messages_headless hend hasNoLength_word (m := .array [.whole 7]) (by decide +kernel)
      framed_two).trans (by decide +kernel)
  · exact (messages_headless hend hasNoLength_word (m := .array [.whole 7]) (by decide +kernel)
      framed_two).trans (by decide +kernel)

/-- It is not so that at most one of the messages behind a discarded header is lost. -/
theorem not_recovered_headless :
    ¬ ∀ (header body : List UInt8) (m : Json) (ms : List Json),
      ¬ emptyLine <:+: header ++ [13, 10, 13] → HasNoLength header → readBody? body = some m →
      Framed ms →
      ms.drop 1 <:+
        messages (({} : Decoder).feed (header ++ emptyLine ++ body ++ ms.flatMap encode)).1 := by
  intro h
  have hlost := h (Utf8.encode "Content-Length: abc") (Utf8.encode "[7]") (.array [.whole 7])
    [.null, .bool true] (by decide +kernel) hasNoLength_word (by decide +kernel) framed_two
  revert hlost
  decide +kernel

end EditorHost.Rpc
