import EditorHost.Proofs.Rpc.Chunks
import EditorHost.Proofs.Text.Octets

/-!
# Noisy streams

A stream need not hold frames only.  Stray output may stand before a frame, a body may be anything,
and a header block may have no usable length.  `feed_pieces` says that all this does no harm: what
is read from a stream is exactly what was written to it, piece by piece, with a warning for every
piece that holds no message.

The pieces do not disturb each other, because the end of every piece is found from its beginning:
noise belongs to the header behind it (`splitHeader_frame`), and of all lines of such a header only
the last says a length (`Noise.lengthOfHeader_append`).
-/

namespace EditorHost.Rpc

/-! ## Header lines -/

/-- The lines of some octets, as the lines of a header are read. -/
def headerLines (octets : List UInt8) : List (List Char) :=
  Text.split '\n' (Utf8.decodeLossy octets).toList

/-- The line is a header that gives the length of the body by a value. -/
def SaysLength (line value : List Char) : Prop :=
  ∃ name rest, dropReturns line = name ++ ':' :: rest ∧ ':' ∉ name ∧
    (Text.trim name).map Char.toLower = "content-length".toList ∧ Text.trim rest = value

/-- The value is not the length of a body that is accepted. -/
def IsBadLength (value : List Char) : Prop := ∀ n, Text.readNat64? value = some n → maxBody < n

/-- The header says no length at all, or a bad one. -/
def HasNoLength (header : List UInt8) : Prop :=
  (∀ line ∈ headerLines header, ∀ value, ¬ SaysLength line value) ∨
    ∃ line ∈ headerLines header, ∃ value, SaysLength line value ∧ IsBadLength value

theorem lengthValue?_iff {line value : List Char} :
    lengthValue? line = some value ↔ SaysLength line value := by
  simp only [lengthValue?, SaysLength, Option.bind_eq_bind, Option.bind_eq_some_iff]
  constructor
  · rintro ⟨⟨name, rest⟩, hsplit, hvalue⟩
    obtain ⟨hline, hname⟩ := Text.splitOnce_iff.mp hsplit
    split at hvalue
    next hlength => exact ⟨name, rest, hline, hname, hlength, Option.some.inj hvalue⟩
    · cases hvalue
  · rintro ⟨name, rest, hline, hname, hlength, rfl⟩
    exact ⟨(name, rest), Text.splitOnce_iff.mpr ⟨hline, hname⟩, if_pos hlength⟩

theorem lengthValue?_eq_none {line : List Char} (h : ∀ value, ¬ SaysLength line value) :
    lengthValue? line = none := by
  cases hvalue : lengthValue? line with
  | none => rfl
  | some value => exact absurd (lengthValue?_iff.mp hvalue) (h value)

/-- Lines that say no length are ignored. -/
theorem lengthOfLines_append {noise : List (List Char)}
    (h : ∀ line ∈ noise, ∀ value, ¬ SaysLength line value) (found : Option Nat)
    (lines : List (List Char)) :
    lengthOfLines found (noise ++ lines) = lengthOfLines found lines := by
  induction noise with
  | nil => rfl
  | cons line noise ih =>
      rw [List.cons_append, lengthOfLines, lengthValue?_eq_none (h line List.mem_cons_self)]
      exact ih fun other hother => h other (List.mem_cons_of_mem _ hother)

/-- A value is bad exactly when it is refused. -/
theorem isBadLength_iff {value : List Char} :
    IsBadLength value ↔ ∃ w, readLength value = .error w := by
  unfold IsBadLength readLength
  cases hread : Text.readNat64? value with
  | none => simp
  | some n => by_cases hlong : maxBody < n <;> simp [hlong]

/-- A bad length spoils the header. -/
theorem lengthOfLines_bad {lines : List (List Char)} {line value : List Char}
    (hline : line ∈ lines) (hvalue : SaysLength line value) (hbad : IsBadLength value)
    (found : Option Nat) : ∃ w, lengthOfLines found lines = .error w := by
  induction lines generalizing found with
  | nil => cases hline
  | cons first lines ih =>
      rw [lengthOfLines]
      rcases List.mem_cons.mp hline with rfl | hline
      · obtain ⟨w, hw⟩ := isBadLength_iff.mp hbad
        exact ⟨w, by simp only [lengthValue?_iff.mpr hvalue, hw]⟩
      · cases lengthValue? first with
        | none => exact ih hline found
        | some other =>
            dsimp only
            cases readLength other with
            | error w => exact ⟨w, rfl⟩
            | ok n => exact ih hline (some n)

/-- A header without a length is refused. -/
theorem lengthOfHeader_bad {header : List UInt8} (h : HasNoLength header) :
    ∃ w, lengthOfHeader header = .error w := by
  unfold lengthOfHeader
  rcases h with hnone | ⟨line, hline, value, hvalue, hbad⟩
  · have hlines : lengthOfLines none (headerLines header ++ []) = .ok none :=
      lengthOfLines_append hnone none []
    rw [List.append_nil, headerLines] at hlines
    simp only [hlines]
    exact ⟨_, rfl⟩
  · obtain ⟨w, hw⟩ := lengthOfLines_bad hline hvalue hbad none
    rw [headerLines] at hw
    simp only [hw]
    exact ⟨w, rfl⟩

/-! ## Frames -/

/-- The header line of a frame. -/
def lengthLine (n : Nat) : List Char := "Content-Length: ".toList ++ Nat.toDigits 10 n

theorem mem_lengthLine {n : Nat} {c : Char} (h : c ∈ lengthLine n) :
    c ∈ "Content-Length: ".toList ∨ c.isDigit = true := by
  rcases List.mem_append.mp h with h | h
  · exact .inl h
  · exact .inr (Nat.isDigit_of_mem_toDigits (by decide) (by decide) h)

theorem isDigit_bounds {c : Char} (h : c.isDigit = true) : 48 ≤ c.toNat ∧ c.toNat ≤ 57 := by
  simpa [Char.isDigit, UInt32.le_iff_toNat_le] using h

/-- The characters of a header line are printable and ASCII. -/
theorem lengthLine_bounds {n : Nat} {c : Char} (h : c ∈ lengthLine n) :
    32 ≤ c.toNat ∧ c.toNat < 128 := by
  rcases mem_lengthLine h with h | h
  · have hall : "Content-Length: ".toList.all
        (fun c => decide (32 ≤ c.toNat) && decide (c.toNat < 128)) = true := by decide
    simpa using List.all_eq_true.mp hall c h
  · have hbounds := isDigit_bounds h
    omega

theorem dropReturns_of_not_mem {line : List Char} (h : '\r' ∉ line) : dropReturns line = line := by
  have hreverse : ∀ c ∈ line.reverse, decide (c = '\r') = false := by
    intro c hc
    refine decide_eq_false ?_
    rintro rfl
    exact h (List.mem_reverse.mp hc)
  rw [dropReturns, Text.dropWhile_of_forall hreverse, List.reverse_reverse]

/-- The header line of a frame gives the length of its body. -/
theorem lengthValue?_lengthLine (n : Nat) :
    lengthValue? (lengthLine n) = some (Nat.toDigits 10 n) := by
  have hreturn : '\r' ∉ lengthLine n := fun h => absurd (lengthLine_bounds h).1 (by decide)
  refine lengthValue?_iff.mpr ⟨"Content-Length".toList, ' ' :: Nat.toDigits 10 n, ?_, ?_, ?_, ?_⟩
  · rw [dropReturns_of_not_mem hreturn]
    unfold lengthLine
    simp
  · decide
  · decide
  · refine Text.trim_cons (by decide) fun c hc => ?_
    have hbounds := isDigit_bounds (Nat.isDigit_of_mem_toDigits (by decide) (by decide) hc)
    simp [Text.isBlank]
    omega

theorem readLength_toDigits {n : Nat} (h : n ≤ maxBody) :
    readLength (Nat.toDigits 10 n) = .ok n := by
  have hbound : maxBody < 2 * Text.int64Bound := by decide
  rw [readLength, Text.readNat64?_toDigits (Nat.lt_of_le_of_lt h hbound)]
  exact if_neg (Nat.not_lt.mpr h)

/-- The octets of the header line of a frame. -/
def lengthOctets (n : Nat) : List UInt8 := Utf8.encode (String.ofList (lengthLine n))

/-- A frame is its header line, an empty line and its body. -/
theorem frame_eq (body : List UInt8) :
    frame body = lengthOctets body.length ++ emptyLine ++ body := by
  have hempty : Utf8.encode "\r\n\r\n" = emptyLine := by decide
  have hline : String.ofList (lengthLine body.length) =
      "Content-Length: " ++ toString body.length := by
    unfold lengthLine
    rw [String.ofList_append, @String.ofList_toList "Content-Length: ",
      Nat.toString_eq_ofList_toDigits]
  rw [lengthOctets, hline, ← hempty, ← Utf8.encode_append]
  rfl

theorem lengthLine_ascii (n : Nat) :
    ∀ c ∈ (String.ofList (lengthLine n)).toList, c.toNat < 0x80 := by
  rw [String.toList_ofList]
  exact fun c hc => (lengthLine_bounds hc).2

/-- There is no line end in a header line. -/
theorem lengthOctets_bounds {n : Nat} {octet : UInt8} (h : octet ∈ lengthOctets n) :
    octet ∉ emptyLine := by
  rw [lengthOctets, Utf8.encode_ascii (lengthLine_ascii n), String.toList_ofList] at h
  obtain ⟨c, hc, rfl⟩ := List.mem_map.mp h
  have hbounds := lengthLine_bounds hc
  have hnat : (UInt8.ofNat c.toNat).toNat = c.toNat := by
    simp
    omega
  intro hmem
  have hcontrol : emptyLine.all (fun octet => decide (octet.toNat < 32)) = true := by decide
  have hless := of_decide_eq_true (List.all_eq_true.mp hcontrol _ hmem)
  omega

theorem lengthOctets_ne_nil (n : Nat) : lengthOctets n ≠ [] := by
  rw [lengthOctets, Utf8.encode_ascii (lengthLine_ascii n), String.toList_ofList]
  unfold lengthLine
  simp

theorem headerLines_newline (first second : List UInt8) :
    headerLines (first ++ 10 :: second) = headerLines first ++ headerLines second := by
  rw [headerLines, Utf8.decodeLossy_newline, Text.split_append]
  rfl

theorem headerLines_lengthOctets (n : Nat) : headerLines (lengthOctets n) = [lengthLine n] := by
  rw [headerLines, lengthOctets, Utf8.decodeLossy_encode,
    String.toList_ofList]
  exact Text.split_of_not_mem fun h => absurd (lengthLine_bounds h).1 (by decide)

/-! ## Noise -/

/-- Complete lines that say no length, as stray output before a frame leaves them. -/
structure Noise where
  octets : List UInt8
  complete : octets = [] ∨ ∃ before, octets = before ++ [10]
  noEmptyLine : ¬ emptyLine <:+: octets
  noLength : ∀ line ∈ headerLines octets, ∀ value, ¬ SaysLength line value

namespace Noise

variable (noise : Noise)

/-- The lines of a header behind noise. -/
theorem headerLines_append (header : List UInt8) :
    ∃ lines, headerLines (noise.octets ++ header) = lines ++ headerLines header ∧
      ∀ line ∈ lines, ∀ value, ¬ SaysLength line value := by
  rcases noise.complete with hnil | ⟨before, hbefore⟩
  · exact ⟨[], by rw [hnil]; rfl, fun line hline => absurd hline List.not_mem_nil⟩
  · refine ⟨headerLines before, ?_, fun line hline => noise.noLength line ?_⟩
    · rw [hbefore, List.append_assoc]
      exact headerLines_newline before header
    · rw [hbefore, headerLines_newline]
      exact List.mem_append_left _ hline

/-- Noise does not change the length that the header line behind it says. -/
theorem lengthOfHeader_append {n : Nat} (h : n ≤ maxBody) :
    lengthOfHeader (noise.octets ++ lengthOctets n) = .ok n := by
  obtain ⟨lines, hlines, hnoise⟩ := noise.headerLines_append (lengthOctets n)
  have hlength : lengthOfLines none (headerLines (noise.octets ++ lengthOctets n)) =
      .ok (some n) := by
    rw [hlines, lengthOfLines_append hnoise, headerLines_lengthOctets, lengthOfLines,
      lengthValue?_lengthLine]
    simp only [readLength_toDigits h]
    rfl
  rw [headerLines] at hlength
  simp only [lengthOfHeader, hlength]

end Noise

/-! ## The end of a header behind noise -/

section Infix

variable {α : Type} {pattern rest : List α}

theorem not_infix_append {plain : List α} (hplain : ∀ x ∈ plain, x ∉ pattern)
    (hrest : ¬ pattern <:+: rest) : ¬ pattern <:+: plain ++ rest := by
  induction plain with
  | nil => exact hrest
  | cons x plain ih =>
      intro hinfix
      rcases List.infix_cons_iff.mp hinfix with hprefix | hinfix
      · cases pattern with
        | nil => exact hrest List.nil_infix
        | cons y pattern =>
            rw [(List.cons_prefix_cons.mp hprefix).1] at hplain
            exact hplain x List.mem_cons_self List.mem_cons_self
      · exact ih (fun y hy => hplain y (List.mem_cons_of_mem _ hy)) hinfix

/-- A list that is not in either of two lists is not across them, when something else is between. -/
theorem not_infix_append_cons {before : List α} {x : α} (hx : x ∉ pattern)
    (hbefore : ¬ pattern <:+: before) (hrest : ¬ pattern <:+: rest) :
    ¬ pattern <:+: before ++ x :: rest := by
  intro hinfix
  rcases List.infix_append_iff.mp hinfix with
    hinfix | hinfix | ⟨first, second, rfl, hfirst, hsecond⟩
  · exact hbefore hinfix
  · rw [← List.singleton_append] at hinfix
    exact not_infix_append (by simpa using hx) hrest hinfix
  · cases second with
    | nil => exact hbefore (by simpa using hfirst.isInfix)
    | cons y second =>
        rw [(List.cons_prefix_cons.mp hsecond).1] at hx
        exact hx (List.mem_append_right _ List.mem_cons_self)

end Infix

/-- The header of a frame behind octets without an empty line is those and the header line. -/
theorem splitHeader_frame {octets : List UInt8} (h : ¬ emptyLine <:+: octets)
    (body rest : List UInt8) : splitHeader (octets ++ frame body ++ rest) =
      some (octets ++ lengthOctets body.length, body ++ rest) := by
  refine splitHeader_iff.mpr ⟨by simp [frame_eq], ?_⟩
  have hplain : ∀ octet ∈ lengthOctets body.length, octet ∉ emptyLine := fun _ =>
    lengthOctets_bounds
  have hend : ¬ emptyLine <:+: ([13, 10, 13] : List UInt8) := by decide
  -- The header line separates the octets from the line end behind it, so none reaches across.
  cases hline : lengthOctets body.length with
  | nil => exact absurd hline (lengthOctets_ne_nil body.length)
  | cons octet line =>
      rw [hline] at hplain
      rw [List.append_assoc, List.cons_append]
      refine not_infix_append_cons (hplain octet List.mem_cons_self) h ?_
      exact not_infix_append (fun x hx => hplain x (List.mem_cons_of_mem _ hx)) hend

/-! ## Pieces of a stream -/

/-- What is written to a stream. -/
inductive Piece where
  /-- A message, with noise before its frame. -/
  | message (noise : Noise) (m : Json) (hsize : (Utf8.encode m.compact).length ≤ maxBody)
      (hread : readBody? (Utf8.encode m.compact) = some m)
  /-- A frame whose body is no message, with noise before it. -/
  | junk (noise : Noise) (body : List UInt8) (hsize : body.length ≤ maxBody)
      (hread : readBody? body = none)
  /-- A header block that says no length, without a body. -/
  | stray (header : List UInt8) (hend : ¬ emptyLine <:+: header ++ [13, 10, 13])
      (hlength : HasNoLength header)

namespace Piece

def octets : Piece → List UInt8
  | message noise m _ _ => noise.octets ++ encode m
  | junk noise body _ _ => noise.octets ++ frame body
  | stray header _ _ => header ++ emptyLine

/-- The message of a piece, if it holds one. -/
def message? : Piece → Option Json
  | message _ m _ _ => some m
  | _ => none

end Piece

/-- The message that an item is, if it is one. -/
def Item.message? : Item → Option Json
  | message m => some m
  | warning _ => none

/-- A frame is read as the item of its body, whatever noise is before it. -/
theorem next_frame (noise : Noise) {body : List UInt8} (h : body.length ≤ maxBody)
    (rest : List UInt8) :
    (next (noise.octets ++ frame body ++ rest)).item? = some (bodyItem body, rest) := by
  rw [item?_next, splitHeader_frame noise.noEmptyLine, Option.bind_some]
  simp [itemBehind, noise.lengthOfHeader_append h]

/-- Every piece is read as one item, and nothing of it is left. -/
theorem Piece.next (p : Piece) (rest : List UInt8) : ∃ item,
    (Rpc.next (p.octets ++ rest)).item? = some (item, rest) ∧ item.message? = p.message? := by
  cases p with
  | message noise m hsize hread =>
      refine ⟨_, next_frame noise hsize rest, ?_⟩
      simp only [bodyItem, hread]
      rfl
  | junk noise body hsize hread =>
      refine ⟨_, next_frame noise hsize rest, ?_⟩
      simp only [bodyItem, hread]
      rfl
  | stray header hend hlength =>
      obtain ⟨w, hw⟩ := lengthOfHeader_bad hlength
      refine ⟨.warning w, ?_, rfl⟩
      have hsplit : splitHeader (header ++ emptyLine ++ rest) = some (header, rest) :=
        splitHeader_iff.mpr ⟨rfl, hend⟩
      rw [octets, item?_next, hsplit, Option.bind_some]
      simp [itemBehind, hw]

theorem read_pieces (pieces : List Piece) : ∃ items,
    read (pieces.flatMap Piece.octets) = (items, []) ∧
      items.map Item.message? = pieces.map Piece.message? := by
  induction pieces with
  | nil => exact ⟨[], rfl, rfl⟩
  | cons p pieces ih =>
      obtain ⟨items, hread, hitems⟩ := ih
      obtain ⟨item, hnext, hitem⟩ := p.next (pieces.flatMap Piece.octets)
      refine ⟨item :: items, ?_, by simp [hitem, hitems]⟩
      rw [List.flatMap_cons, read_of_some hnext, hread]

theorem messages_eq (items : List Item) :
    messages items = (items.map Item.message?).filterMap id := by
  rw [List.filterMap_map]
  rfl

theorem length_warnings (items : List Item) :
    (warnings items).length = (items.map Item.message?).countP Option.isNone := by
  rw [List.countP_map]
  induction items with
  | nil => rfl
  | cons item items ih =>
      rw [warnings] at ih ⊢
      cases item with
      | message m => simpa [Item.message?, List.countP_cons] using ih
      | warning w => simpa [Item.message?, List.countP_cons] using ih

/-- From a noisy stream exactly the messages are read that were written to it, with a warning for
every other piece, and nothing is left. -/
theorem feed_pieces (pieces : List Piece) : ∃ items,
    ({} : Decoder).feed (pieces.flatMap Piece.octets) = (items, {}) ∧
      items.map Item.message? = pieces.map Piece.message? ∧
      messages items = pieces.filterMap Piece.message? ∧
      (warnings items).length = pieces.countP fun p => p.message?.isNone := by
  obtain ⟨items, hread, hitems⟩ := read_pieces pieces
  refine ⟨items, ?_, hitems, ?_, ?_⟩
  · rw [Decoder.feed_eq, List.nil_append, hread]
  · rw [messages_eq, hitems]
    simp
  · rw [length_warnings, hitems, List.countP_map]
    rfl

/-- A message behind a line of noise, a body that is an empty line, and a header of another kind. -/
theorem feed_start_up : ∃ pieces : List Piece,
    pieces.flatMap Piece.octets = Utf8.encode "warming up\n" ++ encode .null ++
      frame emptyLine ++ Utf8.encode "Retry: 1\r\n\r\n" ∧
    ∃ items, ({} : Decoder).feed (pieces.flatMap Piece.octets) = (items, {}) ∧
      items.map Item.message? = [some .null, none, none] := by
  have hsilent {lines : List (List Char)} (h : ∀ line ∈ lines, lengthValue? line = none) :
      ∀ line ∈ lines, ∀ value, ¬ SaysLength line value := by
    intro line hline value hvalue
    have hnone := h line hline
    rw [lengthValue?_iff.mpr hvalue] at hnone
    cases hnone
  let noise : Noise := ⟨Utf8.encode "warming up\n",
    .inr ⟨Utf8.encode "warming up", by decide +kernel⟩, by decide +kernel,
    hsilent (by decide +kernel)⟩
  let silence : Noise := ⟨[], .inl rfl, by decide +kernel, hsilent (by decide +kernel)⟩
  let pieces : List Piece := [
    .message noise .null (by decide +kernel) (by decide +kernel),
    .junk silence emptyLine (by decide +kernel) (by decide +kernel),
    .stray (Utf8.encode "Retry: 1") (by decide +kernel) (.inl (hsilent (by decide +kernel)))]
  obtain ⟨items, hfeed, hitems, -⟩ := feed_pieces pieces
  refine ⟨pieces, ?_, items, hfeed, hitems⟩
  simp only [pieces, noise, silence, List.flatMap_cons, List.flatMap_nil, Piece.octets]
  decide +kernel

end EditorHost.Rpc
