import EditorHost.Proofs.Text.Octets
import EditorHost.Uri

/-!
# Paths in URIs

The parts of a path are encoded one by one and joined by slashes, and a URI is decoded as a whole.
Both come to the same as long as a slash is left alone and every other character is encoded octet by
octet (`Uri.writeChar`, `Uri.joined_eq`): reading undoes what was written of each octet
(`Percent.decodeOctets_encodeOctet`), the percent sign among them, and so the path comes back
(`Uri.toPath?_ofPath`), with slashes for backslashes and from the root (`Uri.rooted`).
-/

namespace EditorHost

namespace Percent

/-! ## Octets -/

/-- A digit of an escape. -/
def IsHexDigit (c : Char) : Prop := c ∈ "0123456789ABCDEF".toList

instance (c : Char) : Decidable (IsHexDigit c) := inferInstanceAs (Decidable (c ∈ _))

/-- A letter, a digit, or one of the four other characters that stand for themselves. -/
def IsBareChar (c : Char) : Prop := c.isAlphanum = true ∨ c ∈ ['-', '_', '.', '~']

/-- What an octet may be written as. -/
inductive Written : List Char → Prop
  | bare {c : Char} (h : IsBareChar c) : Written [c]
  | escape {a b : Char} (ha : IsHexDigit a) (hb : IsHexDigit b) : Written ['%', a, b]

/-- Letters and digits end with `z`. -/
theorem toNat_le_of_isAlphanum {c : Char} (h : c.isAlphanum = true) : c.toNat ≤ 'z'.toNat := by
  have hcases : (c.isUpper || c.isLower || c.isDigit) = true := h
  simp only [Bool.or_eq_true] at hcases
  rcases hcases with (hupper | hlower) | hdigit
  · have hrange : c.val ≥ 'A'.val ∧ c.val ≤ 'Z'.val := of_decide_eq_true hupper
    exact Nat.le_trans (UInt32.le_iff_toNat_le.mp hrange.2) (by decide)
  · exact UInt32.le_iff_toNat_le.mp (of_decide_eq_true (Bool.and_eq_true_iff.mp hlower).2)
  · have hbound : c.val ≤ '9'.val := of_decide_eq_true (Bool.and_eq_true_iff.mp hdigit).2
    exact Nat.le_trans (UInt32.le_iff_toNat_le.mp hbound) (by decide)

theorem toNat_lt_of_isBareChar {c : Char} (h : IsBareChar c) : c.toNat < 0x80 := by
  rcases h with h | h
  · exact Nat.lt_of_le_of_lt (toNat_le_of_isAlphanum h) (by decide)
  · have hall : ['-', '_', '.', '~'].all (fun c => c.toNat < 0x80) = true := by decide
    exact of_decide_eq_true (List.all_eq_true.mp hall c h)

theorem toNat_lt_of_isHexDigit {c : Char} (h : IsHexDigit c) : c.toNat < 0x80 := by
  have hall : "0123456789ABCDEF".toList.all (fun c => c.toNat < 0x80) = true := by decide
  exact of_decide_eq_true (List.all_eq_true.mp hall c h)

theorem Written.ascii {cs : List Char} (h : Written cs) : ∀ c ∈ cs, c.toNat < 0x80 := by
  cases h with
  | bare h => exact List.forall_mem_singleton.mpr (toNat_lt_of_isBareChar h)
  | escape ha hb =>
      simp only [List.forall_mem_cons]
      exact ⟨by decide, toNat_lt_of_isHexDigit ha, toNat_lt_of_isHexDigit hb, nofun⟩

/-- No octet is written with a slash. -/
theorem Written.slash_not_mem {cs : List Char} (h : Written cs) : '/' ∉ cs := by
  intro hmem
  cases h with
  | bare h =>
      obtain rfl := List.mem_singleton.mp hmem
      revert h
      unfold IsBareChar
      decide
  | escape ha hb =>
      simp only [List.mem_cons, List.not_mem_nil, or_false] at hmem
      rcases hmem with h | rfl | rfl
      · cases h
      · revert ha; decide
      · revert hb; decide

theorem hexChar_spec : ∀ n < 16,
    IsHexDigit (hexChar n) ∧ hexValue? (UInt8.ofNat (hexChar n).toNat) = some n := by
  decide

theorem written_encodeOctet (octet : UInt8) : Written (encodeOctet octet) := by
  have hlt := octet.toNat_lt
  unfold encodeOctet
  split
  next hbare =>
    refine .bare ?_
    simp only [isBare, Bool.and_eq_true, Bool.or_eq_true, beq_iff_eq] at hbare
    simpa [IsBareChar, or_assoc] using hbare.2
  next => exact .escape (hexChar_spec _ (by omega)).1 (hexChar_spec _ (by omega)).1

theorem toNat_ofNat_ascii : ∀ n < 0x80, (Char.ofNat n).toNat = n := by decide

theorem decodeOctets_cons {octet : UInt8} (h : octet ≠ 37) (rest : List UInt8) :
    decodeOctets (octet :: rest) = octet :: decodeOctets rest := by
  rw [decodeOctets]
  exact fun _ _ _ heq => absurd heq h

/-- What was written of an octet is read as that octet. -/
theorem decodeOctets_encodeOctet (octet : UInt8) (rest : List UInt8) :
    decodeOctets ((encodeOctet octet).map (fun c => UInt8.ofNat c.toNat) ++ rest) =
      octet :: decodeOctets rest := by
  have hlt := octet.toNat_lt
  unfold encodeOctet
  split
  next hbare =>
    have hascii : octet.toNat < 0x80 := by
      simp only [isBare, Bool.and_eq_true, decide_eq_true_eq] at hbare
      exact hbare.1
    have hback : UInt8.ofNat (Char.ofNat octet.toNat).toNat = octet := by
      rw [toNat_ofNat_ascii _ hascii, UInt8.ofNat_toNat]
    have hne : octet ≠ 37 := by
      rintro rfl
      revert hbare
      decide
    rw [List.map_singleton, hback, List.singleton_append, decodeOctets_cons hne]
  next =>
    obtain ⟨-, hhigh⟩ := hexChar_spec (octet.toNat / 16) (by omega)
    obtain ⟨-, hlow⟩ := hexChar_spec (octet.toNat % 16) (by omega)
    have hsum : octet.toNat / 16 * 16 + octet.toNat % 16 = octet.toNat := by omega
    have hpercent : UInt8.ofNat '%'.toNat = 37 := rfl
    simp only [List.map_cons, List.map_nil, List.cons_append, List.nil_append, hpercent]
    rw [decodeOctets]
    simp only [hhigh, hlow, hsum, UInt8.ofNat_toNat]

theorem decodeOctets_encode (octets rest : List UInt8) :
    decodeOctets ((encode octets).map (fun c => UInt8.ofNat c.toNat) ++ rest) =
      octets ++ decodeOctets rest := by
  induction octets with
  | nil => rfl
  | cons octet octets ih =>
      rw [encode, List.flatMap_cons, List.map_append, List.append_assoc, decodeOctets_encodeOctet,
        ← encode, ih, List.cons_append]

end Percent

namespace Uri

/-! ## Characters -/

/-- What is written of a character of a path. -/
def writeChar (c : Char) : List Char :=
  if c = '/' then ['/'] else Percent.encode (String.utf8EncodeChar c)

/-- A part of the URI of a path. -/
def IsPart (cs : List Char) : Prop := cs = ['/'] ∨ Percent.Written cs

/-- To encode the parts of a path is to write its characters. -/
theorem joined_eq (cs : List Char) : List.intercalate ['/'] ((Text.split '/' cs).map fun part =>
    Percent.encode (Utf8.encode (String.ofList part))) = cs.flatMap writeChar := by
  induction cs with
  | nil => rfl
  | cons c cs ih =>
      obtain ⟨part, parts, hparts⟩ := List.exists_cons_of_ne_nil (Text.split_ne_nil '/' cs)
      rw [List.flatMap_cons, ← ih, Text.split, writeChar]
      by_cases hc : c = '/'
      · simp [hc, hparts, List.intercalate_cons_cons, Utf8.encode, Percent.encode]
      · rw [if_neg hc, if_neg hc, hparts]
        cases parts <;>
          simp [List.intercalate_cons_cons, Utf8.encode, Percent.encode]

theorem exists_parts (cs : List Char) :
    ∃ parts, cs.flatMap writeChar = List.flatten parts ∧ ∀ part ∈ parts, IsPart part := by
  induction cs with
  | nil => exact ⟨[], rfl, nofun⟩
  | cons c cs ih =>
      obtain ⟨parts, hparts, hall⟩ := ih
      rw [List.flatMap_cons, hparts, writeChar]
      split
      · refine ⟨['/'] :: parts, rfl, List.forall_mem_cons.mpr ⟨.inl rfl, hall⟩⟩
      · refine ⟨(String.utf8EncodeChar c).map Percent.encodeOctet ++ parts, ?_, ?_⟩
        · rw [List.flatten_append, Percent.encode, List.flatMap_def]
        · refine List.forall_mem_append.mpr ⟨List.forall_mem_map.mpr fun octet _ => ?_, hall⟩
          exact .inr (Percent.written_encodeOctet octet)

theorem ascii_written (cs : List Char) : ∀ c ∈ cs.flatMap writeChar, c.toNat < 0x80 := by
  obtain ⟨parts, hparts, hall⟩ := exists_parts cs
  rw [hparts]
  intro c hc
  obtain ⟨part, hpart, hc⟩ := List.mem_flatten.mp hc
  rcases hall part hpart with rfl | hwritten
  · obtain rfl := List.mem_singleton.mp hc
    decide
  · exact hwritten.ascii c hc

/-- Only a slash is written with a slash. -/
theorem head?_written (cs : List Char) :
    (cs.flatMap writeChar).head? = some '/' ↔ cs.head? = some '/' := by
  cases cs with
  | nil => rfl
  | cons c cs =>
      by_cases hc : c = '/'
      · simp [hc, writeChar]
      · obtain ⟨octet, octets, hoctets⟩ :=
          List.exists_cons_of_ne_nil (String.utf8EncodeChar_ne_nil (c := c))
        have hwritten := Percent.written_encodeOctet octet
        rw [List.flatMap_cons, writeChar, if_neg hc, hoctets, Percent.encode, List.flatMap_cons]
        generalize Percent.encodeOctet octet = first at hwritten
        have hslash := hwritten.slash_not_mem
        cases hwritten <;> simp_all [eq_comm]

/-- What was written of characters is read as those characters. -/
theorem decode?_written (cs : List Char) :
    Percent.decode? (String.ofList (cs.flatMap writeChar)) = some (String.ofList cs) := by
  have hoctets : Percent.decodeOctets
      ((cs.flatMap writeChar).map fun c => UInt8.ofNat c.toNat) =
        Utf8.encode (String.ofList cs) := by
    rw [Utf8.encode, String.toList_ofList]
    induction cs with
    | nil => rfl
    | cons c cs ih =>
        rw [List.flatMap_cons, List.flatMap_cons, List.map_append, writeChar]
        split
        next hc =>
          subst hc
          rw [List.map_singleton, List.singleton_append, Percent.decodeOctets_cons (by decide), ih]
          rfl
        next => rw [Percent.decodeOctets_encode, ih]
  rw [Percent.decode?, Utf8.encode_ascii, String.toList_ofList, hoctets, Utf8.decode?_encode]
  rw [String.toList_ofList]
  exact ascii_written cs

/-! ## Paths -/

/-- The path with slashes for backslashes and from the root. -/
def rooted (p : Path) : Path :=
  let slashed := p.text.toList.map fun c => if c = '\\' then '/' else c
  ⟨String.ofList (if slashed.head? = some '/' then slashed else '/' :: slashed)⟩

theorem ofPath_eq (p : Path) : ofPath p =
    String.ofList (fileScheme.toList ++ (rooted p).text.toList.flatMap writeChar) := by
  simp only [ofPath, rooted, joined_eq, head?_written, String.toList_ofList]
  split
  · rfl
  · rfl

theorem dropPrefix?_append (first second : List Char) :
    Text.dropPrefix? first (first ++ second) = some second := by
  induction first with
  | nil => rfl
  | cons c first ih => rw [List.cons_append, Text.dropPrefix?, if_pos rfl, ih]

theorem toPath?_ofPath (p : Path) : toPath? (ofPath p) = some (rooted p) := by
  rw [toPath?, ofPath_eq, String.toList_ofList, dropPrefix?_append, Option.bind_eq_bind,
    Option.bind_some, decode?_written, String.ofList_toList]
  rfl

/-- Absolute paths without backslashes stay as they are. -/
theorem rooted_of_absolute {p : Path} (habsolute : p.isAbsolute = true)
    (hplain : '\\' ∉ p.text.toList) : rooted p = p := by
  have hsame : (p.text.toList.map fun c => if c = '\\' then '/' else c) = p.text.toList := by
    refine (List.map_congr_left fun c hc => if_neg ?_).trans (List.map_id _)
    rintro rfl
    exact hplain hc
  have hhead : p.text.toList.head? = some '/' := by simpa [Path.isAbsolute] using habsolute
  simp only [rooted, hsame, if_pos hhead, String.ofList_toList]

/-- **URIs stand for paths.**  The URI of a path is read as the path, with slashes for backslashes
and from the root, so that of absolute paths without backslashes no two have the same URI.  Behind
its scheme there are slashes, escapes, and characters that stand for themselves. -/
theorem path_survives :
    (∀ p, toPath? (ofPath p) = some (rooted p)) ∧
    (∀ p q : Path, p.isAbsolute = true → q.isAbsolute = true → '\\' ∉ p.text.toList →
      '\\' ∉ q.text.toList → ofPath p = ofPath q → p = q) ∧
    (∀ p, ∃ parts, (ofPath p).toList = fileScheme.toList ++ List.flatten parts ∧
      ∀ part ∈ parts, IsPart part) := by
  refine ⟨toPath?_ofPath, fun p q hp hq hplain hplain' heq => ?_, fun p => ?_⟩
  · have hback := toPath?_ofPath p
    rw [heq, toPath?_ofPath, rooted_of_absolute hp hplain, rooted_of_absolute hq hplain'] at hback
    exact (Option.some.inj hback).symm
  · obtain ⟨parts, hparts, hall⟩ := exists_parts (rooted p).text.toList
    exact ⟨parts, by rw [ofPath_eq, String.toList_ofList, hparts], hall⟩

/-- An escape in a path is not mistaken for what it would stand for, and a path with a drive, a
percent sign and an accent comes back from the root. -/
theorem path_survives_percent :
    (Path.isAbsolute ⟨"/a%20b"⟩ = true ∧ Path.isAbsolute ⟨"/a b"⟩ = true) ∧
    ofPath ⟨"/a%20b"⟩ ≠ ofPath ⟨"/a b"⟩ ∧
    toPath? (ofPath ⟨"c:\\50% é\\"⟩) = some ⟨"/c:/50% é/"⟩ := by
  obtain ⟨hback, hinjective, -⟩ := path_survives
  refine ⟨⟨by decide, by decide⟩, fun heq => ?_, (hback _).trans (by decide)⟩
  have hsame := hinjective ⟨"/a%20b"⟩ ⟨"/a b"⟩ (by decide) (by decide) (by decide) (by decide) heq
  exact absurd (congrArg Path.text hsame) (by decide)

end Uri

end EditorHost
