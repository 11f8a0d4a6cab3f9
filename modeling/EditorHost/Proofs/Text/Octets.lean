import EditorHost.Text.Blank
import EditorHost.Text.Numeral
import EditorHost.Text.Split
import EditorHost.Text.Utf8

/-!
# Texts in octets

What is needed to read back what was written: text is decoded as it was encoded
(`Utf8.decode_encode`); an ASCII character is one of its own even behind malformed octets, so that
the lines of a text can be decoded one by one (`Utf8.decodeLossy_newline`); the parts of a text are
found again between their separators; and a number that was written is read as itself
(`Text.readNat64?_toDigits`).
-/

namespace EditorHost

namespace Utf8

/-! ## ASCII -/

theorem encode_append (s t : String) : encode (s ++ t) = encode s ++ encode t := by
  simp [encode]

theorem utf8EncodeChar_ascii {c : Char} (h : c.toNat < 0x80) :
    String.utf8EncodeChar c = [UInt8.ofNat c.toNat] := by
  have hval : c.val ≤ 127 := UInt32.le_iff_toNat_le.mpr (Nat.le_of_lt_succ h)
  rw [String.utf8EncodeChar_eq_singleton (Char.utf8Size_eq_one_iff.mpr hval)]
  rfl

theorem toNat_ofNat {n : Nat} (h : n < 256) : (UInt8.ofNat n).toNat = n := by
  simp
  omega

theorem lead_ascii {c : Char} (h : c.toNat < 0x80) : lead (UInt8.ofNat c.toNat) = .character c := by
  simp only [lead, toNat_ofNat (Nat.lt_trans h (by decide)), h, if_true, Char.ofNat_toNat]

/-- No ASCII character goes on with another character. -/
theorem low_of_lead {octet : UInt8} {p : Pending} (h : lead octet = .more p) : 0x80 ≤ p.low := by
  unfold lead at h
  dsimp only at h
  repeat' split at h
  all_goals cases h
  all_goals simp

/-- An ASCII character is one of its own, even behind a character that is cut short. -/
theorem decodeFrom_ascii {c : Char} (hc : c.toNat < 0x80) (first second : List UInt8)
    (pending : Option Pending) (hlow : ∀ p, pending = some p → 0x80 ≤ p.low) :
    decodeFrom pending (first ++ UInt8.ofNat c.toNat :: second) =
      decodeFrom pending first ++ some c :: decodeFrom none second := by
  induction first generalizing pending with
  | nil =>
      cases pending with
      | none => simp [decodeFrom, lead_ascii hc]
      | some p =>
          -- The character cuts the other one short, and is read anew.
          have hout : ¬ p.low ≤ (UInt8.ofNat c.toNat).toNat := by
            have hp := hlow p rfl
            rw [toNat_ofNat (Nat.lt_trans hc (by decide))]
            omega
          simp only [List.nil_append, decodeFrom, lead_ascii hc, hout, false_and, if_false]
          rfl
  | cons octet first ih =>
      have hnone := ih none fun p h => by cases h
      have hmore (p : Pending) (h : lead octet = .more p) := ih (some p) fun q hq => by
        cases hq
        exact low_of_lead h
      cases pending with
      | none =>
          simp only [List.cons_append, decodeFrom]
          cases h : lead octet with
          | character c => simp [hnone]
          | more p => simp [hmore p h]
          | malformed => simp [hnone]
      | some p =>
          simp only [List.cons_append, decodeFrom]
          split
          · split
            · simp [hnone]
            · refine ih _ fun q hq => ?_
              cases hq
              simp
          · cases h : lead octet with
            | character c => simp [hnone]
            | more q => simp [hmore q h]
            | malformed => simp [hnone]

theorem decodeLossy_newline (first second : List UInt8) :
    (decodeLossy (first ++ 10 :: second)).toList =
      (decodeLossy first).toList ++ '\n' :: (decodeLossy second).toList := by
  have hline := decodeFrom_ascii (c := '\n') (by decide) first second none fun p h => by cases h
  have hcode : UInt8.ofNat '\n'.toNat = 10 := rfl
  rw [hcode] at hline
  simp [decodeLossy, decode, hline]

theorem encode_ascii {text : String} (h : ∀ c ∈ text.toList, c.toNat < 0x80) :
    encode text = text.toList.map fun c => UInt8.ofNat c.toNat := by
  rw [encode]
  generalize text.toList = cs at h
  induction cs with
  | nil => rfl
  | cons c cs ih =>
      rw [List.flatMap_cons, List.map_cons, utf8EncodeChar_ascii (h c List.mem_cons_self),
        ih fun d hd => h d (List.mem_cons_of_mem _ hd)]
      rfl

/-! ## All characters -/

theorem decodeFrom_lead {octet : UInt8} {p : Pending} (h : lead octet = .more p)
    (rest : List UInt8) : decodeFrom none (octet :: rest) = decodeFrom (some p) rest := by
  simp only [decodeFrom, h]

/-- An octet that goes on with a character gives it six more bits. -/
theorem decodeFrom_more {n low high code left : Nat} (hn : n < 64) (hlow : low ≤ n + 128)
    (hhigh : n + 128 ≤ high) (hleft : 1 < left) (rest : List UInt8) :
    decodeFrom (some ⟨left, code, low, high⟩) (UInt8.ofNat (n + 128) :: rest) =
      decodeFrom (some ⟨left - 1, code * 64 + n, 0x80, 0xBF⟩) rest := by
  have hnat : (UInt8.ofNat (n + 128)).toNat = n + 128 := toNat_ofNat (by omega)
  simp only [decodeFrom, hnat, hlow, hhigh, and_self, if_true, Nat.add_sub_cancel,
    Nat.not_le.mpr hleft, if_false]

/-- The last octet of a character completes it. -/
theorem decodeFrom_last {n low high code : Nat} (hn : n < 64) (hlow : low ≤ n + 128)
    (hhigh : n + 128 ≤ high) (rest : List UInt8) :
    decodeFrom (some ⟨1, code, low, high⟩) (UInt8.ofNat (n + 128) :: rest) =
      some (Char.ofNat (code * 64 + n)) :: decodeFrom none rest := by
  have hnat : (UInt8.ofNat (n + 128)).toNat = n + 128 := toNat_ofNat (by omega)
  simp only [decodeFrom, hnat, hlow, hhigh, and_self, if_true, Nat.add_sub_cancel, Nat.le_refl]

theorem lead_two {n : Nat} (hlow : 2 ≤ n) (hhigh : n < 32) :
    lead (UInt8.ofNat (n + 192)) = .more ⟨1, n, 0x80, 0xBF⟩ := by
  have hnat : (UInt8.ofNat (n + 192)).toNat = n + 192 := toNat_ofNat (by omega)
  have hfirst : ¬ n + 192 < 128 := by omega
  have hin : 194 ≤ n + 192 ∧ n + 192 ≤ 223 := by omega
  simp only [lead, hnat, hfirst, hin, if_true, if_false, and_self, Nat.add_sub_cancel]

theorem lead_three {n : Nat} (h : n < 16) :
    lead (UInt8.ofNat (n + 224)) =
      .more ⟨2, n, if n = 0 then 0xA0 else 0x80, if n = 13 then 0x9F else 0xBF⟩ := by
  have hnat : (UInt8.ofNat (n + 224)).toNat = n + 224 := toNat_ofNat (by omega)
  by_cases hzero : n = 0
  · subst hzero
    rfl
  · by_cases hsurrogate : n = 13
    · subst hsurrogate
      rfl
    · have h1 : ¬ n + 224 < 128 := by omega
      have h2 : ¬ n + 224 ≤ 223 := by omega
      have h3 : ¬ n + 224 = 237 := by omega
      have h4 : 225 ≤ n + 224 ∧ n + 224 ≤ 239 := by omega
      have h5 : ¬ n + 224 = 224 := by omega
      simp only [lead, hnat, h1, h2, h3, h4, h5, hzero, hsurrogate, and_false, and_self, if_true,
        if_false, Nat.add_sub_cancel]

theorem lead_four {n : Nat} (h : n < 5) :
    lead (UInt8.ofNat (n + 240)) =
      .more ⟨3, n, if n = 0 then 0x90 else 0x80, if n = 4 then 0x8F else 0xBF⟩ := by
  match n, h with
  | 0, _ => rfl
  | 1, _ => rfl
  | 2, _ => rfl
  | 3, _ => rfl
  | 4, _ => rfl

/-- A character is decoded as it was encoded. -/
theorem decodeFrom_encodeChar (c : Char) (rest : List UInt8) :
    decodeFrom none (String.utf8EncodeChar c ++ rest) = some c :: decodeFrom none rest := by
  have hvalid : c.toNat < 0xD800 ∨ 0xDFFF < c.toNat ∧ c.toNat < 0x110000 := c.valid
  rw [String.utf8EncodeChar, show c.val.toNat = c.toNat from rfl]
  generalize hcode : c.toNat = v at hvalid
  have hc : Char.ofNat v = c := by rw [← hcode, Char.ofNat_toNat]
  split
  next hone =>
    rw [← hcode] at hone ⊢
    simp only [List.cons_append, List.nil_append, decodeFrom, lead_ascii (Nat.lt_succ_of_le hone)]
  next hone =>
    split
    next htwo =>
      have hvalue : v / 64 % 32 * 64 + v % 64 = v := by omega
      simp only [List.cons_append, List.nil_append]
      rw [decodeFrom_lead (lead_two (by omega) (by omega)),
        decodeFrom_last (by omega) (by omega) (by omega), hvalue, hc]
    next htwo =>
      split
      next hthree =>
        have hvalue : (v / 4096 % 16 * 64 + v / 64 % 64) * 64 + v % 64 = v := by omega
        simp only [List.cons_append, List.nil_append]
        rw [decodeFrom_lead (lead_three (by omega)),
          decodeFrom_more (by omega) (by split <;> omega) (by split <;> omega) (by omega),
          decodeFrom_last (by omega) (by omega) (by omega), hvalue, hc]
      next hthree =>
        have hvalue : ((v / 262144 % 8 * 64 + v / 4096 % 64) * 64 + v / 64 % 64) * 64 + v % 64 =
            v := by omega
        simp only [List.cons_append, List.nil_append]
        rw [decodeFrom_lead (lead_four (by omega)),
          decodeFrom_more (by omega) (by split <;> omega) (by split <;> omega) (by omega),
          decodeFrom_more (by omega) (by omega) (by omega) (by omega),
          decodeFrom_last (by omega) (by omega) (by omega), hvalue, hc]

/-- Texts are decoded as they were encoded. -/
theorem decode_encode (text : String) : decode (encode text) = text.toList.map some := by
  rw [decode, encode]
  induction text.toList with
  | nil => rfl
  | cons c cs ih => rw [List.flatMap_cons, decodeFrom_encodeChar, ih, List.map_cons]

theorem decodeLossy_encode (text : String) : decodeLossy (encode text) = text := by
  rw [decodeLossy, decode_encode, List.map_map]
  exact (congrArg String.ofList (List.map_id text.toList)).trans (String.ofList_toList)

theorem decode?_encode (text : String) : decode? (encode text) = some text := by
  have hall (cs : List Char) : (cs.map some).mapM id = some cs := by
    induction cs with
    | nil => rfl
    | cons c cs ih => simp [ih]
  rw [decode?, decode_encode, hall, Option.map_some, String.ofList_toList]

/-- ASCII text is decoded as it was encoded also behind a character that is cut short. -/
theorem decodeLossy_append_ascii {text : String} (h : ∀ c ∈ text.toList, c.toNat < 0x80)
    (first : List UInt8) :
    (decodeLossy (first ++ encode text)).toList = (decodeLossy first).toList ++ text.toList := by
  have hdecode : decode (first ++ encode text) = decode first ++ text.toList.map some := by
    cases hcs : text.toList with
    | nil => simp [encode, hcs]
    | cons c cs =>
        have htail : encode text = UInt8.ofNat c.toNat :: encode (String.ofList cs) := by
          simp [encode, hcs, utf8EncodeChar_ascii (h c (hcs ▸ List.mem_cons_self))]
        have hcut := decodeFrom_ascii (h c (hcs ▸ List.mem_cons_self)) first
          (encode (String.ofList cs)) none fun p hp => by cases hp
        have hcs' := decode_encode (String.ofList cs)
        rw [decode] at hcs'
        rw [htail, decode, hcut, hcs']
        simp [decode]
  simp [decodeLossy, hdecode, Function.comp_def]

/-- Octets that are well-formed are read the same by both decoders. -/
theorem decodeLossy_of_decode? {octets : List UInt8} {text : String}
    (h : decode? octets = some text) : decodeLossy octets = text := by
  rw [decode?, Option.map_eq_some_iff] at h
  obtain ⟨cs, hcs, rfl⟩ := h
  rw [decodeLossy]
  congr 1
  generalize decode octets = decoded at hcs ⊢
  induction decoded generalizing cs with
  | nil =>
      cases hcs
      rfl
  | cons c rest ih =>
      simp only [List.mapM_cons, Option.bind_eq_bind, Option.bind_eq_some_iff] at hcs
      obtain ⟨first, hfirst, cs', hrest, heq⟩ := hcs
      cases heq
      rw [List.map_cons, ih _ hrest, show c = some first from hfirst]
      rfl

end Utf8

namespace Text

/-- The parts of two texts with a separator between them. -/
theorem split_append (separator : Char) (first second : List Char) :
    split separator (first ++ separator :: second) =
      split separator first ++ split separator second := by
  induction first with
  | nil => simp [split]
  | cons c first ih =>
      by_cases hc : c = separator
      · simp [split, hc, ih]
      · simp only [List.cons_append, split, hc, if_false, ih]
        cases hsplit : split separator first with
        | nil => exact absurd hsplit (split_ne_nil separator first)
        | cons part parts => rfl

theorem split_of_not_mem {separator : Char} {cs : List Char} (h : separator ∉ cs) :
    split separator cs = [cs] := by
  induction cs with
  | nil => rfl
  | cons c cs ih =>
      rw [List.mem_cons, not_or] at h
      simp only [split, Ne.symm h.1, if_false, ih h.2]

/-- No part between separators has one. -/
theorem not_mem_of_mem_split {separator : Char} {cs part : List Char}
    (h : part ∈ split separator cs) : separator ∉ part := by
  induction cs generalizing part with
  | nil =>
      obtain rfl : part = [] := by simpa [split] using h
      exact List.not_mem_nil
  | cons c rest ih =>
      by_cases hc : c = separator
      · rw [split, if_pos hc] at h
        rcases List.mem_cons.mp h with rfl | h
        · exact List.not_mem_nil
        · exact ih h
      · obtain ⟨first, more, hrest⟩ := List.exists_cons_of_ne_nil (split_ne_nil separator rest)
        rw [hrest] at ih
        simp only [split, if_neg hc, hrest] at h
        rcases List.mem_cons.mp h with rfl | h
        · exact List.not_mem_cons_of_ne_of_not_mem (Ne.symm hc) (ih List.mem_cons_self)
        · exact ih (List.mem_cons_of_mem _ h)

/-- Text without separators goes on with the last part of the text before it. -/
theorem split_append_of_not_mem {separator : Char} {second : List Char} (h : separator ∉ second)
    (first : List Char) : split separator (first ++ second) =
      (split separator first).dropLast ++ [(split separator first).getLastD [] ++ second] := by
  induction first with
  | nil => simp [split, split_of_not_mem h]
  | cons c first ih =>
      obtain ⟨part, parts, hparts⟩ := List.exists_cons_of_ne_nil (split_ne_nil separator first)
      by_cases hc : c = separator
      · simp [split, hc, ih, hparts]
      · rw [List.cons_append]
        simp only [split, hc, if_false, ih, hparts]
        cases parts <;> simp

theorem splitOnce_iff {separator : Char} {cs before after : List Char} :
    splitOnce separator cs = some (before, after) ↔
      cs = before ++ separator :: after ∧ separator ∉ before := by
  induction cs generalizing before with
  | nil => simp [splitOnce]
  | cons c cs ih =>
      by_cases hc : c = separator
      · cases before with
        | nil => simp [splitOnce, hc]
        | cons b before =>
            refine iff_of_false (by simp [splitOnce, hc]) ?_
            rintro ⟨heq, hnot⟩
            rw [List.cons_append, List.cons.injEq] at heq
            exact hnot (by rw [← heq.1, hc]; exact List.mem_cons_self)
      · cases before with
        | nil =>
            refine iff_of_false (by simp [splitOnce, hc]) ?_
            rintro ⟨heq, -⟩
            exact hc (List.cons.inj heq).1
        | cons b before =>
            have hsplit : splitOnce separator (c :: cs) = some (b :: before, after) ↔
                c = b ∧ splitOnce separator cs = some (before, after) := by
              simp only [splitOnce, hc, if_false, Option.map_eq_some_iff]
              constructor
              · rintro ⟨⟨before', after'⟩, hcs, heq⟩
                cases heq
                exact ⟨rfl, hcs⟩
              · rintro ⟨rfl, hcs⟩
                exact ⟨_, hcs, rfl⟩
            rw [hsplit, ih, List.cons_append, List.cons.injEq, List.mem_cons, not_or, and_assoc]
            refine and_congr_right fun heq => and_congr_right fun _ => ?_
            exact ⟨fun hnot => ⟨fun h => hc (heq.trans h.symm), hnot⟩, fun h => h.2⟩

theorem dropWhile_of_forall {p : Char → Bool} {cs : List Char} (h : ∀ c ∈ cs, p c = false) :
    cs.dropWhile p = cs := by
  cases cs with
  | nil => rfl
  | cons c cs => simp [List.dropWhile, h c List.mem_cons_self]

/-- Trimming takes away the blanks before a text. -/
theorem trim_append {blanks : List Char} (h : ∀ c ∈ blanks, isBlank c = true) (cs : List Char) :
    trim (blanks ++ cs) = trim cs := by
  rw [trim, trim, List.dropWhile_append_of_pos h]

/-- Trimming takes away nothing at a character that is no blank. -/
theorem trim_of_not_blank {c : Char} (hc : isBlank c = false) (cs : List Char) :
    ∃ more, trim (c :: cs) = c :: more := by
  rw [trim, List.dropWhile_cons_of_neg (by simp [hc]), List.reverse_cons, List.dropWhile_append]
  split
  · exact ⟨[], by simp [hc]⟩
  · exact ⟨_, by rw [List.reverse_append]; rfl⟩

/-- Trimming takes a blank away, but nothing of a text without blanks. -/
theorem trim_cons {c : Char} {cs : List Char} (hc : isBlank c = true)
    (hcs : ∀ d ∈ cs, isBlank d = false) : trim (c :: cs) = cs := by
  have hreverse : ∀ d ∈ cs.reverse, isBlank d = false := fun d hd =>
    hcs d (List.mem_reverse.mp hd)
  rw [trim, List.dropWhile_cons_of_pos hc, dropWhile_of_forall hcs, dropWhile_of_forall hreverse,
    List.reverse_reverse]

/-- Digits are read as the number that they were written for. -/
theorem readDigits?_toDigits (n : Nat) : readDigits? (Nat.toDigits 10 n) = some n := by
  have hdigits : (Nat.toDigits 10 n).all Char.isDigit = true :=
    List.all_eq_true.mpr fun c hc => Nat.isDigit_of_mem_toDigits (by decide) (by decide) hc
  have hvalue : (Nat.toDigits 10 n).foldl (fun n c => n * 10 + (c.toNat - '0'.toNat)) 0 = n := by
    have hofDigits := Nat.ofDigitChars_ten_toDigits (n := n)
    rw [Nat.ofDigitChars_eq_foldl] at hofDigits
    simpa only [Nat.mul_comm 10] using hofDigits
  have hne : (Nat.toDigits 10 n).isEmpty = false := by simp
  simp only [readDigits?, hdigits, hne, hvalue]
  rfl

theorem readNat64?_toDigits {n : Nat} (h : n < 2 * int64Bound) :
    readNat64? (Nat.toDigits 10 n) = some n := by
  have hplus : '+' ∉ Nat.toDigits 10 n := fun hmem => by
    have hdigit := Nat.isDigit_of_mem_toDigits (by decide) (by decide) hmem
    revert hdigit
    decide
  have hread := readDigits?_toDigits n
  unfold readNat64?
  split
  next rest heq => exact absurd (heq ▸ List.mem_cons_self) hplus
  · simp [hread, h]

end Text

end EditorHost
