import EditorHost.Json.Printer
import EditorHost.Json.Tree

/-!
# Numbers in files

Every number is written as a numeral (`Json.isNumeral_numberChars`), so a number is read where it
has been written.  A whole number is the one that was written (`Json.rereadNumber?_whole`).  The
shortest numeral of a binary64 number may denote one of its neighbours, because the value of a
numeral is rounded twice (`Json.Numeral.value`).

## Contents

* `Json.IsNumeral` says that a numeral is read from a text; `Json.isNumeral_parts` puts one together
  from a sign, a whole part, a fraction and an exponent.
* `Json.Double.exponent_shortest`: a binary64 number has no digits that begin with a zero.
* `Json.rereadNumber?` is the number that is read where one has been written.
-/

namespace EditorHost.Json

/-! ## Numerals -/

/-- Digits, one at least. -/
def IsDigits (cs : List Char) : Prop := cs ≠ [] ∧ ∀ c ∈ cs, c.isDigit = true

/-- No digit comes first. -/
def EndsDigits (rest : List Char) : Prop := ∀ c, rest.head? = some c → c.isDigit = false

/-- Nothing comes first that a numeral could go on with. -/
def EndsNumeral (rest : List Char) : Prop :=
  ∀ c, rest.head? = some c → c.isDigit = false ∧ c ≠ '.' ∧ c ≠ 'e' ∧ c ≠ 'E'

/-- A numeral is read from the text, wherever it ends. -/
def IsNumeral (cs : List Char) : Prop :=
  ∃ n, ∀ rest, EndsNumeral rest → readNumeral (cs ++ rest) = some (n, rest)

/-- What stands behind the whole part: nothing, or a point and digits. -/
inductive IsFraction : List Char → Prop
  | absent : IsFraction []
  | point {digits : List Char} (h : IsDigits digits) : IsFraction ('.' :: digits)

/-- What stands behind the fraction: nothing, or a mark, a sign and digits. -/
inductive IsExponent : List Char → Prop
  | absent : IsExponent []
  | mark {sign : Char} {digits : List Char} (hsign : sign = '+' ∨ sign = '-')
      (h : IsDigits digits) : IsExponent ('e' :: sign :: digits)

section Numerals

variable {cs rest whole fraction exponent digits tail tail' : List Char}

theorem EndsNumeral.endsDigits (h : EndsNumeral rest) : EndsDigits rest := fun c hc => (h c hc).1

theorem readDigits_append (h : IsDigits digits) (hrest : EndsDigits rest) :
    readDigits (digits ++ rest) = (digits.map digitValue, rest) := by
  have hstop : rest.takeWhile Char.isDigit = [] ∧ rest.dropWhile Char.isDigit = rest := by
    cases rest with
    | nil => exact ⟨rfl, rfl⟩
    | cons c rest => simp [hrest c rfl]
  rw [readDigits, List.takeWhile_append_of_pos h.2, List.dropWhile_append_of_pos h.2, hstop.1,
    hstop.2, List.append_nil]

theorem eq_zero_of_digitValue {c : Char} (hc : c.isDigit = true) (h : digitValue c = 0) :
    c = '0' := by
  have hbounds : 48 ≤ c.toNat ∧ c.toNat ≤ 57 := by
    simpa [Char.isDigit, UInt32.le_iff_toNat_le] using hc
  have hle : c.toNat ≤ 48 := Nat.sub_eq_zero_iff_le.mp h
  rw [← Char.ofNat_toNat c, Nat.le_antisymm hle hbounds.1]

/-- A sign, a whole part without a zero in front, and what follows are read part by part. -/
theorem readNumeral_parts (negative : Bool) (hwhole : IsDigits whole)
    (hzero : whole.head? = some '0' → whole = ['0']) (htail : EndsDigits tail)
    {f : Option (List Nat)} (hf : readFraction tail = some (f, tail'))
    {e : Option (Bool × List Nat)} (he : readExponent tail' = some (e, rest)) :
    readNumeral ((if negative then ['-'] else []) ++ (whole ++ tail)) =
      some (⟨negative, whole.map digitValue, f, e⟩, rest) := by
  have hdigits := readDigits_append hwhole htail
  have hfirst : ∀ d ds, whole.map digitValue ≠ 0 :: d :: ds := by
    intro d ds heq
    obtain ⟨c, more, rfl, hc, hmore⟩ := List.map_eq_cons_iff.mp heq
    obtain rfl := eq_zero_of_digitValue (hwhole.2 c List.mem_cons_self) hc
    rw [(List.cons.inj (hzero rfl)).2] at hmore
    cases hmore
  have hdefault : ∀ after, whole ++ tail = '-' :: after → False := by
    obtain ⟨c, more, rfl⟩ := List.exists_cons_of_ne_nil hwhole.1
    intro _ heq
    have hc := hwhole.2 c List.mem_cons_self
    rw [(List.cons.inj heq).1] at hc
    exact absurd hc (by decide)
  cases negative with
  | false =>
      simp only [Bool.false_eq_true, if_false, List.nil_append]
      rw [readNumeral.eq_2 _ hdefault, hdigits]
      split
      next heq => exact absurd (Prod.mk.inj heq).1 (by simpa using hwhole.1)
      next d ds after heq => exact absurd (Prod.mk.inj heq).1 (hfirst d ds)
      · simp [hf, he]
  | true =>
      simp only [if_true, List.cons_append, List.nil_append]
      rw [readNumeral.eq_1, hdigits]
      split
      next heq => exact absurd (Prod.mk.inj heq).1 (by simpa using hwhole.1)
      next d ds after heq => exact absurd (Prod.mk.inj heq).1 (hfirst d ds)
      · simp [hf, he]

theorem readExponent_of_ends (h : EndsNumeral rest) : readExponent rest = some (none, rest) := by
  cases rest with
  | nil => rfl
  | cons c rest =>
      obtain ⟨-, -, hsmall, hlarge⟩ := h c rfl
      simp [readExponent, hsmall, hlarge]

theorem readFraction_of_ne (h : rest.head? ≠ some '.') : readFraction rest = some (none, rest) :=
  readFraction.eq_2 _ fun _ heq => h (heq ▸ rfl)

theorem IsExponent.exists_read (h : IsExponent exponent) :
    ∃ e, ∀ rest, EndsNumeral rest → readExponent (exponent ++ rest) = some (e, rest) := by
  cases h with
  | absent => exact ⟨none, fun rest hrest => readExponent_of_ends hrest⟩
  | @mark sign digits hsign h =>
      obtain ⟨c, more, rfl⟩ := List.exists_cons_of_ne_nil h.1
      refine ⟨some (sign = '-', (c :: more).map digitValue), fun rest hrest => ?_⟩
      have hread := readDigits_append h hrest.endsDigits
      rw [List.cons_append] at hread
      rcases hsign with rfl | rfl <;> simp [readExponent, hread]

theorem IsExponent.head?_append (h : IsExponent exponent) (hrest : EndsNumeral rest) :
    EndsDigits (exponent ++ rest) ∧ (exponent ++ rest).head? ≠ some '.' := by
  cases h with
  | absent => exact ⟨hrest.endsDigits, fun hpoint => (hrest '.' hpoint).2.1 rfl⟩
  | mark hsign h =>
      refine ⟨fun c hc => ?_, by simp⟩
      cases hc
      rfl

/-- A sign, the whole part, a fraction and an exponent make a numeral. -/
theorem isNumeral_parts (negative : Bool) (hwhole : IsDigits whole)
    (hzero : whole.head? = some '0' → whole = ['0']) (hfraction : IsFraction fraction)
    (hexponent : IsExponent exponent) :
    IsNumeral ((if negative then ['-'] else []) ++ (whole ++ (fraction ++ exponent))) := by
  obtain ⟨e, he⟩ := hexponent.exists_read
  cases hfraction with
  | absent =>
      refine ⟨⟨negative, whole.map digitValue, none, e⟩, fun rest hrest => ?_⟩
      obtain ⟨hdigits, hpoint⟩ := hexponent.head?_append hrest
      simp only [List.append_assoc]
      exact readNumeral_parts negative hwhole hzero hdigits (readFraction_of_ne hpoint)
        (he rest hrest)
  | @point digits h =>
      refine ⟨⟨negative, whole.map digitValue, some (digits.map digitValue), e⟩,
        fun rest hrest => ?_⟩
      have hread : readFraction ('.' :: (digits ++ (exponent ++ rest))) =
          some (some (digits.map digitValue), exponent ++ rest) := by
        obtain ⟨c, more, rfl⟩ := List.exists_cons_of_ne_nil h.1
        rw [readFraction, readDigits_append h (hexponent.head?_append hrest).1]
        rfl
      simp only [List.append_assoc, List.cons_append]
      refine readNumeral_parts negative hwhole hzero (fun c hc => ?_) hread (he rest hrest)
      cases hc
      rfl

end Numerals

/-! ## Numbers -/

theorem isDigits_decimal (n : Nat) : IsDigits (decimal n) :=
  ⟨Nat.toDigits_ne_nil, fun _ hc => Nat.isDigit_of_mem_toDigits (by decide) (by decide) hc⟩

/-- Only zero has a zero in front. -/
theorem eq_zero_of_head?_decimal {n : Nat} (h : (decimal n).head? = some '0') : n = 0 := by
  induction n using Nat.strongRecOn with
  | ind n ih =>
      rw [decimal, Nat.toDigits_eq_if (by decide)] at h
      split at h
      next hlt =>
        exact Nat.digitChar_eq_zero.mp (Option.some.inj h)
      next hle =>
        rw [List.head?_append, Option.or_of_isSome (by simp)] at h
        have hdiv := ih (n / 10) (Nat.div_lt_self (by omega) (by decide)) h
        omega

namespace Double

theorem fst_dropZeros_ne_zero (fuel : Nat) {n : Nat} (h : n ≠ 0) : (dropZeros fuel n).1 ≠ 0 := by
  induction fuel generalizing n with
  | zero => exact h
  | succ fuel ih =>
      rw [dropZeros]
      split
      next hdrop => exact ih (by omega)
      · exact h

/-- A value that is not zero has digits. -/
theorem Interval.ne_zero_of_nearest? {range : Interval} (hlow : 0 < range.low)
    (decimal binary : Int) {d : Nat} (h : range.nearest? (scale decimal binary) = some d) : d ≠ 0 := by
  have hunit : 0 < (scale decimal binary).unit :=
    Nat.mul_pos (Nat.pow_pos (by decide)) (Nat.pow_pos (by decide))
  have hzero : range.contains (scale decimal binary) 0 = false := by
    have := Nat.mul_pos hlow hunit
    unfold contains
    split <;> simp <;> omega
  have hcontains : range.contains (scale decimal binary) d = true := by
    unfold nearest? at h
    dsimp only at h
    split at h
    · cases h
    · cases h
      assumption
    · cases h
      assumption
    · split at h <;> cases h <;> assumption
  rintro rfl
  rw [hzero] at hcontains
  cases hcontains

theorem ne_zero_of_firstGrid {range : Interval} (hlow : 0 < range.low) {binary top : Int}
    {fuel : Nat} {count : Int} {found : Decimal}
    (h : firstGrid range binary top fuel count = some found) : found.digits ≠ 0 := by
  induction fuel generalizing count with
  | zero => cases h
  | succ fuel ih =>
      rw [firstGrid] at h
      split at h
      next digits hdigits =>
        cases h
        exact Interval.ne_zero_of_nearest? hlow _ _ hdigits
      · exact ih h

/-- The digits are only zero where there is no exponent. -/
theorem exponent_shortest {x : Double} (h : x.shortest.digits = 0) : x.shortest.exponent = 0 := by
  unfold shortest at h ⊢
  split at h
  next hzero => rw [if_pos hzero]
  next hzero =>
    rw [if_neg hzero]
    have hlow : 0 < x.interval.low := by
      have hne : x.significand ≠ 0 := by simpa [isZero] using hzero
      unfold interval
      dsimp only
      split <;> omega
    dsimp only at h ⊢
    split at h
    next found hfound =>
      exact absurd h (fst_dropZeros_ne_zero 18 (ne_zero_of_firstGrid hlow hfound))
    next hnone => rfl

end Double

theorem IsDigits.append {cs ds : List Char} (h : IsDigits cs) (hds : ∀ c ∈ ds, c.isDigit = true) :
    IsDigits (cs ++ ds) :=
  ⟨by simp [h.1], fun c hc => (List.mem_append.mp hc).elim (h.2 c) (hds c)⟩

theorem isDigit_of_mem_replicate {n : Nat} : ∀ c ∈ List.replicate n '0', c.isDigit = true := by
  intro c hc
  rw [List.eq_of_mem_replicate hc]
  rfl

/-- The digit that stands where there is no other one. -/
theorem isDigits_zero : IsDigits ['0'] :=
  ⟨List.cons_ne_nil _ _, isDigit_of_mem_replicate (n := 1)⟩

/-- Digits with a point are a numeral; where they are a single zero, it is the one in front. -/
theorem isNumeral_positional (negative : Bool) {digits : List Char} {point : Int}
    (h : IsDigits digits) (hzero : digits.head? = some '0' → digits = ['0'] ∧ point ≤ 1) :
    IsNumeral ((if negative then ['-'] else []) ++ positional digits point) := by
  rw [positional]
  by_cases hle : point ≤ 0
  · rw [if_pos hle]
    have hdigits : IsDigits (List.replicate (-point).toNat '0' ++ digits) :=
      ⟨by simp [h.1], fun c hc =>
        (List.mem_append.mp hc).elim (isDigit_of_mem_replicate c) (h.2 c)⟩
    simpa using isNumeral_parts negative isDigits_zero (fun _ => rfl) (.point hdigits) .absent
  rw [if_neg hle]
  dsimp only
  by_cases hlength : digits.length ≤ point.toNat
  · rw [if_pos hlength]
    have hwhole := h.append (isDigit_of_mem_replicate (n := point.toNat - digits.length))
    have hparts := isNumeral_parts negative hwhole (fun hhead => ?_) (.point isDigits_zero) .absent
    · simpa using hparts
    · rw [List.head?_append, Option.or_of_isSome (by simpa using h.1)] at hhead
      obtain ⟨rfl, hpoint⟩ := hzero hhead
      have hnone : point.toNat - 1 = 0 := by omega
      simp [hnone]
  · rw [if_neg hlength]
    have hwhole : IsDigits (digits.take point.toNat) :=
      ⟨by simp [h.1]; omega, fun c hc => h.2 c (List.mem_of_mem_take hc)⟩
    have hfraction : IsDigits (digits.drop point.toNat) :=
      ⟨by simpa using hlength, fun c hc => h.2 c (List.mem_of_mem_drop hc)⟩
    have hparts := isNumeral_parts negative hwhole (fun hhead => ?_) (.point hfraction) .absent
    · simpa using hparts
    · rw [List.head?_take, if_neg (by omega)] at hhead
      obtain ⟨rfl, -⟩ := hzero hhead
      simp at hlength
      omega

/-- Digits with an exponent are a numeral. -/
theorem isNumeral_scientific (negative : Bool) {digits : List Char} (h : IsDigits digits)
    (exponent : Int) :
    IsNumeral ((if negative then ['-'] else []) ++ scientific digits exponent) := by
  have hexponent : IsExponent ('e' :: (if 0 ≤ exponent then '+' else '-') ::
      decimal exponent.natAbs) := by
    refine .mark ?_ (isDigits_decimal _)
    split
    · exact .inl rfl
    · exact .inr rfl
  obtain ⟨d, more, rfl⟩ := List.exists_cons_of_ne_nil h.1
  have hwhole : IsDigits [d] := ⟨by simp, fun c hc => h.2 c (by simp_all)⟩
  have hzero : [d].head? = some '0' → [d] = ['0'] := by simp
  cases more with
  | nil => exact isNumeral_parts negative hwhole hzero .absent hexponent
  | cons d' more =>
      have hfraction : IsDigits (d' :: more) := ⟨by simp, fun c hc => h.2 c (by simp_all)⟩
      exact isNumeral_parts negative hwhole hzero (.point hfraction) hexponent

/-- Every number is written as a numeral. -/
theorem isNumeral_numberChars (n : Number) : IsNumeral (numberChars n) := by
  have hdecimal (negative : Bool) (n : Nat) :
      IsNumeral ((if negative then ['-'] else []) ++ (decimal n ++ ([] ++ []))) := by
    refine isNumeral_parts negative (isDigits_decimal n) (fun hhead => ?_) .absent .absent
    rw [eq_zero_of_head?_decimal hhead]
    rfl
  match n with
  | .whole (.ofNat n) => simpa [numberChars] using hdecimal false n
  | .whole (.negSucc n) => simpa [numberChars] using hdecimal true (n + 1)
  | .double x =>
      rw [numberChars, doubleChars]
      dsimp only
      by_cases hx : x.isZero = true
      · rw [if_pos hx]
        exact isNumeral_parts x.negative isDigits_zero (fun _ => rfl) (.point isDigits_zero) .absent
      rw [if_neg hx]
      by_cases hpoint : -5 < ((decimal x.shortest.digits).length : Int) + x.shortest.exponent ∧
          ((decimal x.shortest.digits).length : Int) + x.shortest.exponent ≤ 16
      · rw [if_pos hpoint]
        refine isNumeral_positional x.negative (isDigits_decimal _) fun hhead => ?_
        have hdigits := eq_zero_of_head?_decimal hhead
        rw [Double.exponent_shortest hdigits, hdigits]
        exact ⟨rfl, by decide⟩
      · rw [if_neg hpoint]
        exact isNumeral_scientific x.negative (isDigits_decimal _) _

/-- The number that is read where a number has been written. -/
def rereadNumber? (n : Number) : Option Number :=
  (readNumeral (numberChars n)).bind fun (numeral, _) => numeral.value

theorem exists_readNumeral (n : Number) : ∃ numeral : Numeral, numeral.value = rereadNumber? n ∧
    ∀ rest, EndsNumeral rest → readNumeral (numberChars n ++ rest) = some (numeral, rest) := by
  obtain ⟨numeral, hread⟩ := isNumeral_numberChars n
  have hnil := hread [] nofun
  rw [List.append_nil] at hnil
  exact ⟨numeral, by rw [rereadNumber?, hnil]; rfl, hread⟩

/-- The digits of a number that fits are taken one after another. -/
theorem foldl_pushWhole_decimal {n : Nat} (h : n ≤ maxSignificand) :
    ((decimal n).map digitValue).foldl Accumulator.pushWhole ⟨0, 0, false⟩ = ⟨n, 0, false⟩ := by
  have hpush {m d : Nat} (hd : d < 10) (h : m * 10 + d ≤ maxSignificand) :
      (⟨m, 0, false⟩ : Accumulator).pushWhole (digitValue d.digitChar) =
        ⟨m * 10 + d, 0, false⟩ := by
    have hvalue : digitValue d.digitChar = d := Nat.toNat_digitChar_sub_48_of_lt_ten hd
    simp [Accumulator.pushWhole, hvalue, Nat.not_lt.mpr h]
  unfold decimal
  induction n using Nat.strongRecOn with
  | ind n ih =>
      rw [Nat.toDigits_eq_if (by decide)]
      split
      next hlt => simpa using hpush (m := 0) hlt (by omega)
      next hle =>
        have hlast := hpush (m := n / 10) (d := n % 10) (by omega) (by omega)
        rw [Nat.div_add_mod' n 10] at hlast
        rw [List.map_append, List.foldl_append, ih (n / 10) (by omega) (by omega)]
        exact hlast

/-- Whole numbers are read as they were written. -/
theorem rereadNumber?_whole {z : Int} (hlow : -9223372036854775808 ≤ z)
    (hhigh : z ≤ maxSignificand) : rereadNumber? (.whole z) = some (.whole z) := by
  have hread (negative : Bool) (n : Nat) :
      readNumeral ((if negative then ['-'] else []) ++ (decimal n ++ [])) =
        some (⟨negative, (decimal n).map digitValue, none, none⟩, []) :=
    readNumeral_parts negative (isDigits_decimal n)
      (fun hhead => by rw [eq_zero_of_head?_decimal hhead]; rfl) (fun c hc => by cases hc) rfl rfl
  cases z with
  | ofNat n =>
      have hvalue := foldl_pushWhole_decimal (n := n) (Int.ofNat_le.mp hhigh)
      have hread := hread false n
      rw [List.append_nil] at hread
      rw [rereadNumber?, numberChars]
      simp only [Bool.false_eq_true, if_false, List.nil_append] at hread
      rw [hread, Option.bind_some]
      simp [Numeral.value, hvalue]
  | negSucc n =>
      have hvalue := foldl_pushWhole_decimal (n := n + 1) (by unfold maxSignificand; omega)
      have hread := hread true (n + 1)
      rw [List.append_nil] at hread
      simp only [if_true, List.singleton_append] at hread
      rw [rereadNumber?, numberChars, hread, Option.bind_some]
      have hfits : ¬ 9223372036854775808 < n + 1 := by omega
      have hsame : -((n : Int) + 1) = Int.negSucc n := by omega
      simp [Numeral.value, hvalue, hfits, hsame]

end EditorHost.Json
