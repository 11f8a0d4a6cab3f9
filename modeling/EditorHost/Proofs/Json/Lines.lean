import EditorHost.Json.Printer
import EditorHost.Json.Tree
import EditorHost.Proofs.Text.Octets

/-!
# The lines of a JSON text

Between the tokens of a JSON text there may be line ends, but there is none within a token, because
control characters in strings are escaped.  So every line of a text, behind the blanks that it
begins with, begins with a token (`beginsTidily_of_parse?`).  The compact form has one line only
(`printable_compactChars`).
-/

namespace EditorHost.Json

/-- Whether a token can begin with a character. -/
def beginsToken (c : Char) : Bool := "{}[],:\"-tfn".toList.contains c || c.isDigit

/-- What comes first behind blanks is a token, unless nothing comes. -/
def TokenFirst (cs : List Char) : Prop := ∀ c rest, skipBlanks cs = c :: rest → beginsToken c = true

/-- Behind every line end a token comes first. -/
def TokenLines (cs : List Char) : Prop := ∀ rest, '\n' :: rest <:+ cs → TokenFirst rest

/-! ## Blanks and tokens -/

theorem not_isBlank_of_beginsToken {c : Char} (h : beginsToken c = true) : isBlank c = false := by
  cases hblank : isBlank c with
  | false => rfl
  | true =>
      have hcases : ((c = ' ' ∨ c = '\n') ∨ c = '\t') ∨ c = '\r' := by simpa [isBlank] using hblank
      rcases hcases with ((rfl | rfl) | rfl) | rfl <;> exact absurd h (by decide)

theorem ne_newline_of_beginsToken {c : Char} (h : beginsToken c = true) : c ≠ '\n' := by
  rintro rfl
  exact absurd h (by decide)

theorem tokenFirst_cons {c : Char} (h : beginsToken c = true) (rest : List Char) :
    TokenFirst (c :: rest) := by
  intro d after hd
  rw [skipBlanks, List.dropWhile_cons_of_neg (by simp [not_isBlank_of_beginsToken h])] at hd
  cases hd
  exact h

theorem tokenLines_nil : TokenLines [] := fun rest h => by simp at h

/-- A character that is no line end begins no line behind it. -/
theorem tokenLines_cons {c : Char} (hc : c ≠ '\n') {rest : List Char} (h : TokenLines rest) :
    TokenLines (c :: rest) := by
  intro after hafter
  rcases List.suffix_cons_iff.mp hafter with heq | hsuffix
  · exact absurd (List.cons.inj heq).1.symm hc
  · exact h after hsuffix

theorem tokenLines_append {token rest : List Char} (htoken : '\n' ∉ token) (h : TokenLines rest) :
    TokenLines (token ++ rest) := by
  induction token with
  | nil => exact h
  | cons c token ih =>
      rw [List.mem_cons, not_or] at htoken
      exact tokenLines_cons (Ne.symm htoken.1) (ih htoken.2)

/-- Blanks before a text do no harm. -/
theorem tidy_of_skipBlanks {cs : List Char} (hfirst : TokenFirst (skipBlanks cs))
    (hlines : TokenLines (skipBlanks cs)) : TokenFirst cs ∧ TokenLines cs := by
  induction cs with
  | nil => exact ⟨hfirst, hlines⟩
  | cons c rest ih =>
      by_cases hblank : isBlank c = true
      · -- Behind a line end among the blanks stands what is left to skip, and then a token.
        have hskip : skipBlanks (c :: rest) = skipBlanks rest := List.dropWhile_cons_of_pos hblank
        rw [hskip] at hfirst hlines
        obtain ⟨hrest, hlater⟩ := ih hfirst hlines
        refine ⟨fun d after hd => hrest d after (hskip ▸ hd), fun after hafter => ?_⟩
        rcases List.suffix_cons_iff.mp hafter with heq | hsuffix
        · cases heq
          exact hrest
        · exact hlater after hsuffix
      · have hskip : skipBlanks (c :: rest) = c :: rest := List.dropWhile_cons_of_neg hblank
        rw [hskip] at hfirst hlines
        exact ⟨hfirst, hlines⟩

theorem TokenFirst.beginning {line cs : List Char} (h : TokenFirst cs) (hline : line <+: cs) :
    TokenFirst line := by
  obtain ⟨more, rfl⟩ := hline
  intro c rest hskip
  refine h c (rest ++ more) ?_
  rw [skipBlanks] at hskip ⊢
  rw [List.dropWhile_append, hskip]
  rfl

/-- A token stays the first one, whatever comes behind it. -/
theorem TokenFirst.append {cs : List Char} (h : TokenFirst cs) (hne : skipBlanks cs ≠ [])
    (more : List Char) : TokenFirst (cs ++ more) := by
  intro c rest hskip
  obtain ⟨d, after, hd⟩ := List.exists_cons_of_ne_nil hne
  have hsame : skipBlanks (cs ++ more) = d :: (after ++ more) := by
    rw [skipBlanks] at hd ⊢
    rw [List.dropWhile_append, hd]
    rfl
  rw [hsame] at hskip
  cases hskip
  exact h _ after hd

/-- Every line of a tidy text begins with a token. -/
theorem tokenFirst_of_mem_split {cs : List Char} (hfirst : TokenFirst cs) (hlines : TokenLines cs) :
    ∀ line ∈ Text.split '\n' cs, TokenFirst line := by
  induction hlength : cs.length using Nat.strongRecOn generalizing cs with
  | ind length ih =>
      intro line hline
      by_cases hmem : '\n' ∈ cs
      · obtain ⟨first, rest, rfl, hnot⟩ := List.eq_append_cons_of_mem hmem
        rw [Text.split_append, Text.split_of_not_mem hnot] at hline
        rcases List.mem_append.mp hline with hline | hline
        · rw [List.mem_singleton.mp hline]
          exact hfirst.beginning (List.prefix_append _ _)
        · -- The lines behind the first one are those of a shorter tidy text.
          have hsuffix : '\n' :: rest <:+ first ++ '\n' :: rest := List.suffix_append _ _
          have hless : rest.length < length := by
            rw [← hlength]
            simp
            omega
          refine ih rest.length hless (hlines rest hsuffix) ?_ rfl _ hline
          exact fun after hafter =>
            hlines after (hafter.trans ((List.suffix_cons _ _).trans hsuffix))
      · rw [Text.split_of_not_mem hmem] at hline
        rw [List.mem_singleton.mp hline]
        exact hfirst

/-- A token behind blanks, with tidy lines behind it. -/
theorem tidy_of_token {cs rest : List Char} {c : Char} (hskip : skipBlanks cs = c :: rest)
    (hc : beginsToken c = true) (hrest : TokenLines rest) : TokenFirst cs ∧ TokenLines cs := by
  apply tidy_of_skipBlanks <;> rw [hskip]
  · exact tokenFirst_cons hc rest
  · exact tokenLines_cons (ne_newline_of_beginsToken hc) hrest

/-! ## Tokens have no line ends -/

/-- The text is a token without line ends and what is behind it. -/
def TakesToken (cs after : List Char) : Prop := ∃ token, cs = token ++ after ∧ '\n' ∉ token

theorem TakesToken.lines {cs after : List Char} (h : TakesToken cs after)
    (hafter : TokenLines after) : TokenLines cs := by
  obtain ⟨token, rfl, htoken⟩ := h
  exact tokenLines_append htoken hafter

theorem TakesToken.refl (cs : List Char) : TakesToken cs cs := ⟨[], rfl, List.not_mem_nil⟩

theorem TakesToken.cons {cs after : List Char} {c : Char} (hc : c ≠ '\n')
    (h : TakesToken cs after) : TakesToken (c :: cs) after := by
  obtain ⟨token, rfl, htoken⟩ := h
  exact ⟨c :: token, rfl, by simpa [Ne.symm hc] using htoken⟩

theorem TakesToken.trans {cs middle after : List Char} (h : TakesToken cs middle)
    (h' : TakesToken middle after) : TakesToken cs after := by
  obtain ⟨token, rfl, htoken⟩ := h
  obtain ⟨more, rfl, hmore⟩ := h'
  exact ⟨token ++ more, by simp, by simp [htoken, hmore]⟩

theorem ne_newline_of_printable {c : Char} (h : ¬ c.toNat < 0x20) : c ≠ '\n' := by
  rintro rfl
  exact h (by decide)

theorem ne_newline_of_shortEscape? {c e : Char} (h : shortEscape? c = some e) : c ≠ '\n' := by
  rintro rfl
  cases h

theorem hexDigit?_newline : hexDigit? '\n' = none := by decide

theorem takesToken_escape {a b c d : Char} {rest after : List Char} {unit : Nat}
    (hunit : codeUnit? a b c d = some unit) (h : TakesToken rest after) :
    TakesToken ('\\' :: 'u' :: a :: b :: c :: d :: rest) after := by
  have hdigits : a ≠ '\n' ∧ b ≠ '\n' ∧ c ≠ '\n' ∧ d ≠ '\n' := by
    -- A line end is no hexadecimal digit.
    refine ⟨?_, ?_, ?_, ?_⟩ <;> rintro rfl <;> simp [codeUnit?, hexDigit?_newline] at hunit
  obtain ⟨ha, hb, hc, hd⟩ := hdigits
  exact .cons (by decide) (.cons (by decide) (.cons ha (.cons hb (.cons hc (.cons hd h)))))

theorem prepend_snd (c : Char) (rest : Option (Option (List Char) × List Char)) :
    (prepend c rest).map Prod.snd = rest.map Prod.snd := by
  rw [prepend, Option.map_map]
  rfl

theorem spoil_snd (rest : Option (Option (List Char) × List Char)) :
    (spoil rest).map Prod.snd = rest.map Prod.snd := by
  rw [spoil, Option.map_map]
  rfl

/-- There is no line end in a string. -/
theorem takesToken_readString {high : Option Nat} {cs after : List Char}
    (h : (readString high cs).map Prod.snd = some after) : TakesToken cs after := by
  -- By the function's own recursion; whether a text comes out of it does not matter here.
  induction high, cs using readString.induct with
  | case1 high => cases h
  | case2 high rest =>
      cases h
      exact .cons (by decide) (.refl _)
  | case3 high a b c d rest hunit =>
      rw [readString.eq_3 _ _ _ _ _ _ hunit] at h
      cases h
  | case4 a b c d rest unit high hunit hlow ih =>
      rw [readString.eq_4 _ _ _ _ _ _ _ hunit, if_pos hlow, prepend_snd] at h
      exact takesToken_escape hunit (ih h)
  | case5 a b c d rest unit high hunit hlow ih =>
      rw [readString.eq_4 _ _ _ _ _ _ _ hunit, if_neg hlow, spoil_snd] at h
      exact takesToken_escape hunit (ih h)
  | case6 a b c d rest unit hunit hhigh ih =>
      rw [readString.eq_5 _ _ _ _ _ _ hunit, if_pos hhigh] at h
      exact takesToken_escape hunit (ih h)
  | case7 a b c d rest unit hunit hhigh hlow ih =>
      rw [readString.eq_5 _ _ _ _ _ _ hunit, if_neg hhigh, if_pos hlow, spoil_snd] at h
      exact takesToken_escape hunit (ih h)
  | case8 a b c d rest unit hunit hhigh hlow ih =>
      rw [readString.eq_5 _ _ _ _ _ _ hunit, if_neg hhigh, if_neg hlow, prepend_snd] at h
      exact takesToken_escape hunit (ih h)
  | case9 high c rest hu e he hhigh ih =>
      rw [readString.eq_6 _ _ _ hu, he] at h
      dsimp only at h
      rw [if_pos hhigh, spoil_snd] at h
      exact .cons (by decide) (.cons (ne_newline_of_shortEscape? he) (ih h))
  | case10 high c rest hu e he hhigh ih =>
      rw [readString.eq_6 _ _ _ hu, he] at h
      dsimp only at h
      rw [if_neg hhigh, prepend_snd] at h
      exact .cons (by decide) (.cons (ne_newline_of_shortEscape? he) (ih h))
  | case11 high c rest hu he =>
      rw [readString.eq_6 _ _ _ hu, he] at h
      cases h
  | case12 high c rest hquote hu hescape hcontrol =>
      rw [readString.eq_7 _ _ _ hquote hu hescape, if_pos hcontrol] at h
      cases h
  | case13 high c rest hquote hu hescape hcontrol hhigh ih =>
      rw [readString.eq_7 _ _ _ hquote hu hescape, if_neg hcontrol, if_pos hhigh, spoil_snd] at h
      exact .cons (ne_newline_of_printable fun hless => hcontrol (.inl hless)) (ih h)
  | case14 high c rest hquote hu hescape hcontrol hhigh ih =>
      rw [readString.eq_7 _ _ _ hquote hu hescape, if_neg hcontrol, if_neg hhigh, prepend_snd] at h
      exact .cons (ne_newline_of_printable fun hless => hcontrol (.inl hless)) (ih h)

theorem ne_newline_of_isDigit {c : Char} (h : c.isDigit = true) : c ≠ '\n' := by
  rintro rfl
  exact absurd h (by decide)

theorem takesToken_readDigits (cs : List Char) : TakesToken cs (readDigits cs).2 := by
  refine ⟨cs.takeWhile Char.isDigit, List.takeWhile_append_dropWhile.symm, fun hmem => ?_⟩
  exact ne_newline_of_isDigit (List.all_eq_true.mp List.all_takeWhile _ hmem) rfl

theorem takesToken_readFraction {cs after : List Char} {fraction : Option (List Nat)}
    (h : readFraction cs = some (fraction, after)) : TakesToken cs after := by
  unfold readFraction at h
  split at h
  next rest =>
    split at h
    · cases h
    next digits after' hdigits hread =>
      cases h
      have htakes := takesToken_readDigits rest
      rw [hread] at htakes
      exact .cons (by decide) htakes
  · cases h
    exact .refl _

theorem takesToken_readExponent {cs after : List Char} {exponent : Option (Bool × List Nat)}
    (h : readExponent cs = some (exponent, after)) : TakesToken cs after := by
  unfold readExponent at h
  split at h
  next c rest =>
    split at h
    next hmark =>
      have hc : c ≠ '\n' := by rcases hmark with rfl | rfl <;> decide
      dsimp only at h
      split at h
      · cases h
      next digits after' _ hdigits =>
        cases h
        refine .cons hc (.trans ?_ (hdigits ▸ takesToken_readDigits _))
        split
        · exact .cons (by decide) (.refl _)
        · exact .cons (by decide) (.refl _)
        · exact .refl _
    · cases h
      exact .refl _
  · cases h
    exact .refl _

theorem takesToken_readNumeral {cs after : List Char} {n : Numeral}
    (h : readNumeral cs = some (n, after)) : TakesToken cs after := by
  unfold readNumeral at h
  dsimp only [Option.bind_eq_bind] at h
  split at h
  · cases h
  · cases h
  next whole _ _ =>
    simp only [Option.bind_some, Option.bind_eq_some_iff] at h
    obtain ⟨⟨fraction, cs₁⟩, hfraction, ⟨exponent, cs₂⟩, hexponent, heq⟩ := h
    cases heq
    refine .trans (.trans ?_ (takesToken_readDigits _))
      (.trans (takesToken_readFraction hfraction) (takesToken_readExponent hexponent))
    split
    · exact .cons (by decide) (.refl _)
    · exact .refl _

theorem takesToken_expect? {word cs after : List Char} (hword : '\n' ∉ word)
    (h : expect? word cs = some after) : TakesToken cs after := by
  induction word generalizing cs with
  | nil =>
      cases h
      exact .refl _
  | cons w word ih =>
      cases cs with
      | nil => cases h
      | cons c cs =>
          rw [List.mem_cons, not_or] at hword
          rw [expect?] at h
          split at h
          next heq => exact .cons (heq ▸ Ne.symm hword.1) (ih hword.2 h)
          · cases h

/-! ## Values -/

/-- The text begins with a token, behind which all lines begin with one. -/
def BeginsTidily (cs : List Char) : Prop :=
  ∃ c rest, skipBlanks cs = c :: rest ∧ beginsToken c = true ∧ TokenLines rest

theorem BeginsTidily.first {cs : List Char} (h : BeginsTidily cs) : TokenFirst cs := by
  obtain ⟨c, rest, hskip, hc, hrest⟩ := h
  exact (tidy_of_token hskip hc hrest).1

theorem BeginsTidily.lines {cs : List Char} (h : BeginsTidily cs) : TokenLines cs := by
  obtain ⟨c, rest, hskip, hc, hrest⟩ := h
  exact (tidy_of_token hskip hc hrest).2

theorem skipBlanks_skipBlanks (cs : List Char) : skipBlanks (skipBlanks cs) = skipBlanks cs := by
  induction cs with
  | nil => rfl
  | cons c cs ih =>
      by_cases hblank : isBlank c = true
      · rwa [show skipBlanks (c :: cs) = skipBlanks cs from List.dropWhile_cons_of_pos hblank]
      · rw [show skipBlanks (c :: cs) = c :: cs from List.dropWhile_cons_of_neg hblank]
        exact List.dropWhile_cons_of_neg hblank

/-- What begins tidily behind blanks does so before them. -/
theorem BeginsTidily.of_skipBlanks {cs : List Char} (h : BeginsTidily (skipBlanks cs)) :
    BeginsTidily cs := by
  rwa [BeginsTidily, skipBlanks_skipBlanks] at h

theorem beginsToken_readNumeral {cs after : List Char} {n : Numeral}
    (h : readNumeral cs = some (n, after)) : ∃ c rest, cs = c :: rest ∧ beginsToken c = true := by
  cases cs with
  | nil => cases h
  | cons c rest =>
      refine ⟨c, rest, rfl, ?_⟩
      by_cases hminus : c = '-'
      · subst hminus
        decide
      · cases hdigit : c.isDigit with
        | true => simp [beginsToken, hdigit]
        | false =>
            -- Without a sign and a digit there is no whole part, and so no numeral.
            have hnone : readDigits (c :: rest) = ([], c :: rest) := by
              simp [readDigits, hdigit]
            unfold readNumeral at h
            split at h
            next heq =>
              split at heq
              next heq' => exact absurd (List.cons.inj heq').1 hminus
              · cases heq
                simp [hnone] at h

/-- What a reader takes begins tidily when all lines behind it begin with a token. -/
def ReadsTidily {α : Type} (reader : List Char → Option (α × List Char)) : Prop :=
  ∀ cs value after, reader cs = some (value, after) → TokenLines after → BeginsTidily cs

theorem readsTidily_readValue_succ {fuel : Nat} (hfields : ReadsTidily (readFields fuel))
    (hitems : ReadsTidily (readItems fuel)) : ReadsTidily (readValue (fuel + 1)) := by
  intro cs value after h hafter
  rw [readValue] at h
  split at h
  next rest hskip =>
    refine ⟨'{', rest, hskip, by decide, ?_⟩
    split at h
    next after' hclose =>
      cases h
      exact (tidy_of_token hclose (by decide) hafter).2
    · obtain ⟨⟨fields, after'⟩, hread, heq⟩ := Option.map_eq_some_iff.mp h
      cases heq
      exact (hfields _ _ _ hread hafter).of_skipBlanks.lines
  next rest hskip =>
    refine ⟨'[', rest, hskip, by decide, ?_⟩
    split at h
    next after' hclose =>
      cases h
      exact (tidy_of_token hclose (by decide) hafter).2
    · obtain ⟨⟨items, after'⟩, hread, heq⟩ := Option.map_eq_some_iff.mp h
      cases heq
      exact (hitems _ _ _ hread hafter).of_skipBlanks.lines
  next rest hskip =>
    obtain ⟨⟨text, after'⟩, hread, heq⟩ := Option.map_eq_some_iff.mp h
    cases heq
    exact ⟨'"', rest, hskip, by decide,
      (takesToken_readString (by rw [hread]; rfl)).lines hafter⟩
  next rest hskip =>
    obtain ⟨after', hread, heq⟩ := Option.map_eq_some_iff.mp h
    cases heq
    exact ⟨'t', rest, hskip, by decide, (takesToken_expect? (by decide) hread).lines hafter⟩
  next rest hskip =>
    obtain ⟨after', hread, heq⟩ := Option.map_eq_some_iff.mp h
    cases heq
    exact ⟨'f', rest, hskip, by decide, (takesToken_expect? (by decide) hread).lines hafter⟩
  next rest hskip =>
    obtain ⟨after', hread, heq⟩ := Option.map_eq_some_iff.mp h
    cases heq
    exact ⟨'n', rest, hskip, by decide, (takesToken_expect? (by decide) hread).lines hafter⟩
  · obtain ⟨⟨n, after'⟩, hread, heq⟩ := Option.map_eq_some_iff.mp h
    cases heq
    obtain ⟨c, rest, hskip, hc⟩ := beginsToken_readNumeral hread
    have hlines := (takesToken_readNumeral hread).lines hafter
    rw [hskip] at hlines
    exact ⟨c, rest, hskip, hc, fun after' hsuffix =>
      hlines after' (hsuffix.trans (List.suffix_cons c rest))⟩

theorem readsTidily_readItems_succ {fuel : Nat} (hvalue : ReadsTidily (readValue fuel))
    (hitems : ReadsTidily (readItems fuel)) : ReadsTidily (readItems (fuel + 1)) := by
  intro cs items after h hafter
  rw [readItems, Option.bind_eq_bind, Option.bind_eq_some_iff] at h
  obtain ⟨⟨item, rest⟩, hread, h⟩ := h
  refine hvalue _ _ _ hread ?_
  dsimp only at h
  split at h
  next after' hclose =>
    cases h
    exact (tidy_of_token hclose (by decide) hafter).2
  next rest' hcomma =>
    obtain ⟨⟨more, after'⟩, hmore, heq⟩ := Option.bind_eq_some_iff.mp h
    cases heq
    exact (tidy_of_token hcomma (by decide) (hitems _ _ _ hmore hafter).lines).2
  · cases h

theorem readsTidily_readFields_succ {fuel : Nat} (hvalue : ReadsTidily (readValue fuel))
    (hfields : ReadsTidily (readFields fuel)) : ReadsTidily (readFields (fuel + 1)) := by
  intro cs fields after h hafter
  rw [readFields] at h
  split at h
  next rest hquote =>
    rw [Option.bind_eq_bind, Option.bind_eq_some_iff] at h
    obtain ⟨⟨name, rest'⟩, hname, h⟩ := h
    refine ⟨'"', rest, hquote, by decide,
      (takesToken_readString (by rw [hname]; rfl)).lines ?_⟩
    dsimp only at h
    split at h
    next behind hcolon =>
      obtain ⟨⟨value, rest''⟩, hread, h⟩ := Option.bind_eq_some_iff.mp h
      refine (tidy_of_token hcolon (by decide) (hvalue _ _ _ hread ?_).lines).2
      dsimp only at h
      split at h
      next after' hclose =>
        cases h
        exact (tidy_of_token hclose (by decide) hafter).2
      next more hcomma =>
        obtain ⟨⟨others, after'⟩, hmore, heq⟩ := Option.bind_eq_some_iff.mp h
        cases heq
        exact (tidy_of_token hcomma (by decide) (hfields _ _ _ hmore hafter).lines).2
      · cases h
    · cases h
  · cases h

/-- By the fuel, all three readers at once. -/
theorem readsTidily (fuel : Nat) : ReadsTidily (readValue fuel) ∧ ReadsTidily (readItems fuel) ∧
    ReadsTidily (readFields fuel) := by
  induction fuel with
  | zero => refine ⟨?_, ?_, ?_⟩ <;> exact fun cs value after h => nomatch h
  | succ fuel ih =>
      obtain ⟨hvalue, hitems, hfields⟩ := ih
      exact ⟨readsTidily_readValue_succ hfields hitems, readsTidily_readItems_succ hvalue hitems,
        readsTidily_readFields_succ hvalue hfields⟩

/-- A JSON text begins with a token, and so do all its lines that are not blank. -/
theorem beginsTidily_of_parse? {text : String} {v : Json} (h : parse? text = some v) :
    BeginsTidily text.toList := by
  rw [parse?, Option.bind_eq_bind, Option.bind_eq_some_iff] at h
  obtain ⟨tree, hparse, -⟩ := h
  rw [Tree.parse?, Option.bind_eq_bind, Option.bind_eq_some_iff] at hparse
  obtain ⟨⟨tree', rest⟩, hread, hend⟩ := hparse
  refine (readsTidily _).1 _ _ _ hread ?_
  dsimp only at hend
  split at hend
  next hblank =>
    have hnil : skipBlanks rest = [] := List.isEmpty_iff.mp hblank
    refine (tidy_of_skipBlanks ?_ ?_).2 <;> rw [hnil]
    · exact fun c more hmore => by cases hmore
    · exact tokenLines_nil
  · cases hend

/-! ## The compact form -/

section Compact

/-- All characters of the text are printable. -/
def Printable (cs : List Char) : Prop := ∀ c ∈ cs, 0x20 ≤ c.toNat

theorem Printable.append {first second : List Char} (hfirst : Printable first)
    (hsecond : Printable second) : Printable (first ++ second) := by
  intro c hc
  rcases List.mem_append.mp hc with hc | hc
  · exact hfirst c hc
  · exact hsecond c hc

theorem Printable.cons {c : Char} {rest : List Char} (hc : 0x20 ≤ c.toNat)
    (hrest : Printable rest) : Printable (c :: rest) :=
  List.forall_mem_cons.mpr ⟨hc, hrest⟩

theorem Printable.newline {cs : List Char} (h : Printable cs) : '\n' ∉ cs :=
  fun hmem => absurd (h _ hmem) (by decide)

theorem printable_nil : Printable [] := fun _ h => by cases h

theorem printable_word {cs : List Char} (h : cs.all (fun c => decide (0x20 ≤ c.toNat)) = true) :
    Printable cs := fun c hc => of_decide_eq_true (List.all_eq_true.mp h c hc)

theorem printable_decimal (n : Nat) : Printable (decimal n) := by
  intro c hc
  have hdigit := Nat.isDigit_of_mem_toDigits (b := 10) (by decide) (by decide) hc
  have hbounds : 48 ≤ c.toNat ∧ c.toNat ≤ 57 := by
    simpa [Char.isDigit, UInt32.le_iff_toNat_le] using hdigit
  omega

theorem printable_replicate (n : Nat) : Printable (List.replicate n '0') := by
  intro c hc
  rw [List.eq_of_mem_replicate hc]
  decide

theorem Printable.take {cs : List Char} (h : Printable cs) (n : Nat) : Printable (cs.take n) :=
  fun c hc => h c (List.mem_of_mem_take hc)

theorem Printable.drop {cs : List Char} (h : Printable cs) (n : Nat) : Printable (cs.drop n) :=
  fun c hc => h c (List.mem_of_mem_drop hc)

theorem printable_scientific {digits : List Char} (h : Printable digits) (exponent : Int) :
    Printable (scientific digits exponent) := by
  refine .append ?_ (.cons (by decide) (.cons ?_ (printable_decimal _)))
  · split
    · exact printable_nil
    · exact h
    next d rest _ =>
      exact .cons (h d List.mem_cons_self)
        (.cons (by decide) fun c hc => h c (List.mem_cons_of_mem _ hc))
  · split <;> decide

theorem printable_positional {digits : List Char} (h : Printable digits) (point : Int) :
    Printable (positional digits point) := by
  rw [positional]
  split
  · exact .append (.cons (by decide) (.cons (by decide) (printable_replicate _))) h
  · dsimp only
    split
    · exact .append (.append h (printable_replicate _))
        (.cons (by decide) (.cons (by decide) printable_nil))
    · exact .append (h.take _) (.cons (by decide) (h.drop _))

theorem printable_doubleChars (x : Double) : Printable (doubleChars x) := by
  have hsign : Printable (if x.negative then ['-'] else []) := by
    split
    · exact .cons (by decide) printable_nil
    · exact printable_nil
  rw [doubleChars]
  dsimp only
  split
  · exact .append hsign (.cons (by decide) (.cons (by decide) (.cons (by decide) printable_nil)))
  · refine .append hsign ?_
    split
    · exact printable_positional (printable_decimal _) _
    · exact printable_scientific (printable_decimal _) _

theorem printable_numberChars (n : Number) : Printable (numberChars n) := by
  unfold numberChars
  split
  · exact printable_decimal _
  · exact .cons (by decide) (printable_decimal _)
  · exact printable_doubleChars _

theorem printable_hexChar : ∀ n < 16, 0x20 ≤ (hexChar n).toNat := by decide

theorem printable_escapeChar (c : Char) : Printable (escapeChar c) := by
  have hpair (d : Char) (hd : 0x20 ≤ d.toNat) : Printable ['\\', d] :=
    .cons (by decide) (.cons hd printable_nil)
  unfold escapeChar
  repeat' split
  all_goals try exact hpair _ (by decide)
  next hcontrol =>
    refine .cons (by decide) (.cons (by decide) (.cons (by decide) (.cons (by decide) ?_)))
    exact .cons (printable_hexChar _ (by omega))
      (.cons (printable_hexChar _ (Nat.mod_lt _ (by decide))) printable_nil)
  next hcontrol => exact .cons (by omega) printable_nil

theorem printable_quoted (s : String) : Printable (quoted s) := by
  refine .cons (by decide) (.append (fun c hc => ?_) (.cons (by decide) printable_nil))
  obtain ⟨d, -, hd⟩ := List.mem_flatMap.mp hc
  exact printable_escapeChar d c hd

mutual
theorem printable_compactChars : ∀ v : Json, Printable (compactChars v)
  | .null => printable_word (by decide)
  | .bool true => printable_word (by decide)
  | .bool false => printable_word (by decide)
  | .number n => printable_numberChars n
  | .text s => printable_quoted s
  | .array items => .cons (by decide)
      (.append (printable_compactItems items) (.cons (by decide) printable_nil))
  | .object fields => .cons (by decide)
      (.append (printable_compactFields fields) (.cons (by decide) printable_nil))

theorem printable_compactItems : ∀ items : List Json, Printable (compactItems items)
  | [] => printable_nil
  | [v] => printable_compactChars v
  | v :: w :: rest =>
      .append (printable_compactChars v) (.cons (by decide) (printable_compactItems (w :: rest)))

theorem printable_compactFields : ∀ fields : List (String × Json), Printable (compactFields fields)
  | [] => printable_nil
  | [(k, v)] => .append (printable_quoted k) (.cons (by decide) (printable_compactChars v))
  | (k, v) :: w :: rest =>
      .append (.append (printable_quoted k) (.cons (by decide) (printable_compactChars v)))
        (.cons (by decide) (printable_compactFields (w :: rest)))
end

end Compact

end EditorHost.Json
