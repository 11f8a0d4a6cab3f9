import EditorHost.Rpc.Frame

/-!
# Streams in chunks

The octets of a stream arrive in chunks that are cut anywhere, also within a line end, a character
or a body.  What is read from them does not depend on the cuts: `feedAll_eq` says that feeding the
chunks one after another gives the items, and leaves the octets, of feeding all octets at once.

The reason is that nothing is decided too early.  What the octets that have arrived begin with stays
the same when more octets arrive (`next_append`), and every item takes some octets (`next_length`),
so that reading comes to an end.
-/

namespace EditorHost.Rpc

/-! ## The end of a header -/

/-- The line end and the empty line behind a header. -/
def emptyLine : List UInt8 := [13, 10, 13, 10]

theorem header_prefix (header body : List UInt8) :
    header ++ [13, 10, 13] <+: header ++ emptyLine ++ body :=
  ⟨10 :: body, by simp [emptyLine]⟩

/-- A header ends at the first empty line, and what is behind it may be anything. -/
theorem splitHeader_iff {octets header body : List UInt8} :
    splitHeader octets = some (header, body) ↔
      octets = header ++ emptyLine ++ body ∧ ¬ emptyLine <:+: header ++ [13, 10, 13] := by
  constructor
  · intro h
    induction octets using splitHeader.induct generalizing header with
    | case1 rest =>
        cases h
        exact ⟨rfl, by decide⟩
    | case2 octet rest hother ih =>
        rw [splitHeader, Option.map_eq_some_iff] at h
        · obtain ⟨⟨header', body'⟩, hrest, heq⟩ := h
          cases heq
          obtain ⟨hoctets, hfirst⟩ := ih hrest
          refine ⟨by rw [hoctets]; rfl, fun hinfix => ?_⟩
          -- An earlier empty line could only be at the very beginning, where this case has none.
          rcases List.infix_cons_iff.mp hinfix with hprefix | hinfix
          · obtain ⟨rest', hrest'⟩ := hprefix.trans (List.cons_prefix_cons.mpr
              ⟨rfl, header_prefix header' body⟩)
            rw [← hoctets] at hrest'
            cases hrest'
            exact hother rest' rfl rfl
          · exact hfirst hinfix
        · exact hother
    | case3 => cases h
  · rintro ⟨rfl, hfirst⟩
    induction header with
    | nil => rfl
    | cons octet header ih =>
        rw [List.cons_append, List.cons_append, splitHeader, ih]
        · rfl
        · exact fun hinfix => hfirst (List.infix_cons hinfix)
        · -- At the very beginning it would be within the header and the first three octets behind.
          rintro rest rfl hrest
          have hlong : emptyLine.length ≤ (13 :: (header ++ [13, 10, 13])).length := by
            simp [emptyLine]
          have hprefix : emptyLine <+: 13 :: (header ++ emptyLine ++ body) := by
            rw [hrest]
            exact ⟨rest, rfl⟩
          exact hfirst (List.prefix_of_prefix_length_le hprefix
            (List.cons_prefix_cons.mpr ⟨rfl, header_prefix header body⟩) hlong).isInfix

/-- A header that has arrived stays the same when more octets arrive. -/
theorem splitHeader_append {octets header body : List UInt8}
    (h : splitHeader octets = some (header, body)) (more : List UInt8) :
    splitHeader (octets ++ more) = some (header, body ++ more) := by
  obtain ⟨rfl, hfirst⟩ := splitHeader_iff.mp h
  exact splitHeader_iff.mpr ⟨List.append_assoc _ _ _, hfirst⟩

/-! ## One item -/

/-- The item that octets begin with, and what is behind it. -/
def Verdict.item? : Verdict → Option (Item × List UInt8)
  | wait => none
  | message m rest => some (.message m, rest)
  | discard w rest => some (.warning w, rest)

/-- The item of a body. -/
def bodyItem (body : List UInt8) : Item :=
  match readBody? body with
  | some m => .message m
  | none => .warning .badBody

/-- The item of a header, and what is behind it. -/
def itemBehind (header behind : List UInt8) : Option (Item × List UInt8) :=
  match lengthOfHeader header with
  | .error w => some (.warning w, behind)
  | .ok n =>
    if behind.length < n then none else some (bodyItem (behind.take n), behind.drop n)

theorem item?_next (octets : List UInt8) :
    (next octets).item? =
      (splitHeader octets).bind fun (header, behind) => itemBehind header behind := by
  unfold next
  cases splitHeader octets with
  | none => rfl
  | some parts =>
      obtain ⟨header, behind⟩ := parts
      simp only [Option.bind_some, itemBehind]
      cases lengthOfHeader header with
      | error w => rfl
      | ok n =>
          dsimp only
          split
          · rfl
          · unfold bodyItem
            cases readBody? (behind.take n) <;> rfl

theorem itemBehind_append {header behind rest : List UInt8} {item : Item}
    (h : itemBehind header behind = some (item, rest)) (more : List UInt8) :
    itemBehind header (behind ++ more) = some (item, rest ++ more) := by
  unfold itemBehind at h ⊢
  cases hlength : lengthOfHeader header with
  | error w =>
      rw [hlength] at h
      cases h
      rfl
  | ok n =>
      simp only [hlength] at h ⊢
      by_cases hshort : behind.length < n
      · rw [if_pos hshort] at h
        cases h
      · rw [if_neg hshort] at h
        cases h
        have hlong : n ≤ behind.length := Nat.le_of_not_lt hshort
        rw [if_neg (by simp; omega), List.take_append_of_le_length hlong,
          List.drop_append_of_le_length hlong]

theorem itemBehind_length {header behind rest : List UInt8} {item : Item}
    (h : itemBehind header behind = some (item, rest)) : rest.length ≤ behind.length := by
  unfold itemBehind at h
  cases hlength : lengthOfHeader header with
  | error w =>
      rw [hlength] at h
      cases h
      exact Nat.le_refl _
  | ok n =>
      simp only [hlength] at h
      split at h
      · cases h
      · cases h
        simp

/-- What the octets that have arrived begin with stays the same when more octets arrive. -/
theorem next_append {octets rest : List UInt8} {item : Item}
    (h : (next octets).item? = some (item, rest)) (more : List UInt8) :
    (next (octets ++ more)).item? = some (item, rest ++ more) := by
  rw [item?_next, Option.bind_eq_some_iff] at h ⊢
  obtain ⟨⟨header, behind⟩, hsplit, hitem⟩ := h
  exact ⟨_, splitHeader_append hsplit more, itemBehind_append hitem more⟩

/-- Every item takes some octets. -/
theorem next_length {octets rest : List UInt8} {item : Item}
    (h : (next octets).item? = some (item, rest)) : rest.length < octets.length := by
  rw [item?_next, Option.bind_eq_some_iff] at h
  obtain ⟨⟨header, behind⟩, hsplit, hitem⟩ := h
  obtain ⟨rfl, -⟩ := splitHeader_iff.mp hsplit
  have hle := itemBehind_length hitem
  simp [emptyLine]
  omega

/-! ## All items -/

theorem drain_succ (fuel : Nat) (octets : List UInt8) :
    drain (fuel + 1) octets =
      match (next octets).item? with
      | none => ([], octets)
      | some (item, rest) => (item :: (drain fuel rest).1, (drain fuel rest).2) := by
  rw [drain]
  cases next octets <;> rfl

/-- Everything complete in some octets, and the octets behind it. -/
def read (octets : List UInt8) : List Item × List UInt8 := drain octets.length octets

/-- As many steps as there are octets are enough. -/
theorem drain_eq {fuel : Nat} {octets : List UInt8} (h : octets.length ≤ fuel) :
    drain fuel octets = read octets := by
  suffices hsame : ∀ (fuel fuel' : Nat) (octets : List UInt8), octets.length ≤ fuel →
      octets.length ≤ fuel' → drain fuel octets = drain fuel' octets from
    hsame fuel octets.length octets h (Nat.le_refl _)
  intro fuel
  induction fuel with
  | zero =>
      intro fuel' octets h _
      cases List.length_eq_zero_iff.mp (Nat.le_zero.mp h)
      cases fuel' <;> rfl
  | succ fuel ih =>
      intro fuel' octets h h'
      cases fuel' with
      | zero =>
          cases List.length_eq_zero_iff.mp (Nat.le_zero.mp h')
          rfl
      | succ fuel' =>
          rw [drain_succ, drain_succ]
          cases hitem : (next octets).item? with
          | none => rfl
          | some result =>
              obtain ⟨item, rest⟩ := result
              have hless := next_length hitem
              simp only [ih fuel' rest (by omega) (by omega)]

theorem read_of_none {octets : List UInt8} (h : (next octets).item? = none) :
    read octets = ([], octets) := by
  rw [← drain_eq (Nat.le_succ _), drain_succ, h]

theorem read_of_some {octets rest : List UInt8} {item : Item}
    (h : (next octets).item? = some (item, rest)) :
    read octets = (item :: (read rest).1, (read rest).2) := by
  rw [← drain_eq (Nat.le_succ _), drain_succ, h]
  simp only [drain_eq (Nat.le_of_lt (next_length h))]

/-- What is left of some octets begins with nothing complete. -/
theorem next_read (octets : List UInt8) : (next (read octets).2).item? = none := by
  induction hlength : octets.length using Nat.strongRecOn generalizing octets with
  | ind length ih =>
      cases hitem : (next octets).item? with
      | none => rw [read_of_none hitem, hitem]
      | some result =>
          obtain ⟨item, rest⟩ := result
          rw [read_of_some hitem]
          exact ih rest.length (hlength ▸ next_length hitem) rest rfl

/-- When more octets arrive, the items that have been read stay, and reading goes on behind them. -/
theorem read_append (octets more : List UInt8) :
    read (octets ++ more) = ((read octets).1 ++ (read ((read octets).2 ++ more)).1,
      (read ((read octets).2 ++ more)).2) := by
  -- Every item leaves fewer octets, so their number is what the induction is on.
  induction hlength : octets.length using Nat.strongRecOn generalizing octets with
  | ind length ih =>
      cases hitem : (next octets).item? with
      | none =>
          rw [read_of_none hitem]
          rfl
      | some result =>
          obtain ⟨item, rest⟩ := result
          rw [read_of_some hitem, read_of_some (next_append hitem more),
            ih rest.length (hlength ▸ next_length hitem) rest rfl]
          rfl

namespace Decoder

/-- Takes chunks of octets, one after another, and gives what they complete. -/
def feedAll (d : Decoder) : List (List UInt8) → List Item × Decoder
  | [] => ([], d)
  | chunk :: chunks =>
    let (items, d) := d.feed chunk
    let (more, d) := d.feedAll chunks
    (items ++ more, d)

theorem feed_eq (d : Decoder) (octets : List UInt8) :
    d.feed octets = ((read (d.pending ++ octets)).1, ⟨(read (d.pending ++ octets)).2⟩) := rfl

/-- Feeding twice is feeding once. -/
theorem feed_append (d : Decoder) (first second : List UInt8) :
    d.feed (first ++ second) = ((d.feed first).1 ++ ((d.feed first).2.feed second).1,
      ((d.feed first).2.feed second).2) := by
  rw [feed_eq, ← List.append_assoc, read_append]
  rfl

theorem feedAll_cons (d : Decoder) (chunk : List UInt8) (chunks : List (List UInt8)) :
    d.feedAll (chunk :: chunks) = ((d.feed chunk).1 ++ ((d.feed chunk).2.feedAll chunks).1,
      ((d.feed chunk).2.feedAll chunks).2) := rfl

theorem feedAll_flatten (d : Decoder) (chunk : List UInt8) (chunks : List (List UInt8)) :
    d.feedAll (chunk :: chunks) = d.feed (chunk ++ chunks.flatten) := by
  induction chunks generalizing d chunk with
  | nil => simp [feedAll]
  | cons next chunks ih =>
      calc d.feedAll (chunk :: next :: chunks)
          = ((d.feed chunk).1 ++ ((d.feed chunk).2.feed (next ++ chunks.flatten)).1,
              ((d.feed chunk).2.feed (next ++ chunks.flatten)).2) := by rw [feedAll_cons, ih]
        _ = d.feed (chunk ++ (next ++ chunks.flatten)) := (d.feed_append chunk _).symm

/-- The end of a stream completes nothing. -/
theorem finish_feed (d : Decoder) (octets : List UInt8) : (d.feed octets).2.finish = ([], {}) := by
  have hnone := next_read (d.pending ++ octets)
  simp only [finish, feed_eq, List.append_nil, read_of_none hnone]

/-- What is read from a stream, and what is left of it, does not depend on how it is cut into
chunks; and its end adds nothing, and leaves nothing. -/
theorem feedAll_eq (chunks : List (List UInt8)) :
    ({} : Decoder).feedAll chunks = ({} : Decoder).feed chunks.flatten ∧
      (({} : Decoder).feedAll chunks).2.finish = ([], {}) ∧
      (({} : Decoder).feed chunks.flatten).2.finish = ([], {}) := by
  have hcut : ({} : Decoder).feedAll chunks = ({} : Decoder).feed chunks.flatten := by
    cases chunks with
    | nil => rfl
    | cons chunk chunks => exact feedAll_flatten {} chunk chunks
  refine ⟨hcut, ?_, finish_feed {} _⟩
  rw [hcut]
  exact finish_feed {} _

end Decoder

end EditorHost.Rpc
