import EditorHost.Path
import EditorHost.Proofs.Text.Octets
import Mathlib.Data.List.Induction
import Mathlib.Data.List.TakeWhile
import Mathlib.Logic.Function.Iterate

/-!
# Joined paths and where they lead

The parts of a joined path are the parts of the two, one behind the other; that is all that a join
does.  `Path.position` resolves dots by the text alone, the way `..` leads up one folder where no
links are in play.  What a relative path does to a position does not depend on the position, but for
how many folders it first leads up (`Position.under`).

## Contents

* `Path.parts_join`: the parts of a joined path.
* `Path.startsWith_join`: a joined path begins with the first one, dots or not.
* `Path.Position`, the position of a path, and `Position.under` for a relative path seen from it.
* `Position.Inside` says that a position lies strictly below another.
* `Path.Plain`, a path that names the folders from the root to a place.
* `Path.parts_of_mem_ancestors`: what stands above a path has the beginning of its parts.
* `Path.descend`: the path of what lies some names below.
-/

namespace EditorHost.Path

open Text (split splitText)

/-! ## Joins -/

@[simp] theorem join_absolute {q : String} (h : (⟨q⟩ : Path).isAbsolute) (p : Path) :
    p.join q = ⟨q⟩ := by
  simp [join, isAbsolute] at h ⊢
  simp [h]

/-- The three texts that a join with a relative path may have. -/
theorem join_cases {q : String} (h : (⟨q⟩ : Path).isAbsolute = false) (p : Path) :
    (p.text = "" ∧ p.join q = ⟨q⟩) ∨
      (∃ front, p.text.toList = front ++ ['/'] ∧ p.join q = ⟨p.text ++ q⟩) ∨
      (p.text ≠ "" ∧ p.join q = ⟨p.text ++ "/" ++ q⟩) := by
  have hhead : ¬ q.toList.head? = some '/' := by simpa [isAbsolute] using h
  simp only [join, if_neg hhead]
  by_cases hempty : p.text = ""
  · exact .inl ⟨hempty, by simp [hempty]⟩
  · by_cases hslash : p.endsInSlash = true
    · have hlast : p.text.toList.getLast? = some '/' := by simpa [endsInSlash] using hslash
      obtain ⟨front, hfront⟩ := List.getLast?_eq_some_iff.mp hlast
      exact .inr (.inl ⟨front, hfront, by simp [hslash]⟩)
    · exact .inr (.inr ⟨hempty, by simp [hempty, hslash]⟩)

theorem empty_join {q : String} (h : (⟨q⟩ : Path).isAbsolute = false) :
    (⟨""⟩ : Path).join q = ⟨q⟩ := by
  have hhead : ¬ q.toList.head? = some '/' := by simpa [isAbsolute] using h
  simp [join, hhead]

theorem isAbsolute_join {q : String} (h : (⟨q⟩ : Path).isAbsolute = false) (p : Path) :
    (p.join q).isAbsolute = p.isAbsolute := by
  have happend (rest : List Char) (hne : p.text.toList ≠ []) :
      (p.text.toList ++ rest).head? = p.text.toList.head? := by
    rw [List.head?_append, List.head?_eq_some_head hne, Option.some_or]
  rcases join_cases h p with ⟨hempty, hjoin⟩ | ⟨front, hfront, hjoin⟩ | ⟨hne, hjoin⟩
  · rw [hjoin, h]
    simp [isAbsolute, hempty]
  · have hne : p.text.toList ≠ [] := by simp [hfront]
    simp only [hjoin, isAbsolute, String.toList_append, happend _ hne]
  · have hne : p.text.toList ≠ [] := by simpa using hne
    simp only [hjoin, isAbsolute, String.toList_append, List.append_assoc, happend _ hne]

/-- The texts between the slashes of a path. -/
theorem parts_eq (p : Path) :
    p.parts = ((split '/' p.text.toList).filter (· ≠ [])).map String.ofList := by
  rw [parts, splitText, List.filter_map]
  refine congrArg _ (List.filter_congr fun cs _ => ?_)
  simp [Function.comp, ← String.toList_inj]

/-- The parts of a joined path are those of the first and those of the second. -/
@[simp] theorem parts_join {q : String} (h : (⟨q⟩ : Path).isAbsolute = false) (p : Path) :
    (p.join q).parts = p.parts ++ (⟨q⟩ : Path).parts := by
  rcases join_cases h p with ⟨hempty, hjoin⟩ | ⟨front, hfront, hjoin⟩ | ⟨-, hjoin⟩
  · rw [hjoin, show p = ⟨""⟩ from congrArg Path.mk hempty]
    rfl
  · simp [hjoin, parts_eq, hfront, Text.split_append, Text.split]
  · have htext : (p.text ++ "/" ++ q).toList = p.text.toList ++ '/' :: q.toList := by simp
    simp only [hjoin, parts_eq, htext, Text.split_append, List.filter_append, List.map_append]

/-- A text without slashes is one part. -/
theorem parts_of_not_mem {name : String} (h : '/' ∉ name.toList) (hne : name ≠ "") :
    (⟨name⟩ : Path).parts = [name] := by
  have hchars : name.toList ≠ [] := by simpa using hne
  simp [parts_eq, Text.split_of_not_mem h, hchars]

theorem isAbsolute_of_not_mem {name : String} (h : '/' ∉ name.toList) :
    (⟨name⟩ : Path).isAbsolute = false := by
  cases hchars : name.toList with
  | nil => simp [isAbsolute, hchars]
  | cons c rest =>
      rw [hchars, List.mem_cons, not_or] at h
      simpa [isAbsolute, hchars] using Ne.symm h.1

/-! ## Beginnings -/

/-- A path with something behind it begins with the components that it had. -/
theorem components_join {q : String} (h : (⟨q⟩ : Path).isAbsolute = false) {p : Path}
    (hne : p.text ≠ "") : (p.join q).components =
      p.components ++ (splitText '/' q).filterMap (component? false) := by
  have hparts {first : List (List Char)} (hfirst : first ≠ []) (second : List (List Char)) :
      ((first ++ second).map String.ofList).tail =
        (first.map String.ofList).tail ++ second.map String.ofList := by
    rw [List.map_append, List.tail_append_of_ne_nil (by simpa using hfirst)]
  have hhead {first : List (List Char)} (hfirst : first ≠ []) (second : List (List Char)) :
      ((first ++ second).map String.ofList).head? = (first.map String.ofList).head? := by
    rw [List.map_append, List.head?_append, List.head?_eq_some_head (by simpa using hfirst),
      Option.some_or]
  simp only [components, isAbsolute_join h, splitText]
  rcases join_cases h p with ⟨hempty, -⟩ | ⟨front, hfront, hjoin⟩ | ⟨-, hjoin⟩
  · exact absurd hempty hne
  · have hp : split '/' p.text.toList = split '/' front ++ [[]] := by
      rw [hfront, Text.split_append]
      rfl
    have hq : split '/' (p.join q).text.toList = split '/' front ++ split '/' q.toList := by
      rw [hjoin, String.toList_append, hfront, List.append_assoc, List.singleton_append,
        Text.split_append]
    have hfirst := Text.split_ne_nil '/' front
    simp only [hp, hq, hparts hfirst, hhead hfirst, List.filterMap_append]
    simp [component?]
  · have htext : (p.text ++ "/" ++ q).toList = p.text.toList ++ '/' :: q.toList := by simp
    have hfirst := Text.split_ne_nil '/' p.text.toList
    simp only [hjoin, htext, Text.split_append, hparts hfirst, hhead hfirst,
      List.filterMap_append, List.append_assoc]

/-- Seen from a path, every relative path begins with that path, wherever it leads. -/
theorem startsWith_join {q : String} (h : (⟨q⟩ : Path).isAbsolute = false) (p : Path) :
    (p.join q).startsWith p = true := by
  rw [startsWith, List.isPrefixOf_iff_prefix]
  by_cases hempty : p.text = ""
  · have hnone : p.components = [] := by
      rw [show p = ⟨""⟩ from congrArg Path.mk hempty]
      rfl
    rw [hnone]
    exact List.nil_prefix
  · rw [components_join h hempty]
    exact List.prefix_append _ _

/-! ## Positions -/

/-- Where a path leads by its text. -/
structure Position where
  isAbsolute : Bool
  /-- How many folders up from where a relative path starts. -/
  ups : Nat := 0
  /-- The folders down from there. -/
  names : List String := []
  deriving DecidableEq, Repr

namespace Position

/-- One folder up; there is nothing above the root. -/
def up (p : Position) : Position :=
  match p.names with
  | [] => if p.isAbsolute then p else { p with ups := p.ups + 1 }
  | names@(_ :: _) => { p with names := names.dropLast }

/-- The names of some folders, one in the other, down from a position. -/
def down (p : Position) (names : List String) : Position := { p with names := p.names ++ names }

/-- Where one part of a path leads. -/
def follow (p : Position) (part : String) : Position :=
  if part = "." then p else if part = ".." then p.up else p.down [part]

/-- A position as it is seen from another one. -/
def under (base p : Position) : Position := (up^[p.ups] base).down p.names

/-- Whether a position lies strictly below another. -/
structure Inside (p base : Position) : Prop where
  isAbsolute : p.isAbsolute = base.isAbsolute
  ups : p.ups = base.ups
  below : base.names <+: p.names
  ne : base.names ≠ p.names

instance (p base : Position) : Decidable (p.Inside base) :=
  decidable_of_iff
    (p.isAbsolute = base.isAbsolute ∧ p.ups = base.ups ∧ base.names <+: p.names ∧
      base.names ≠ p.names)
    ⟨fun ⟨ha, hu, hb, hn⟩ => ⟨ha, hu, hb, hn⟩, fun ⟨ha, hu, hb, hn⟩ => ⟨ha, hu, hb, hn⟩⟩

@[simp] theorem down_nil (p : Position) : p.down [] = p := by simp [down]

@[simp] theorem down_down (p : Position) (first second : List String) :
    (p.down first).down second = p.down (first ++ second) := by
  simp [down]

@[simp] theorem up_down_singleton (p : Position) (name : String) : (p.down [name]).up = p := by
  cases hnames : p.names with
  | nil =>
      obtain ⟨isAbsolute, ups, names⟩ := p
      simp_all [up, down]
  | cons first rest =>
      have hne : (p.names ++ [name]) = first :: (rest ++ [name]) := by simp [hnames]
      simp only [up, down, hne]
      rw [← List.cons_append, ← hnames, List.dropLast_concat]

/-- A folder up from below leads to what is below the folder above. -/
theorem up_down_concat (p : Position) (names : List String) (name : String) :
    (p.down (names ++ [name])).up = p.down names := by
  rw [← down_down, up_down_singleton]

theorem inside_down (p : Position) {names : List String} (h : names ≠ []) :
    (p.down names).Inside p :=
  ⟨rfl, rfl, List.prefix_append _ _, fun heq => h (by simpa [down] using heq)⟩

theorem Inside.exists_down {p base : Position} (h : p.Inside base) :
    ∃ names, names ≠ [] ∧ p = base.down names := by
  obtain ⟨names, hnames⟩ := h.below
  refine ⟨names, fun hnil => h.ne (by simpa [hnil] using hnames), ?_⟩
  obtain ⟨isAbsolute, ups, own⟩ := p
  obtain ⟨rfl, rfl⟩ : isAbsolute = base.isAbsolute ∧ ups = base.ups := ⟨h.isAbsolute, h.ups⟩
  obtain rfl : base.names ++ names = own := hnames
  rfl

/-- Nothing lies inside two folders of different names. -/
theorem not_inside_both {p base : Position} {first second : String} (hne : first ≠ second)
    (hfirst : p.Inside (base.down [first])) : ¬ p.Inside (base.down [second]) := by
  intro hsecond
  obtain ⟨names, -, hp⟩ := hfirst.exists_down
  obtain ⟨names', -, hp'⟩ := hsecond.exists_down
  have hnames : base.names ++ first :: names = base.names ++ second :: names' := by
    simpa [down] using congrArg Position.names (hp.symm.trans hp')
  exact hne (List.head_eq_of_cons_eq (List.append_cancel_left hnames))

/-- What a part does to a position, it does to the position seen from elsewhere. -/
theorem follow_under {p : Position} (h : p.isAbsolute = false) (base : Position) (part : String) :
    base.under (p.follow part) = (base.under p).follow part := by
  simp only [follow]
  split
  · rfl
  · split
    · rcases List.eq_nil_or_concat p.names with hnames | ⟨names, name, hnames⟩
      · have hup : p.up = { p with ups := p.ups + 1 } := by simp [up, hnames, h]
        rw [hup, under, under, hnames, down_nil, down_nil, Function.iterate_succ_apply']
      · rw [List.concat_eq_append] at hnames
        have hup : p.up = { p with names := names } := by
          have hp : p = Position.down { p with names := [] } (names ++ [name]) := by
            obtain ⟨isAbsolute, ups, own⟩ := p
            obtain rfl : own = names ++ [name] := hnames
            rfl
          rw [hp, up_down_concat]
          simp [down]
        rw [hup, under, under, hnames, up_down_concat]
    · simp [under, down]

end Position

/-- Where a path leads by its text, dots resolved. -/
def position (p : Path) : Position := p.parts.foldl Position.follow ⟨p.isAbsolute, 0, []⟩

theorem foldl_follow_isAbsolute (parts : List String) (p : Position) :
    (parts.foldl Position.follow p).isAbsolute = p.isAbsolute := by
  induction parts generalizing p with
  | nil => rfl
  | cons part parts ih =>
      rw [List.foldl_cons, ih]
      simp only [Position.follow, Position.up, Position.down]
      repeat' split
      all_goals rfl

@[simp] theorem isAbsolute_position (p : Path) : p.position.isAbsolute = p.isAbsolute :=
  foldl_follow_isAbsolute p.parts _

/-- A relative path, seen from another one, leads to its position as it is seen from there. -/
theorem position_join {q : String} (h : (⟨q⟩ : Path).isAbsolute = false) (p : Path) :
    (p.join q).position = p.position.under (⟨q⟩ : Path).position := by
  have hfold (parts : List String) (base own : Position) (hown : own.isAbsolute = false) :
      base.under (parts.foldl Position.follow own) =
        parts.foldl Position.follow (base.under own) := by
    induction parts generalizing own with
    | nil => rfl
    | cons part parts ih =>
        have hpart : (own.follow part).isAbsolute = false :=
          (foldl_follow_isAbsolute [part] own).trans hown
        rw [List.foldl_cons, List.foldl_cons, ih _ hpart, Position.follow_under hown]
  calc (p.join q).position
      = (⟨q⟩ : Path).parts.foldl Position.follow p.position := by
        rw [position, isAbsolute_join h, parts_join h, List.foldl_append, position]
    _ = (⟨q⟩ : Path).parts.foldl Position.follow (p.position.under ⟨false, 0, []⟩) := by
        simp [Position.under]
    _ = p.position.under (⟨q⟩ : Path).position := by
        rw [← hfold _ _ _ rfl, ← h]
        rfl

/-- A name that is no dot leads one folder down. -/
theorem position_join_name {name : String} (hslash : '/' ∉ name.toList) (hne : name ≠ "")
    (hdot : name ≠ ".") (hdots : name ≠ "..") (p : Path) :
    (p.join name).position = p.position.down [name] := by
  have hname : (⟨name⟩ : Path).position = ⟨false, 0, [name]⟩ := by
    rw [position, parts_of_not_mem hslash hne, isAbsolute_of_not_mem hslash]
    simp [Position.follow, hdot, hdots, Position.down]
  rw [position_join (isAbsolute_of_not_mem hslash), hname]
  rfl

/-! ## Plain paths -/

/-- A text that can be the name of an entry. -/
structure IsName (name : String) : Prop where
  ne_empty : name ≠ ""
  no_slash : '/' ∉ name.toList
  ne_dot : name ≠ "."
  ne_dots : name ≠ ".."

instance (name : String) : Decidable (IsName name) :=
  decidable_of_iff (name ≠ "" ∧ '/' ∉ name.toList ∧ name ≠ "." ∧ name ≠ "..")
    ⟨fun ⟨hempty, hslash, hdot, hdots⟩ => ⟨hempty, hslash, hdot, hdots⟩,
      fun ⟨hempty, hslash, hdot, hdots⟩ => ⟨hempty, hslash, hdot, hdots⟩⟩

/-- An absolute path that names the folders from the root to a place, without dots. -/
structure Plain (p : Path) (place : List String) : Prop where
  isAbsolute : p.isAbsolute = true
  parts : p.parts = place
  names : ∀ name ∈ place, IsName name

theorem IsName.parts {name : String} (h : IsName name) : (⟨name⟩ : Path).parts = [name] :=
  parts_of_not_mem h.no_slash h.ne_empty

theorem Plain.join {p : Path} {place names : List String} {q : String} (h : p.Plain place)
    (hrelative : (⟨q⟩ : Path).isAbsolute = false) (hparts : (⟨q⟩ : Path).parts = names)
    (hnames : ∀ name ∈ names, IsName name) : (p.join q).Plain (place ++ names) where
  isAbsolute := (isAbsolute_join hrelative p).trans h.isAbsolute
  parts := by rw [parts_join hrelative, h.parts, hparts]
  names := List.forall_mem_append.mpr ⟨h.names, hnames⟩

theorem Plain.join_empty {p : Path} {place : List String} (h : p.Plain place) :
    (p.join "").Plain place := by
  have hempty : (⟨""⟩ : Path).parts = [] := rfl
  have hjoin := h.join rfl hempty fun _ h => (nomatch h)
  rwa [List.append_nil] at hjoin

theorem Plain.join_name {p : Path} {place : List String} {name : String} (h : p.Plain place)
    (hname : IsName name) : (p.join name).Plain (place ++ [name]) :=
  h.join (isAbsolute_of_not_mem hname.no_slash) hname.parts
    (List.forall_mem_singleton.mpr hname)

/-- Only the root, written with slashes, has no parts. -/
theorem isAbsolute_of_parts_eq_nil {p : Path} (h : p.parts = []) (hne : p.text ≠ "") :
    p.isAbsolute = true := by
  cases hchars : p.text.toList with
  | nil => exact absurd (by simpa using hchars) hne
  | cons c rest =>
      by_contra hnot
      have hc : c ≠ '/' := by
        rintro rfl
        simp [isAbsolute, hchars] at hnot
      obtain ⟨first, more, hrest⟩ := List.exists_cons_of_ne_nil (Text.split_ne_nil '/' rest)
      simp [parts_eq, hchars, split, hc, hrest] at h

/-- A path with a name at its end has no slash there. -/
theorem IsName.endsInSlash_join {name : String} (h : IsName name) (p : Path) :
    (p.join name).endsInSlash = false := by
  have hne : name.toList ≠ [] := by simpa using h.ne_empty
  have hlast : name.toList.getLast? ≠ some '/' := by
    rw [List.getLast?_eq_some_getLast hne, ne_eq, Option.some.injEq]
    exact fun hslash => h.no_slash (hslash ▸ List.getLast_mem hne)
  have hbehind (front : String) : (front ++ name).toList.getLast? = name.toList.getLast? := by
    rw [String.toList_append, List.getLast?_append, List.getLast?_eq_some_getLast hne,
      Option.some_or]
  have htext : (p.join name).text.toList.getLast? = name.toList.getLast? := by
    rcases join_cases (isAbsolute_of_not_mem h.no_slash) p with
      ⟨-, hjoin⟩ | ⟨_, -, hjoin⟩ | ⟨-, hjoin⟩
    · rw [hjoin]
    · rw [hjoin, hbehind]
    · rw [hjoin, hbehind]
  rw [endsInSlash, htext]
  exact beq_eq_false_iff_ne.mpr hlast

theorem endsInSlash_join_empty {p : Path} (hne : p.text ≠ "") : (p.join "").endsInSlash = true := by
  have hlast (front : List Char) : (front ++ ['/']).getLast? = some '/' := List.getLast?_concat
  have hslash : (p.join "").text.toList.getLast? = some '/' := by
    rcases join_cases (show (⟨""⟩ : Path).isAbsolute = false from rfl) p with
      ⟨hempty, -⟩ | ⟨front, hfront, hjoin⟩ | ⟨-, hjoin⟩
    · exact absurd hempty hne
    · rw [hjoin, String.append_empty, hfront, hlast]
    · rw [hjoin, String.append_empty, String.toList_append]
      exact hlast _
  rw [endsInSlash, hslash]
  rfl

theorem Plain.text_ne_empty {p : Path} {place : List String} (h : p.Plain place) :
    p.text ≠ "" := by
  intro hempty
  have habsolute := h.isAbsolute
  simp [Path.isAbsolute, hempty] at habsolute

theorem text_ne_empty_of_parts {p : Path} (h : p.parts ≠ []) : p.text ≠ "" := by
  intro hempty
  rw [show p = ⟨""⟩ from congrArg Path.mk hempty] at h
  exact h rfl

/-- What stands between the slashes of an absolute path begins with nothing. -/
theorem exists_splitText_of_isAbsolute {p : Path} (h : p.isAbsolute = true) :
    ∃ rest, splitText '/' p.text = "" :: rest ∧ rest.filter (· ≠ "") = p.parts := by
  obtain ⟨tail, htail⟩ : ∃ tail, p.text.toList = '/' :: tail := by
    cases hchars : p.text.toList with
    | nil => simp [isAbsolute, hchars] at h
    | cons c tail =>
        obtain rfl : c = '/' := by simpa [isAbsolute, hchars] using h
        exact ⟨tail, rfl⟩
  have hsplit : splitText '/' p.text = "" :: (split '/' tail).map String.ofList := by
    simp [splitText, htail, split]
  exact ⟨_, hsplit, by rw [Path.parts, hsplit]; rfl⟩

/-- A path is absolute if it begins with a slash, so that nothing stands in front of the first. -/
theorem isAbsolute_iff {p : Path} {first : String} {rest : List String}
    (h : splitText '/' p.text = first :: rest) (hne : first ≠ "" ∨ rest ≠ []) :
    p.isAbsolute = true ↔ first = "" := by
  cases hchars : p.text.toList with
  | nil =>
      simp only [splitText, hchars, split, List.map_cons, List.map_nil, List.cons.injEq] at h
      rcases hne with hfirst | hrest
      · exact absurd h.1.symm hfirst
      · exact absurd h.2.symm hrest
  | cons c tail =>
      by_cases hc : c = '/'
      · subst hc
        simp only [splitText, hchars, split, if_true, List.map_cons, List.cons.injEq] at h
        simp [isAbsolute, hchars, ← h.1]
      · obtain ⟨start, more, hsplit⟩ := List.exists_cons_of_ne_nil (Text.split_ne_nil '/' tail)
        simp only [splitText, hchars, split, if_neg hc, hsplit, List.map_cons, List.cons.injEq] at h
        have hfirst : first ≠ "" := by simp [← h.1, ← String.toList_inj]
        simp [isAbsolute, hchars, hc, hfirst]

/-- Trimming takes nothing away that counts, where there are no dots. -/
theorem filter_trimParts {parts : List String} (h : ∀ part ∈ parts, part ≠ ".") :
    (trimParts parts).filter (· ≠ "") = parts.filter (· ≠ "") := by
  have hreversed : ∀ reversed : List String, (∀ part ∈ reversed, part ≠ ".") →
      (reversed.dropWhile fun part => part = "" ∨ part = ".").filter (· ≠ "") =
        reversed.filter (· ≠ "") := by
    intro reversed hdots
    induction reversed with
    | nil => rfl
    | cons part rest ih =>
        obtain ⟨hpart, hrest⟩ := List.forall_mem_cons.mp hdots
        by_cases hempty : part = ""
        · rw [List.dropWhile_cons_of_pos (by simp [hempty]), ih hrest,
            List.filter_cons_of_neg (by simp [hempty])]
        · rw [List.dropWhile_cons_of_neg (by simp [hempty, hpart])]
  rw [trimParts, List.filter_reverse, hreversed _ (by simpa using h), List.filter_reverse,
    List.reverse_reverse]

/-- What is left by trimming ends in a part that counts. -/
theorem trimParts_eq_nil_or_concat (parts : List String) : trimParts parts = [] ∨
    ∃ front last, trimParts parts = front ++ [last] ∧ last ≠ "" := by
  rw [trimParts]
  cases hdropped : parts.reverse.dropWhile fun part => part = "" ∨ part = "." with
  | nil => exact .inl rfl
  | cons last rest =>
      refine .inr ⟨rest.reverse, last, by simp, ?_⟩
      have hne : (parts.reverse.dropWhile fun part => part = "" ∨ part = ".") ≠ [] := by
        rw [hdropped]
        exact List.cons_ne_nil _ _
      have hlast := List.head_dropWhile_not _ hne
      simp only [hdropped, List.head_cons, decide_eq_false_iff_not, not_or] at hlast
      exact hlast.1

theorem trimParts_isBeginning (parts : List String) : trimParts parts <+: parts := by
  obtain ⟨dropped, hdropped⟩ := List.dropWhile_suffix (l := parts.reverse)
    fun part : String => part = "" ∨ part = "."
  refine ⟨dropped.reverse, ?_⟩
  rw [trimParts, ← List.reverse_append, hdropped, List.reverse_reverse]

theorem not_mem_of_mem_splitText {text part : String} (h : part ∈ splitText '/' text) :
    '/' ∉ part.toList := by
  obtain ⟨chars, hchars, rfl⟩ := List.mem_map.mp h
  simpa using Text.not_mem_of_mem_split hchars

/-- The parts of a text that is put together of parts. -/
theorem splitText_intercalate (first : String) (rest : List String)
    (h : ∀ part ∈ first :: rest, '/' ∉ part.toList) :
    splitText '/' ("/".intercalate (first :: rest)) = first :: rest := by
  induction rest generalizing first with
  | nil =>
      have hfirst := h first List.mem_cons_self
      have htext : ("/".intercalate [first]).toList = first.toList := by simp
      rw [splitText, htext, Text.split_of_not_mem hfirst]
      simp
  | cons second rest ih =>
      obtain ⟨hfirst, hrest⟩ := List.forall_mem_cons.mp h
      have htext : ("/".intercalate (first :: second :: rest)).toList =
          first.toList ++ '/' :: ("/".intercalate (second :: rest)).toList := by
        simp [String.toList_intercalate, List.intercalate]
      have hsecond := ih second hrest
      rw [splitText] at hsecond ⊢
      rw [htext, Text.split_append, Text.split_of_not_mem hfirst, List.map_append, hsecond]
      simp

/-- The folder of a path, by the parts that count. -/
theorem folder?_of_trimParts {p : Path} {first last : String} {rest front above : List String}
    (hsplit : splitText '/' p.text = first :: rest) (hkept : trimParts rest = front ++ [last])
    (habove : trimParts front = above) : p.folder? =
      some (if above = [] then ⟨if first = "" then "/" else first⟩
        else ⟨"/".intercalate (first :: above)⟩) := by
  obtain ⟨part, more, hmore⟩ := List.exists_cons_of_ne_nil (l := front ++ [last]) (by simp)
  have hlast : (part :: more).dropLast = front := hmore ▸ List.dropLast_concat
  simp only [folder?, hsplit, hkept, hmore, hlast, habove]
  cases above <;> rfl

/-- The folder of a path has the beginning of its parts. -/
theorem parts_of_folder? {p folder : Path} (h : p.folder? = some folder) :
    folder.isAbsolute = p.isAbsolute ∧ folder.parts <+: p.parts ∧ p.parts ≠ [] := by
  obtain ⟨first, rest, hsplit⟩ :=
    List.exists_cons_of_ne_nil (l := splitText '/' p.text) (by simp [splitText, Text.split_ne_nil])
  have hparts : p.parts = (first :: rest).filter (· ≠ "") := by rw [parts, hsplit]
  have hmem {part : String} (hpart : part ∈ first :: rest) (hne : part ≠ "") : p.parts ≠ [] := by
    rw [hparts]
    exact List.ne_nil_of_mem (List.mem_filter.mpr ⟨hpart, by simpa using hne⟩)
  rcases trimParts_eq_nil_or_concat rest with hnil | ⟨front, last, hkept, hlast⟩
  · simp only [folder?, hsplit, hnil] at h
    split at h
    · cases h
    next hfirst =>
      obtain rfl := Option.some.inj h
      have hrelative : p.isAbsolute = false :=
        Bool.eq_false_iff.mpr (mt (isAbsolute_iff hsplit (.inl hfirst)).mp hfirst)
      exact ⟨hrelative.symm, List.nil_prefix, hmem List.mem_cons_self hfirst⟩
  · have hlastMem : last ∈ rest :=
      (trimParts_isBeginning rest).subset (hkept ▸ List.mem_concat_self)
    have habsolute := isAbsolute_iff hsplit (.inr (List.ne_nil_of_mem hlastMem))
    rw [folder?_of_trimParts hsplit hkept rfl] at h
    suffices hfolder : folder.isAbsolute = p.isAbsolute ∧ folder.parts <+: p.parts from
      ⟨hfolder.1, hfolder.2, hmem (List.mem_cons_of_mem _ hlastMem) hlast⟩
    by_cases hroot : first = "" ∧ trimParts front = []
    · obtain rfl : (⟨"/"⟩ : Path) = folder := by simpa [hroot] using h
      exact ⟨(habsolute.mpr hroot.1).symm, List.nil_prefix⟩
    · have habove : trimParts front <+: rest :=
        (trimParts_isBeginning front).trans
          ((List.prefix_append front [last]).trans (hkept ▸ trimParts_isBeginning rest))
      obtain rfl : (⟨"/".intercalate (first :: trimParts front)⟩ : Path) = folder := by
        rw [← Option.some.inj h]
        split
        next hnil =>
          have hfirst : first ≠ "" := fun hfirst => hroot ⟨hfirst, hnil⟩
          simp [hnil, hfirst]
        · rfl
      have hsplitAbove : splitText '/' ("/".intercalate (first :: trimParts front)) =
          first :: trimParts front :=
        splitText_intercalate _ _ fun part hpart => not_mem_of_mem_splitText
          (hsplit ▸ (List.cons_prefix_cons.mpr ⟨rfl, habove⟩).subset hpart)
      have hne : first ≠ "" ∨ trimParts front ≠ [] := by
        by_cases hfirst : first = ""
        · exact .inr fun hnil => hroot ⟨hfirst, hnil⟩
        · exact .inl hfirst
      refine ⟨Bool.eq_iff_iff.mpr ((isAbsolute_iff hsplitAbove hne).trans habsolute.symm), ?_⟩
      rw [hparts, parts, hsplitAbove]
      exact (List.cons_prefix_cons.mpr ⟨rfl, habove⟩).filter _

/-- What stands above a path has the beginning of its parts. -/
theorem parts_of_mem_ancestors {p q : Path} (hq : q ∈ p.ancestors) :
    q.isAbsolute = p.isAbsolute ∧ q.parts <+: p.parts ∧ q.parts ≠ [] := by
  have hupwards (n : Nat) (p : Path) (hq : q ∈ upwards n p) :
      q.isAbsolute = p.isAbsolute ∧ q.parts <+: p.parts ∧ q.parts ≠ [] := by
    induction n generalizing p with
    | zero => cases hq
    | succ n ih =>
        rw [upwards] at hq
        split at hq
        next folder hfolder =>
          obtain ⟨habsolute, hparts, hne⟩ := parts_of_folder? hfolder
          rcases List.mem_cons.mp hq with rfl | hq
          · exact ⟨rfl, List.prefix_refl _, hne⟩
          · obtain ⟨habsolute', hparts', hne'⟩ := ih folder hq
            exact ⟨habsolute'.trans habsolute, hparts'.trans hparts, hne'⟩
        · cases hq
  exact hupwards _ p hq

/-- Something stands above a path with a name in it, if only the path itself. -/
theorem ancestors_ne_nil {p : Path} {name : String} (hname : IsName name) (h : name ∈ p.parts) :
    p.ancestors ≠ [] := by
  obtain ⟨first, rest, hsplit⟩ :=
    List.exists_cons_of_ne_nil (l := splitText '/' p.text) (by simp [splitText, Text.split_ne_nil])
  have hmem : name ∈ first :: rest := by
    rw [parts, hsplit] at h
    exact (List.mem_filter.mp h).1
  have hfolder : p.folder? ≠ none := by
    rcases trimParts_eq_nil_or_concat rest with hnil | ⟨front, last, hkept, -⟩
    · have hblank : ∀ part ∈ rest, part = "" ∨ part = "." := by
        simpa [trimParts, List.dropWhile_eq_nil_iff] using hnil
      have hfirst : first ≠ "" := by
        rcases List.mem_cons.mp hmem with rfl | hmem
        · exact hname.ne_empty
        · exact ((hblank name hmem).elim hname.ne_empty hname.ne_dot).elim
      simp [folder?, hsplit, hnil, hfirst]
    · simp [folder?_of_trimParts hsplit hkept rfl]
  obtain ⟨n, hn⟩ := Nat.exists_eq_add_one.mpr (List.length_pos_of_mem h)
  obtain ⟨folder, hsome⟩ := Option.ne_none_iff_exists'.mp hfolder
  simp [ancestors, hn, upwards, hsome]

/-- The folder of a plain path is where its last name is looked up. -/
theorem Plain.exists_folder {p : Path} {place : List String} {last : String}
    (h : p.Plain (place ++ [last])) : ∃ folder, p.folder? = some folder ∧ folder.Plain place := by
  obtain ⟨rest, hsplit, hparts⟩ := exists_splitText_of_isAbsolute h.isAbsolute
  rw [h.parts] at hparts
  have hdots : ∀ part ∈ rest, part ≠ "." := by
    intro part hpart hdot
    have hmem : part ∈ rest.filter (· ≠ "") := List.mem_filter.mpr ⟨hpart, by simp [hdot]⟩
    exact (h.names part (hparts ▸ hmem)).ne_dot hdot
  have hkept := filter_trimParts hdots
  rw [hparts] at hkept
  rcases trimParts_eq_nil_or_concat rest with hnil | ⟨front, kept, hconcat, hne⟩
  · rw [hnil] at hkept
    simp at hkept
  -- What stands before the last name that counts leads to the folder.
  have hfront : front.filter (· ≠ "") = place := by
    rw [hconcat, List.filter_append, List.filter_cons_of_pos (by simp [hne])] at hkept
    exact (List.append_inj' hkept rfl).1
  have hbefore : front <+: rest :=
    (List.prefix_append front [kept]).trans (hconcat ▸ trimParts_isBeginning rest)
  have habove := filter_trimParts fun part hpart => hdots part (hbefore.subset hpart)
  rw [hfront] at habove
  have hnames : ∀ name ∈ place, IsName name := fun name hname =>
    h.names name (List.mem_append_left _ hname)
  have hfolder := folder?_of_trimParts hsplit hconcat rfl
  by_cases hnil : trimParts front = []
  · rw [if_pos hnil, if_pos rfl] at hfolder
    rw [hnil] at habove
    exact ⟨⟨"/"⟩, hfolder, rfl, by rw [← habove]; rfl, hnames⟩
  · rw [if_neg hnil] at hfolder
    have hsplitAbove : splitText '/' ("/".intercalate ("" :: trimParts front)) =
        "" :: trimParts front :=
      splitText_intercalate _ _ fun part hpart => not_mem_of_mem_splitText (hsplit ▸
        (List.cons_prefix_cons.mpr ⟨rfl, (trimParts_isBeginning front).trans hbefore⟩).subset hpart)
    refine ⟨_, hfolder, (isAbsolute_iff hsplitAbove (.inr hnil)).mpr rfl, ?_, hnames⟩
    rw [Path.parts, hsplitAbove, ← habove]
    rfl

/-- The root stands in no folder. -/
theorem Plain.folder?_nil {p : Path} (h : p.Plain []) : p.folder? = none := by
  obtain ⟨rest, hsplit, hparts⟩ := exists_splitText_of_isAbsolute h.isAbsolute
  rw [h.parts] at hparts
  have hempty : ∀ part ∈ rest, part = "" := by
    intro part hpart
    by_contra hne
    have hmem : part ∈ rest.filter (· ≠ "") := List.mem_filter.mpr ⟨hpart, by simp [hne]⟩
    rw [hparts] at hmem
    cases hmem
  have hnone : trimParts rest = [] := by
    rcases trimParts_eq_nil_or_concat rest with hnil | ⟨front, last, hconcat, hne⟩
    · exact hnil
    · refine absurd (hempty last ((trimParts_isBeginning rest).subset ?_)) hne
      rw [hconcat]
      exact List.mem_append_right _ List.mem_cons_self
  simp only [folder?, hsplit, hnone, if_true]

/-- There is nothing above a plain path but what its beginnings lead to. -/
theorem Plain.of_mem_ancestors {p q : Path} {place : List String} (h : p.Plain place)
    (hq : q ∈ p.ancestors) :
    ∃ above last, above ++ [last] <+: place ∧ q.Plain (above ++ [last]) := by
  obtain ⟨habsolute, hparts, hne⟩ := parts_of_mem_ancestors hq
  obtain ⟨above, last, hlast⟩ := (List.eq_nil_or_concat q.parts).resolve_left hne
  rw [List.concat_eq_append] at hlast
  rw [hlast, h.parts] at hparts
  exact ⟨above, last, hparts, habsolute.trans h.isAbsolute, hlast, fun name hname =>
    h.names name (hparts.subset hname)⟩

/-! ## Names below a path -/

/-- The path of a folder some folders below. -/
def descend (p : Path) (names : List String) : Path := names.foldl Path.join p

@[simp] theorem descend_nil (p : Path) : p.descend [] = p := rfl

@[simp] theorem descend_cons (p : Path) (name : String) (names : List String) :
    p.descend (name :: names) = (p.join name).descend names := rfl

theorem Plain.descend {p : Path} {place names : List String} (h : p.Plain place)
    (hnames : ∀ name ∈ names, IsName name) : (p.descend names).Plain (place ++ names) := by
  induction names generalizing p place with
  | nil => simpa using h
  | cons name rest ih =>
      obtain ⟨hname, hrest⟩ := List.forall_mem_cons.mp hnames
      have hbelow := ih (h.join_name hname) hrest
      rwa [List.append_assoc, List.singleton_append] at hbelow

theorem endsInSlash_descend {p : Path} {names : List String} (hne : names ≠ [])
    (hnames : ∀ name ∈ names, IsName name) : (p.descend names).endsInSlash = false := by
  induction names generalizing p with
  | nil => exact absurd rfl hne
  | cons name rest ih =>
      obtain ⟨hname, hrest⟩ := List.forall_mem_cons.mp hnames
      by_cases hlast : rest = []
      · subst hlast
        exact hname.endsInSlash_join p
      · exact ih hlast hrest

/-- What lies below a path begins with it. -/
theorem startsWith_descend {p : Path} {names : List String}
    (hnames : ∀ name ∈ names, IsName name) : (p.descend names).startsWith p = true := by
  induction names generalizing p with
  | nil => simp [Path.startsWith]
  | cons name rest ih =>
      obtain ⟨hname, hrest⟩ := List.forall_mem_cons.mp hnames
      have hjoin := Path.startsWith_join (Path.isAbsolute_of_not_mem hname.no_slash) p
      have hbelow : ((p.join name).descend rest).startsWith (p.join name) = true := ih hrest
      rw [Path.startsWith, List.isPrefixOf_iff_prefix] at hjoin hbelow ⊢
      exact hjoin.trans hbelow

theorem isAbsolute_descend {p : Path} {names : List String}
    (hnames : ∀ name ∈ names, IsName name) : (p.descend names).isAbsolute = p.isAbsolute := by
  induction names generalizing p with
  | nil => rfl
  | cons name rest ih =>
      obtain ⟨hname, hrest⟩ := List.forall_mem_cons.mp hnames
      exact (ih hrest).trans (isAbsolute_join (isAbsolute_of_not_mem hname.no_slash) p)

/-- The names on the way down from a path tell what lies below it apart. -/
theorem parts_descend {p : Path} {names : List String} (hnames : ∀ name ∈ names, IsName name) :
    (p.descend names).parts = p.parts ++ names := by
  induction names generalizing p with
  | nil => simp
  | cons name rest ih =>
      obtain ⟨hname, hrest⟩ := List.forall_mem_cons.mp hnames
      have hrelative := Path.isAbsolute_of_not_mem hname.no_slash
      rw [descend_cons, ih hrest, parts_join hrelative, hname.parts, List.append_assoc,
        List.singleton_append]

theorem descend_inj {p : Path} {names others : List String}
    (hnames : ∀ name ∈ names, IsName name) (hothers : ∀ name ∈ others, IsName name)
    (h : p.descend names = p.descend others) : names = others := by
  have hparts := congrArg parts h
  rw [parts_descend hnames, parts_descend hothers] at hparts
  exact List.append_cancel_left hparts

theorem IsName.components {name : String} (h : IsName name) :
    (splitText '/' name).filterMap (component? false) = [.name name] := by
  rw [splitText, Text.split_of_not_mem h.no_slash]
  simp [component?, h.ne_empty, h.ne_dot, h.ne_dots]

/-- The components of what lies below a path are its own, and the names on the way. -/
theorem components_descend {p : Path} {names : List String} (hne : p.text ≠ "")
    (hnames : ∀ name ∈ names, IsName name) :
    (p.descend names).components = p.components ++ names.map .name := by
  induction names generalizing p with
  | nil => simp
  | cons name rest ih =>
      obtain ⟨hname, hrest⟩ := List.forall_mem_cons.mp hnames
      have hrelative := isAbsolute_of_not_mem hname.no_slash
      have hjoin : (p.join name).text ≠ "" :=
        text_ne_empty_of_parts (by simp [parts_join hrelative, hname.parts])
      rw [descend_cons, ih hjoin hrest, components_join hrelative hne, hname.components,
        List.append_assoc, List.singleton_append, List.map_cons]

/-- Of two folders below a path, one lies in the other as the names on the way to them tell. -/
theorem startsWith_descend_iff {p : Path} {names others : List String} (hne : p.text ≠ "")
    (hnames : ∀ name ∈ names, IsName name) (hothers : ∀ name ∈ others, IsName name) :
    (p.descend others).startsWith (p.descend names) = true ↔ names <+: others := by
  have hinjective : Function.Injective Component.name := fun _ _ h => Component.name.inj h
  rw [startsWith, List.isPrefixOf_iff_prefix, components_descend hne hnames,
    components_descend hne hothers, List.prefix_append_right_inj,
    List.prefix_map_iff_of_injective hinjective]

/-- A name behind a joined path. -/
theorem join_join {q name : String} (hrelative : (⟨q⟩ : Path).isAbsolute = false) (hne : q ≠ "")
    (hslash : (⟨q⟩ : Path).endsInSlash = false) (hname : IsName name) (p : Path) :
    p.join ((⟨q⟩ : Path).join name).text = (p.join q).join name := by
  have hhead {text : String} (h : (⟨text⟩ : Path).isAbsolute = false) :
      ¬ text.toList.head? = some '/' := by simpa [isAbsolute] using h
  obtain ⟨front, hfront⟩ : ∃ front, ∀ text, (⟨text⟩ : Path).isAbsolute = false →
      p.join text = ⟨front ++ text⟩ := by
    by_cases hbare : p.text = "" ∨ p.endsInSlash = true
    · exact ⟨p.text, fun text h => by rw [join, if_neg (hhead h), if_pos hbare]⟩
    · exact ⟨p.text ++ "/", fun text h => by rw [join, if_neg (hhead h), if_neg hbare]⟩
  have hbehind (text : String) (hend : (⟨text⟩ : Path).endsInSlash = false) (hsome : text ≠ "") :
      (⟨text⟩ : Path).join name = ⟨text ++ "/" ++ name⟩ := by
    rw [join, if_neg (hhead (isAbsolute_of_not_mem hname.no_slash)), if_neg (by simp [hend, hsome])]
  have hlast : (⟨front ++ q⟩ : Path).endsInSlash = false := by
    have hchars : q.toList ≠ [] := by simpa using hne
    rw [endsInSlash] at hslash ⊢
    rwa [String.toList_append, List.getLast?_append, List.getLast?_eq_some_getLast hchars,
      Option.some_or, ← List.getLast?_eq_some_getLast hchars]
  have hlonger : (⟨q ++ "/" ++ name⟩ : Path).isAbsolute = false := by
    rw [← hbehind q hslash hne, isAbsolute_join (isAbsolute_of_not_mem hname.no_slash), hrelative]
  rw [hbehind q hslash hne, hfront _ hlonger, hfront q hrelative,
    hbehind _ hlast (by simp [hne])]
  simp [String.append_assoc]

/-- What lies below a path has, seen from there, the names on the way to it. -/
theorem join_descend {names : List String} (hne : names ≠ []) (hnames : ∀ name ∈ names, IsName name)
    (p : Path) : p.join ((⟨""⟩ : Path).descend names).text = p.descend names := by
  have hconcat (q : Path) (front : List String) (last : String) :
      q.descend (front ++ [last]) = (q.descend front).join last := by simp [descend]
  induction names using List.reverseRecOn with
  | nil => exact absurd rfl hne
  | append_singleton front last ih =>
      obtain ⟨hfront, hlast⟩ := List.forall_mem_append.mp hnames
      have hlast := hlast last (List.mem_singleton_self last)
      rw [hconcat, hconcat]
      by_cases hempty : front = []
      · subst hempty
        rw [descend_nil, descend_nil, empty_join (isAbsolute_of_not_mem hlast.no_slash)]
      · have hne : ((⟨""⟩ : Path).descend front).text ≠ "" := by
          refine text_ne_empty_of_parts ?_
          rw [parts_descend hfront]
          exact hempty
        exact (join_join (isAbsolute_descend hfront) hne (endsInSlash_descend hempty hfront) hlast
          p).trans (congrArg (fun q : Path => q.join last) (ih hempty hfront))

end EditorHost.Path
