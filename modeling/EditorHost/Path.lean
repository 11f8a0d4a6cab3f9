import EditorHost.Text.Split

/-!
# Paths

A path is a text whose parts are separated by slashes; it is kept as it was written.

## Contents

* `Path.components` are the parts that tell one path from another: repeated slashes, dots behind the
  start and a slash at the end do not count.  Beginnings of paths are compared by them.
* `Path.parts` and `Path.steps` are the parts as they are followed on a disk, where dots count.
* `Path.folder?` and `Path.ancestors` lead upwards, by the text alone.
-/

namespace EditorHost

/-- The text of a path. -/
structure Path where
  text : String
  deriving DecidableEq, Repr, Inhabited

namespace Path

def isAbsolute (p : Path) : Bool := p.text.toList.head? == some '/'

def endsInSlash (p : Path) : Bool := p.text.toList.getLast? == some '/'

/-- The path `q` as seen from `p`: an absolute `q` stands for itself. -/
def join (p : Path) (q : String) : Path :=
  if q.toList.head? = some '/' then ⟨q⟩
  else if p.text = "" ∨ p.endsInSlash then ⟨p.text ++ q⟩
  else ⟨p.text ++ "/" ++ q⟩

/-! ## Components -/

/-- A part of a path. -/
inductive Component where
  /-- The slash at the start of an absolute path. -/
  | root
  /-- A dot at the start of a relative path. -/
  | here
  | up
  | name (text : String)
  deriving DecidableEq, Repr

/-- The part of a path that a text between slashes stands for; `first` tells whether the path starts
with it. -/
def component? (first : Bool) (part : String) : Option Component :=
  if part = "" then none
  else if part = "." then if first then some .here else none
  else if part = ".." then some .up
  else some (.name part)

/-- The parts of a path. -/
def components (p : Path) : List Component :=
  let parts := Text.splitText '/' p.text
  let start :=
    if p.isAbsolute then [Component.root] else (parts.head?.bind (component? true)).toList
  start ++ parts.tail.filterMap (component? false)

/-- Whether a path lies at or below another, as far as the texts tell. -/
def startsWith (p base : Path) : Bool := base.components.isPrefixOf p.components

/-- The last part of a path, when that is a name. -/
def fileName? (p : Path) : Option String :=
  match p.components.getLast? with
  | some (.name text) => some text
  | _ => none

/-! ## Steps -/

/-- What stands between the slashes of a path. -/
def parts (p : Path) : List String := (Text.splitText '/' p.text).filter fun part => part ≠ ""

/-- The parts of a path as they are followed; a slash at the end asks for a folder, as a dot
does. -/
def steps (p : Path) : List String := if p.endsInSlash then p.parts ++ ["."] else p.parts

/-! ## Upwards -/

/-- A list of parts without those at its end that do not count. -/
def trimParts (parts : List String) : List String :=
  (parts.reverse.dropWhile fun part => part = "" ∨ part = ".").reverse

/-- The path without its last component; an absolute path ends at the root. -/
def folder? (p : Path) : Option Path :=
  match Text.splitText '/' p.text with
  | [] => none
  | first :: rest =>
    match trimParts rest with
    | [] => if first = "" then none else some ⟨""⟩
    | kept =>
      match trimParts kept.dropLast with
      | [] => some ⟨if first = "" then "/" else first⟩
      | above => some ⟨"/".intercalate (first :: above)⟩

/-- A path and at most so many of those above it, without the root and the empty path. -/
def upwards : Nat → Path → List Path
  | 0, _ => []
  | n + 1, p =>
    match p.folder? with
    | some folder => p :: upwards n folder
    | none => []

/-- A path and those above it, without the root and the empty path. -/
def ancestors (p : Path) : List Path := upwards p.parts.length p

end Path

end EditorHost
