import EditorHost.Path
import EditorHost.Table

/-!
# A disk as a value

The files that the host reads and writes form a tree of folders, files and symbolic links.

A path is followed part by part, from the root or from the current folder.  Every part asks for a
folder to start from: a dot leads to that folder itself, two dots to the one above, and a name to an
entry; a link leads to its target, and at most forty links are followed.  The entries of a folder
come in the order of their names.

## Contents

* `Disk`, `Node` and `Content`, and why operations on a disk fail.
* `Disk.locate` follows a path, `Disk.nodeAt` gives what it leads to, and `Disk.entryAt` the entry
  itself, which may be a link.
* `Disk.entriesOf` lists what lies below a folder.
-/

namespace EditorHost

/-- What a file holds: a text, or octets that are not one. -/
inductive Content where
  | text (text : String)
  | binary (octets : List UInt8)
  deriving DecidableEq

/-- A file, a link or a folder with its entries. -/
inductive Node where
  | file (content : Content)
  | link (target : Path)
  | folder (entries : List (String × Node))
  deriving Inhabited

/-- Why an operation on a disk failed. -/
inductive DiskError where
  | notFound
  | inUse
  | alreadyThere
  | notFolder
  | isFolder
  | invalidPath
  | nameTooLong
  | notEmpty
  | tooManyLinks
  /-- A path holds the character zero. -/
  | zeroInName
  | notText
  | notFile
  deriving DecidableEq, Repr

/-- What is said about a failure. -/
def DiskError.message : DiskError → String
  | .notFound => "No such file or directory (os error 2)"
  | .inUse => "Device or resource busy (os error 16)"
  | .alreadyThere => "File exists (os error 17)"
  | .notFolder => "Not a directory (os error 20)"
  | .isFolder => "Is a directory (os error 21)"
  | .invalidPath => "Invalid argument (os error 22)"
  | .nameTooLong => "File name too long (os error 36)"
  | .notEmpty => "Directory not empty (os error 39)"
  | .tooManyLinks => "Too many levels of symbolic links (os error 40)"
  | .zeroInName => "file name contained an unexpected NUL byte"
  | .notText => "stream did not contain valid UTF-8"
  | .notFile => "the source path is neither a regular file nor a symlink to a regular file"

namespace Node

/-- The node at the end of a list of names, links not followed. -/
def get? (node : Node) : List String → Option Node
  | [] => some node
  | name :: rest =>
    match node with
    | .folder entries => (Table.find? entries name).bind fun child => child.get? rest
    | _ => none

/-- The tree with a node in the place of a list of names whose folders exist. -/
def put (node : Node) (value : Node) : List String → Node
  | [] => value
  | name :: rest =>
    match node with
    | .folder entries =>
      .folder (Table.insert entries name
        (put ((Table.find? entries name).getD (.folder [])) value rest))
    | other => other

/-- The tree without the node at the end of a list of names. -/
def remove (node : Node) : List String → Node
  | [] => .folder []
  | [name] =>
    match node with
    | .folder entries => .folder (Table.erase entries name)
    | other => other
  | name :: rest =>
    match node with
    | .folder entries => .folder (Table.adjust entries name fun child => child.remove rest)
    | other => other

end Node

/-- The tree below the root, and the folder in which relative paths start. -/
structure Disk where
  root : Node
  here : List String := []
  deriving Inhabited

namespace Disk

/-- The disk with nothing on it. -/
def empty : Disk := { root := .folder [] }

/-! ## Names and paths that a disk takes -/

/-- How many octets a name may have. -/
def maxName : Nat := 255

/-- How many octets a path may have. -/
def maxPath : Nat := 4095

def checkName (name : String) : Except DiskError Unit :=
  if name.utf8ByteSize ≤ maxName then .ok () else .error .nameTooLong

def checkPath (p : Path) : Except DiskError Unit :=
  if p.text.toList.contains '\x00' then .error .zeroInName
  else if p.text = "" then .error .notFound
  else if p.text.utf8ByteSize ≤ maxPath then .ok ()
  else .error .nameTooLong

/-! ## Following paths -/

/-- The entries of the folder at a place. -/
def entriesAt (d : Disk) (place : List String) : Except DiskError (Table Node) :=
  match d.root.get? place with
  | some (.folder entries) => .ok entries
  | some _ => .error .notFolder
  | none => .error .notFound

/-- Where a path starts that is met in a folder. -/
def startOf (p : Path) (folder : List String) : List String := if p.isAbsolute then [] else folder

/-- Follows steps from a place; `jump` goes on behind a link. -/
def walk (d : Disk) (jump : List String → List String → Except DiskError (List String)) :
    List String → List String → Except DiskError (List String)
  | place, [] => .ok place
  | place, step :: rest => do
    let entries ← d.entriesAt place
    if step = "." then walk d jump place rest
    else if step = ".." then walk d jump place.dropLast rest
    else
      checkName step
      match entries.find? step with
      | none => .error .notFound
      | some (.link target) => jump (startOf target place) (target.steps ++ rest)
      | some _ => walk d jump (place ++ [step]) rest

/-- Follows steps through at most the given number of links. -/
def follow (d : Disk) : Nat → List String → List String → Except DiskError (List String)
  | 0 => d.walk fun _ _ => .error .tooManyLinks
  | links + 1 => d.walk (d.follow links)

/-- How many links a path may lead through. -/
def maxLinks : Nat := 40

/-- The names from the root to what a path leads to, if that exists. -/
def locate (d : Disk) (p : Path) : Except DiskError (List String) := do
  checkPath p
  d.follow maxLinks (startOf p d.here) p.steps

/-- What a path leads to. -/
def nodeAt (d : Disk) (p : Path) : Except DiskError Node := do
  match d.root.get? (← d.locate p) with
  | some node => .ok node
  | none => .error .notFound

/-- Where the last part of a path stands: the folder that it is looked up in. -/
structure Spot where
  folder : List String
  entries : Table Node
  last : String

/-- Whether the last part of a path is the name of an entry. -/
def Spot.isName (s : Spot) : Bool := s.last ≠ "." && s.last ≠ ".."

/-- The place of an entry. -/
def Spot.place (s : Spot) : List String := s.folder ++ [s.last]

/-- Where the last part of a path stands; the root stands nowhere. -/
def spot? (d : Disk) (p : Path) : Except DiskError (Option Spot) := do
  checkPath p
  match p.parts.getLast? with
  | none => return none
  | some last =>
    let folder ← d.follow maxLinks (startOf p d.here) p.parts.dropLast
    return some ⟨folder, ← d.entriesAt folder, last⟩

/-- The entry of a path itself: a link at the end is not followed. -/
def entryAt (d : Disk) (p : Path) : Except DiskError Node := do
  match ← d.spot? p with
  | none => return d.root
  | some s =>
    if s.isName ∧ ¬p.endsInSlash then
      checkName s.last
      match s.entries.find? s.last with
      | some node => return node
      | none => .error .notFound
    else d.nodeAt p

/-! ## Looking -/

def find? (d : Disk) (p : Path) : Option Node := (d.nodeAt p).toOption

def isFolder (d : Disk) (p : Path) : Bool := d.find? p matches some (.folder _)

def isFile (d : Disk) (p : Path) : Bool := d.find? p matches some (.file _)

def exists? (d : Disk) (p : Path) : Bool := (d.find? p).isSome

/-- Whether there is something at a path, if that can be told. -/
def checkExists (d : Disk) (p : Path) : Except DiskError Bool :=
  match d.nodeAt p with
  | .ok _ => .ok true
  | .error .notFound => .ok false
  | .error e => .error e

/-- The text of a file. -/
def readText (d : Disk) (p : Path) : Except DiskError String := do
  match ← d.nodeAt p with
  | .file (.text s) => .ok s
  | .file (.binary _) => .error .notText
  | _ => .error .isFolder

/-- Whether two paths lead to the same existing place. -/
def samePlace (d : Disk) (p q : Path) : Bool :=
  match d.locate p, d.locate q with
  | .ok a, .ok b => a == b
  | _, _ => false

/-! ## Trees -/

/-- An entry found on a walk below a folder: its path, and the node itself. -/
structure Entry where
  path : Path
  node : Node

mutual
/-- What is in a node at a path, folders before what is in them. -/
def entriesOf (path : Path) : Node → List Entry
  | .folder entries => entriesOfAll path entries
  | _ => []

/-- The entries of a folder, each followed by what is in it. -/
def entriesOfAll (path : Path) : List (String × Node) → List Entry
  | [] => []
  | (name, node) :: rest =>
    ⟨path.join name, node⟩ :: (entriesOf (path.join name) node ++ entriesOfAll path rest)
end

end Disk

end EditorHost
