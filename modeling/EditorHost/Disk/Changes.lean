import EditorHost.Disk

/-!
# What changed on a disk

The steps that lead from one tree to another: what is gone is removed first, and a folder is made
before what is in it.  Links are never made, so that a link that stayed needs no step.
-/

namespace EditorHost.Disk

/-- A step from one tree to another, at a list of names from the root. -/
inductive Change where
  | remove (place : List String)
  | makeFolder (place : List String)
  | write (place : List String) (content : Content)

mutual
/-- The steps that make a node where nothing is. -/
def creations (place : List String) : Node → List Change
  | .file content => [.write place content]
  | .link _ => []
  | .folder entries => .makeFolder place :: creationsAmong place entries

/-- The steps that make the entries of an empty folder. -/
def creationsAmong (place : List String) : List (String × Node) → List Change
  | [] => []
  | (name, node) :: rest => creations (place ++ [name]) node ++ creationsAmong place rest
end

/-- The entries of a folder that are missing from another one. -/
def removals (place : List String) (before after : List (String × Node)) : List Change :=
  ((Table.keys before).filter fun name => !Table.has after name).map fun name =>
    .remove (place ++ [name])

mutual
/-- The steps from one node to another. -/
def changes (place : List String) (before : Node) : Node → List Change
  | .folder entries =>
    match before with
    | .folder old => removals place old entries ++ changesAmong place old entries
    | _ => .remove place :: creations place (.folder entries)
  | .file content =>
    match before with
    | .file old => if old = content then [] else [.write place content]
    | _ => [.remove place, .write place content]
  | .link _ => []

/-- The steps from the entries of one folder to those of another, where none is missing. -/
def changesAmong (place : List String) (before : List (String × Node)) :
    List (String × Node) → List Change
  | [] => []
  | (name, node) :: rest =>
    (match Table.find? before name with
    | some old => changes (place ++ [name]) old node
    | none => creations (place ++ [name]) node) ++ changesAmong place before rest
end

/-- The steps from one disk to another. -/
def changesTo (before after : Disk) : List Change := changes [] before.root after.root

end EditorHost.Disk
