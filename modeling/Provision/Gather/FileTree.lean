import Provision.Entries
import Provision.Text.Bytes
import Provision.Text.Pieces

/-!
# File trees

Directories with regular files in them, and what the names of a path lead to there.
`FileNode.filesBelow` has every regular file at and below a node, in the order of a walk that goes
through the names of each directory from the least to the greatest, whatever the order in which the
system gives them.
-/

namespace Provision

/-- A regular file with its content, or a directory with its entries in the order of the system. -/
inductive FileNode where
  | file (content : Bytes)
  | directory (entries : List (String × FileNode))

/-- Why a path leads to nothing. -/
inductive FileFault where
  /-- Nothing has that name. -/
  | notFound
  /-- The path goes on after a regular file. -/
  | notADirectory
deriving DecidableEq, Repr

/-- The name of a fault in messages. -/
def FileFault.name : FileFault → String
  | .notFound => "NotFound"
  | .notADirectory => "NotADirectory"

/-- A regular file that was found, with the path under which it was found. -/
structure FoundFile where
  path : String
  content : Bytes

namespace FileNode

/-- What the segments of a path lead to from a directory, the last of `outer` directories around it
first. A segment that is empty or one dot stays in place, and two dots lead out, but not out of the
root. -/
def descend (outer : List FileNode) (node : FileNode) :
    List String → Except FileFault FileNode
  | [] => .ok node
  | name :: names =>
    match node with
    | .file _ => .error .notADirectory
    | .directory entries =>
      if name = "" ∨ name = "." then descend outer node names
      else if name = ".." then
        match outer with
        | [] => descend [] node names
        | parent :: outer => descend outer parent names
      else
        match Entries.get? name entries with
        | none => .error .notFound
        | some child => descend (node :: outer) child names

/-- The segments of a path between its slashes. -/
def segments (path : String) : List String :=
  (Text.pieces '/' path.toList).map String.ofList

/-- The path of an entry of a directory. -/
def join (path name : String) : String :=
  if path.toList.getLast? = some '/' then path ++ name else path ++ "/" ++ name

mutual

/-- The regular files at and below a node that was found under a path. -/
def filesBelow (path : String) : FileNode → List FoundFile
  | .file content => [⟨path, content⟩]
  | .directory entries =>
    ((filesOfEntries path entries).mergeSort fun a b => a.1 ≤ b.1).flatMap (·.2)

/-- The regular files of each entry of a directory, by the entry's name. -/
def filesOfEntries (path : String) : List (String × FileNode) → List (String × List FoundFile)
  | [] => []
  | (name, node) :: entries =>
    (name, filesBelow (join path name) node) :: filesOfEntries path entries

end

/-- The entries of a directory; a file has none. -/
def entries : FileNode → Entries FileNode
  | .file _ => []
  | .directory entries => entries

/-- The tree with a node at the end of a path of names. The directories on the way are made where
they are missing. -/
def put (node : FileNode) : List String → FileNode → FileNode
  | [], _ => node
  | name :: names, tree =>
    let child := (tree.entries.get? name).getD (.directory [])
    .directory (Entries.put name (put node names child) tree.entries)

/-- The tree with a file at a path, or with a directory if the path ends in a slash. -/
def add (path : String) (content : Bytes) (tree : FileNode) : FileNode :=
  let names := (segments path).filter (· ≠ "")
  if path.toList.getLast? = some '/' then put (.directory (match descend [] tree names with
    | .ok node => node.entries
    | .error _ => [])) names tree
  else put (.file content) names tree

end FileNode

end Provision
