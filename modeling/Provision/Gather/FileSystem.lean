import Provision.Gather.FileTree

/-!
# File systems

What a process finds of files: a tree from its root on, the working directory in it, and a system
that reads files or refuses to. A path that starts with a slash starts at the root, and any other at
the working directory.
-/

namespace Provision

/-- How a system reads the files that are found: what is in them, or why it refuses. -/
abbrev Reading := FoundFile → Except String Bytes

/-- The reading that is never refused. -/
def Reading.granted : Reading := fun file => .ok file.content

/-- The files that a process finds. -/
structure FileSystem where
  root : FileNode
  /-- The names that lead from the root to the working directory. -/
  working : List String := []
  read : Reading := .granted

/-- Why there is no text at a path. -/
inductive TextFault where
  /-- The path leads to nothing. -/
  | unreached (fault : FileFault)
  /-- The path leads to a directory. -/
  | isADirectory
  /-- The system refuses to read the file, for a reason that it names. -/
  | refused (why : String)
  /-- What is in the file is no text. -/
  | notText
deriving DecidableEq, Repr

/-- The name of a fault in messages. -/
def TextFault.name : TextFault → String
  | .unreached fault => fault.name
  | .isADirectory => "IsADirectory"
  | .refused why => why
  | .notText => "InvalidData"

namespace FileSystem

/-- The names that a path goes through from the root on. -/
def names (path : String) (system : FileSystem) : List String :=
  if path.toList.head? = some '/' then FileNode.segments path
  else system.working ++ FileNode.segments path

/-- What a path leads to. The empty path leads to nothing. -/
def at? (path : String) (system : FileSystem) : Except FileFault FileNode :=
  if path = "" then .error .notFound else FileNode.descend [] system.root (system.names path)

/-- The regular files at and below a path. -/
def listing (path : String) (system : FileSystem) : Except FileFault (List FoundFile) :=
  (system.at? path).map (FileNode.filesBelow path)

/-- The text of the regular file at a path. -/
def text? (path : String) (system : FileSystem) : Except TextFault String :=
  match system.at? path with
  | .error fault => .error (.unreached fault)
  | .ok (.directory _) => .error .isADirectory
  | .ok (.file content) =>
    match system.read ⟨path, content⟩ with
    | .error why => .error (.refused why)
    | .ok content =>
      match content.text? with
      | none => .error .notText
      | some text => .ok text

end FileSystem

end Provision
