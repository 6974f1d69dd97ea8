import Provision.Gather.FileSystem
import Provision.Proofs.Values.Sorted

/-!
# Places in a file tree

What the names of a path lead to one after the other, and which regular files are below a node:

* **paths** — a path is taken step by step (`descend_cons`), so it ends where a first part of it
  fails (`descend_append_of_error`), and it cannot go on after a regular file
  (`descend_append_of_file`);
* **files** — the files below a node are those to which names lead (`HasFile`), and a listing goes
  through the names of each directory in their order (`filesBelow_directory`).
-/

namespace Provision.FileNode

/-! ## Paths -/

/-- One step of a path: where it leads, with the directories around that place. -/
def enter (outer : List FileNode) (node : FileNode) (name : String) :
    Except FileFault (List FileNode × FileNode) :=
  match node with
  | .file _ => .error .notADirectory
  | .directory entries =>
    if name = "" ∨ name = "." then .ok (outer, node)
    else if name = ".." then
      match outer with
      | [] => .ok ([], node)
      | parent :: outer => .ok (outer, parent)
    else
      match Entries.get? name entries with
      | none => .error .notFound
      | some child => .ok (node :: outer, child)

theorem descend_cons (outer : List FileNode) (node : FileNode) (name : String)
    (names : List String) :
    descend outer node (name :: names) =
      (enter outer node name).bind fun (outer, node) => descend outer node names := by
  cases node with
  | file content => rfl
  | directory entries =>
    simp only [descend, enter]
    split
    · rfl
    · split
      · cases outer <;> rfl
      · cases Entries.get? name entries <;> rfl

/-- A path ends where a first part of it fails. -/
theorem descend_append_of_error {outer : List FileNode} {node : FileNode} {front : List String}
    {fault : FileFault} (h : descend outer node front = .error fault) (back : List String) :
    descend outer node (front ++ back) = .error fault := by
  induction front generalizing outer node with
  | nil => cases h
  | cons name front ih =>
    rw [descend_cons] at h
    rw [List.cons_append, descend_cons]
    cases hstep : enter outer node name with
    | error e =>
      rw [hstep] at h
      exact h
    | ok place =>
      rw [hstep] at h
      exact ih h

/-- A path cannot go on after a regular file. -/
theorem descend_append_of_file {outer : List FileNode} {node : FileNode} {front : List String}
    {content : Bytes} (h : descend outer node front = .ok (.file content)) (name : String)
    (back : List String) : descend outer node (front ++ name :: back) = .error .notADirectory := by
  induction front generalizing outer node with
  | nil =>
    cases h
    rfl
  | cons step front ih =>
    rw [descend_cons] at h
    rw [List.cons_append, descend_cons]
    cases hstep : enter outer node step with
    | error e =>
      rw [hstep] at h
      cases h
    | ok place =>
      rw [hstep] at h
      exact ih h

/-! ## Files -/

/-- Whether names lead from a node to a regular file with a content, one directory after the
other. -/
inductive HasFile : FileNode → List String → Bytes → Prop
  | here (content : Bytes) : HasFile (.file content) [] content
  | inside {entries : Entries FileNode} {name : String} {node : FileNode} {names : List String}
      {content : Bytes} : (name, node) ∈ entries → HasFile node names content →
      HasFile (.directory entries) (name :: names) content

/-- The path to which names lead from a path. -/
def pathOf (path : String) (names : List String) : String := names.foldl join path

/-- A file as it is found from a path on. -/
def found (path : String) (f : List String × Bytes) : FoundFile := ⟨pathOf path f.1, f.2⟩

theorem filesOfEntries_eq_map (path : String) (entries : Entries FileNode) :
    filesOfEntries path entries = entries.map fun e => (e.1, filesBelow (join path e.1) e.2) := by
  induction entries with
  | nil => rfl
  | cons e entries ih => rw [filesOfEntries, ih, List.map_cons]

/-- A directory is listed name by name. -/
theorem filesBelow_directory (path : String) (entries : Entries FileNode) :
    filesBelow path (.directory entries) =
      (Entries.sorted entries).flatMap fun e => filesBelow (join path e.1) e.2 := by
  have hsorted : Entries.sorted (filesOfEntries path entries) =
      (Entries.sorted entries).map fun e => (e.1, filesBelow (join path e.1) e.2) := by
    rw [filesOfEntries_eq_map]
    have hmap := List.map_mergeSort (l := entries) (r := fun a b => a.1 ≤ b.1)
      (s := fun a b => a.1 ≤ b.1) (f := fun e => (e.1, filesBelow (join path e.1) e.2))
      fun a _ b _ => rfl
    exact hmap.symm
  show (Entries.sorted (filesOfEntries path entries)).flatMap (·.2) = _
  rw [hsorted, List.flatMap_map]

theorem filesBelow_singleton (path name : String) (content : Bytes) :
    filesBelow path (.directory [(name, .file content)]) = [⟨join path name, content⟩] := by
  rw [filesBelow_directory, Entries.sorted, List.mergeSort_singleton]
  rfl

end Provision.FileNode
