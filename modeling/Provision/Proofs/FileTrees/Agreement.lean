import Mathlib.Data.List.Forall2
import Provision.Heading
import Provision.Proofs.FileTrees.Places

/-!
# Trees that differ in files without a heading

Two trees agree if they have the same directories in them and the same regular files with a heading;
files without one may be in either, and hold anything. A path leads to nodes that agree again, and
the files below them are the same but for those without a heading:

* **paths** — one step leads to nodes that agree, or fails alike, or comes to a file without a
  heading that is in one of the trees only (`enter_agree`); by induction on the path this is so for
  a whole path (`descend_agree`), and where the file is not at the end of the path, the path is an
  error in both trees, but not the same one (`FileSystem.at?_agree`);
* **listings** — a file that only one of two nodes has, has no heading (`Agree.heading_of_loses`),
  and by induction on the agreement, their listings are the same without such files
  (`filter_filesBelow`).
-/

namespace Provision

namespace FileNode

/-- Whether a node is a regular file without a heading. -/
def Headless (node : FileNode) : Prop :=
  ∃ content, node = .file content ∧ Heading.ofBytes? content = none

/-- Whether two nodes differ in regular files without a heading only. The order in which a directory
has its entries is no matter. -/
inductive Agree : FileNode → FileNode → Prop
  | same (content : Bytes) : Agree (.file content) (.file content)
  | rewritten {content content' : Bytes} (before : Heading.ofBytes? content = none)
      (after : Heading.ofBytes? content' = none) : Agree (.file content) (.file content')
  | directory {entries entries' : Entries FileNode} (distinct : entries.keys.Nodup)
      (distinct' : entries'.keys.Nodup)
      (both : ∀ name node node', entries.get? name = some node → entries'.get? name = some node' →
        Agree node node')
      (removed : ∀ name node, entries.get? name = some node → entries'.get? name = none →
        node.Headless)
      (added : ∀ name node, entries'.get? name = some node → entries.get? name = none →
        node.Headless) :
      Agree (.directory entries) (.directory entries')

theorem Agree.symm {node node' : FileNode} (agree : node.Agree node') : node'.Agree node := by
  induction agree with
  | same content => exact .same content
  | rewritten before after => exact .rewritten after before
  | directory distinct distinct' both removed added ih =>
    exact .directory distinct' distinct (fun name n' n h' h => ih name n n' h h') added removed

theorem Agree.empty : (FileNode.directory []).Agree (.directory []) :=
  .directory .nil .nil nofun nofun nofun

/-- Directories agree with one more node of one name in both. -/
theorem Agree.cons {name : String} {node node' : FileNode} (agree : node.Agree node')
    {entries entries' : Entries FileNode}
    (rest : (FileNode.directory entries).Agree (.directory entries'))
    (fresh : name ∉ entries.keys) (fresh' : name ∉ entries'.keys) :
    (FileNode.directory ((name, node) :: entries)).Agree
      (.directory ((name, node') :: entries')) := by
  cases rest with
  | directory distinct distinct' both removed added =>
    refine .directory (List.nodup_cons.2 ⟨fresh, distinct⟩) (List.nodup_cons.2 ⟨fresh', distinct'⟩)
      (fun other n n' h h' => ?_) (fun other n h h' => ?_) (fun other n h' h => ?_)
    all_goals rw [Entries.get?_cons] at h h'; split at h
    · next hname =>
      rw [if_pos hname] at h'
      cases h
      cases h'
      exact agree
    · next hname =>
      rw [if_neg hname] at h'
      exact both other n n' h h'
    · next hname =>
      rw [if_pos hname] at h'
      cases h'
    · next hname =>
      rw [if_neg hname] at h'
      exact removed other n h h'
    · cases h
    · next hname =>
      rw [if_neg hname] at h'
      exact added other n h' h

/-- Directories agree with one more file without a heading in one of them. -/
theorem Agree.add {name : String} {content : Bytes} (heading : Heading.ofBytes? content = none)
    {entries entries' : Entries FileNode}
    (rest : (FileNode.directory entries).Agree (.directory entries'))
    (fresh : name ∉ entries.keys) (fresh' : name ∉ entries'.keys) :
    (FileNode.directory entries).Agree (.directory ((name, .file content) :: entries')) := by
  have hget := (Entries.get?_eq_none_iff name entries).2 fresh
  cases rest with
  | directory distinct distinct' both removed added =>
    refine .directory distinct (List.nodup_cons.2 ⟨fresh', distinct'⟩)
      (fun other n n' h h' => ?_) (fun other n h h' => ?_) (fun other n h' h => ?_)
    all_goals rw [Entries.get?_cons] at h'; split at h'
    · next hname =>
      rw [← hname, hget] at h
      cases h
    · exact both other n n' h h'
    · cases h'
    · exact removed other n h h'
    · cases h'
      exact ⟨content, rfl, heading⟩
    · exact added other n h' h

/-! ## Paths -/

/-- A first part of a path leads to a file without a heading in the one tree, and to nothing in the
other. -/
def Parts (outer outer' : List FileNode) (node node' : FileNode) (names : List String) : Prop :=
  ∃ front back content, names = front ++ back ∧ descend outer node front = .ok (.file content) ∧
    Heading.ofBytes? content = none ∧ descend outer' node' front = .error .notFound

theorem Parts.cons {outer outer' around around' : List FileNode} {node node' next next' : FileNode}
    {name : String} {names : List String} (hstep : enter outer node name = .ok (around, next))
    (hstep' : enter outer' node' name = .ok (around', next'))
    (parts : Parts around around' next next' names) :
    Parts outer outer' node node' (name :: names) := by
  obtain ⟨front, back, content, rfl, hfile, hheading, hgone⟩ := parts
  refine ⟨name :: front, back, content, rfl, ?_, hheading, ?_⟩
  · rw [descend_cons, hstep]
    exact hfile
  · rw [descend_cons, hstep']
    exact hgone

theorem Parts.of_enter {outer outer' around : List FileNode} {node node' next : FileNode}
    {name : String} (hstep : enter outer node name = .ok (around, next)) (headless : next.Headless)
    (hstep' : enter outer' node' name = .error .notFound) (names : List String) :
    Parts outer outer' node node' (name :: names) := by
  obtain ⟨content, rfl, hheading⟩ := headless
  refine ⟨[name], names, content, rfl, ?_, hheading, ?_⟩
  · rw [descend_cons, hstep]
    rfl
  · rw [descend_cons, hstep']
    rfl

/-- One step in two trees that agree. -/
theorem enter_agree {outer outer' : List FileNode} (around : List.Forall₂ Agree outer outer')
    {node node' : FileNode} (agree : node.Agree node') (name : String) :
    (∃ o o' n n', enter outer node name = .ok (o, n) ∧ enter outer' node' name = .ok (o', n') ∧
        List.Forall₂ Agree o o' ∧ n.Agree n') ∨
      (∃ fault, enter outer node name = .error fault ∧ enter outer' node' name = .error fault) ∨
      (∃ o n, enter outer node name = .ok (o, n) ∧ n.Headless ∧
        enter outer' node' name = .error .notFound) ∨
      ∃ o n, enter outer' node' name = .ok (o, n) ∧ n.Headless ∧
        enter outer node name = .error .notFound := by
  cases agree with
  | same content => exact .inr (.inl ⟨_, rfl, rfl⟩)
  | rewritten before after => exact .inr (.inl ⟨_, rfl, rfl⟩)
  | @directory entries entries' distinct distinct' both removed added =>
    have agree := Agree.directory distinct distinct' both removed added
    simp only [enter]
    split
    · exact .inl ⟨_, _, _, _, rfl, rfl, around, agree⟩
    · split
      · cases around with
        | nil => exact .inl ⟨_, _, _, _, rfl, rfl, .nil, agree⟩
        | cons hparent houter => exact .inl ⟨_, _, _, _, rfl, rfl, houter, hparent⟩
      · cases h : entries.get? name with
        | some child =>
          cases h' : entries'.get? name with
          | some child' =>
            exact .inl ⟨_, _, _, _, rfl, rfl, .cons agree around, both name child child' h h'⟩
          | none => exact .inr (.inr (.inl ⟨_, _, rfl, removed name child h h', rfl⟩))
        | none =>
          cases h' : entries'.get? name with
          | some child' => exact .inr (.inr (.inr ⟨_, _, rfl, added name child' h' h, rfl⟩))
          | none => exact .inr (.inl ⟨_, rfl, rfl⟩)

/-- A whole path in two trees that agree, by induction on its steps. -/
theorem descend_agree {outer outer' : List FileNode} (around : List.Forall₂ Agree outer outer')
    {node node' : FileNode} (agree : node.Agree node') (names : List String) :
    (∃ n n', descend outer node names = .ok n ∧ descend outer' node' names = .ok n' ∧ n.Agree n') ∨
      (∃ fault, descend outer node names = .error fault ∧
        descend outer' node' names = .error fault) ∨
      Parts outer outer' node node' names ∨ Parts outer' outer node' node names := by
  induction names generalizing outer outer' node node' with
  | nil => exact .inl ⟨node, node', rfl, rfl, agree⟩
  | cons name names ih =>
    rcases enter_agree around agree name with ⟨o, o', n, n', hstep, hstep', haround, hagree⟩ |
      ⟨fault, hstep, hstep'⟩ | ⟨o, n, hstep, headless, hstep'⟩ | ⟨o, n, hstep', headless, hstep⟩
    · rw [descend_cons, descend_cons, hstep, hstep']
      rcases ih haround hagree with h | h | h | h
      · exact .inl h
      · exact .inr (.inl h)
      · exact .inr (.inr (.inl (h.cons hstep hstep')))
      · exact .inr (.inr (.inr (h.cons hstep' hstep)))
    · rw [descend_cons, descend_cons, hstep, hstep']
      exact .inr (.inl ⟨fault, rfl, rfl⟩)
    · exact .inr (.inr (.inl (.of_enter hstep headless hstep' names)))
    · exact .inr (.inr (.inr (.of_enter hstep' headless hstep names)))

/-! ## Listings -/

/-- Whether a node has a regular file where another has none with that content. -/
def Loses (node node' : FileNode) (f : List String × Bytes) : Prop :=
  node.HasFile f.1 f.2 ∧ ¬ node'.HasFile f.1 f.2

/-- A file below an entry that only one of two directories has below that name. -/
theorem Loses.inside {entries entries' : Entries FileNode} {name : String} {node node' : FileNode}
    {f : List String × Bytes} (distinct' : entries'.keys.Nodup)
    (h : entries.get? name = some node) (h' : entries'.get? name = some node')
    (loses : node.Loses node' f) :
    (FileNode.directory entries).Loses (.directory entries') (name :: f.1, f.2) := by
  refine ⟨.inside (Entries.mem_of_get? h) loses.1, ?_⟩
  rintro (_ | ⟨hmem, hfile⟩)
  cases h'.symm.trans (Entries.get?_of_mem distinct' hmem)
  exact loses.2 hfile

/-- A file below an entry of a name that the other directory has not. -/
theorem Loses.of_get?_eq_none {entries entries' : Entries FileNode} {name : String}
    {node : FileNode} {f : List String × Bytes} (distinct' : entries'.keys.Nodup)
    (h : entries.get? name = some node) (h' : entries'.get? name = none)
    (file : node.HasFile f.1 f.2) :
    (FileNode.directory entries).Loses (.directory entries') (name :: f.1, f.2) := by
  refine ⟨.inside (Entries.mem_of_get? h) file, ?_⟩
  rintro (_ | ⟨hmem, -⟩)
  cases h'.symm.trans (Entries.get?_of_mem distinct' hmem)

/-- A file that only one of two nodes has, has no heading. -/
theorem Agree.heading_of_loses {node node' : FileNode} (agree : node.Agree node')
    {f : List String × Bytes} (loses : node.Loses node' f) : Heading.ofBytes? f.2 = none := by
  obtain ⟨names, content⟩ := f
  obtain ⟨file, gone⟩ := loses
  dsimp only at file gone
  induction file generalizing node' with
  | here content =>
    cases agree with
    | same => exact absurd (.here content) gone
    | rewritten before after => exact before
  | @inside entries name node names content hmem file ih =>
    cases agree with
    | @directory _ entries' distinct distinct' both removed added =>
      have hget := Entries.get?_of_mem distinct hmem
      cases hget' : entries'.get? name with
      | some node' =>
        exact ih (both name node node' hget hget') fun h =>
          gone (.inside (Entries.mem_of_get? hget') h)
      | none =>
        obtain ⟨content', rfl, heading⟩ := removed name node hget hget'
        cases file
        exact heading

/-- The files of each entry of a directory that are kept, for those entries that have any, in the
order of their names. -/
def keptEntries (keep : FoundFile → Bool) (path : String) (entries : Entries FileNode) :
    Entries (List FoundFile) :=
  ((Entries.sorted (filesOfEntries path entries)).map fun e =>
    (e.1, e.2.filter keep)).filter fun e => !e.2.isEmpty

variable {keep : FoundFile → Bool}

theorem filter_filesBelow_directory (path : String) (entries : Entries FileNode) :
    (filesBelow path (.directory entries)).filter keep =
      (keptEntries keep path entries).flatMap (·.2) := by
  have hempty (es : Entries (List FoundFile)) :
      (es.filter fun e => !e.2.isEmpty).flatMap (·.2) = es.flatMap (·.2) := by
    induction es with
    | nil => rfl
    | cons e es ih =>
      obtain ⟨name, files⟩ := e
      cases files <;> simp [ih]
  rw [keptEntries, hempty, List.flatMap_map, filesBelow, List.filter_flatMap]
  rfl

theorem mem_keptEntries {path : String} {entries : Entries FileNode}
    {e : String × List FoundFile} :
    e ∈ keptEntries keep path entries ↔ e.2 ≠ [] ∧ ∃ node, (e.1, node) ∈ entries ∧
      (filesBelow (join path e.1) node).filter keep = e.2 := by
  obtain ⟨name, files⟩ := e
  rw [keptEntries, List.mem_filter, List.mem_map, filesOfEntries_eq_map, and_comm]
  refine and_congr (by simp) ?_
  constructor
  · rintro ⟨f, hf, heq⟩
    rw [(Entries.sorted_perm _).mem_iff, List.mem_map] at hf
    obtain ⟨⟨name', node⟩, hnode, rfl⟩ := hf
    cases heq
    exact ⟨node, hnode, rfl⟩
  · rintro ⟨node, hnode, hfiles⟩
    refine ⟨(name, filesBelow (join path name) node), ?_, by rw [hfiles]⟩
    rw [(Entries.sorted_perm _).mem_iff]
    exact List.mem_map.2 ⟨_, hnode, rfl⟩

theorem pairwise_keptEntries (path : String) (entries : Entries FileNode) :
    (keptEntries keep path entries).Pairwise fun a b => a.1 ≤ b.1 := by
  refine List.Pairwise.filter _ (List.pairwise_map.2 ?_)
  exact Entries.pairwise_sorted (filesOfEntries path entries)

theorem nodup_keys_keptEntries (path : String) {entries : Entries FileNode}
    (distinct : entries.keys.Nodup) : (keptEntries keep path entries).keys.Nodup := by
  have hkeys : Entries.keys (filesOfEntries path entries) = entries.keys := by
    rw [filesOfEntries_eq_map, Entries.keys, List.map_map]
    rfl
  have hsorted : (Entries.sorted (filesOfEntries path entries)).keys.Nodup :=
    (Entries.keys_sorted_perm _).nodup_iff.2 (hkeys ▸ distinct)
  refine List.Nodup.sublist (List.filter_sublist.map Prod.fst) ?_
  rwa [List.map_map]

/-- What an entry adds to a listing, the entry of that name in the other directory adds as well. -/
theorem keptEntries_subset {path : String} {entries entries' : Entries FileNode}
    (distinct : entries.keys.Nodup)
    (same : ∀ name node node', entries.get? name = some node → entries'.get? name = some node' →
      (filesBelow (join path name) node).filter keep =
        (filesBelow (join path name) node').filter keep)
    (removed : ∀ name node, entries.get? name = some node → entries'.get? name = none →
      (filesBelow (join path name) node).filter keep = []) :
    keptEntries keep path entries ⊆ keptEntries keep path entries' := by
  intro e he
  obtain ⟨hnonempty, node, hnode, hfiles⟩ := mem_keptEntries.1 he
  have hget := Entries.get?_of_mem distinct hnode
  refine mem_keptEntries.2 ⟨hnonempty, ?_⟩
  cases hget' : entries'.get? e.1 with
  | none =>
    rw [removed _ _ hget hget'] at hfiles
    exact absurd hfiles.symm hnonempty
  | some node' =>
    exact ⟨node', Entries.mem_of_get? hget', (same _ _ _ hget hget').symm.trans hfiles⟩

/-- Nothing is kept of a file that is not to be kept. -/
theorem Headless.filter_filesBelow {node : FileNode} (headless : node.Headless) {path : String}
    (unkept : ∀ f, node.HasFile f.1 f.2 → keep (found path f) = false) :
    (filesBelow path node).filter keep = [] := by
  obtain ⟨content, rfl, -⟩ := headless
  have hunkept : keep ⟨path, content⟩ = false := unkept ([], content) (.here content)
  simp [filesBelow, hunkept]

/-- If no file is kept that only one of two nodes has, then the same files are kept of those below
nodes that agree, in the same order. -/
theorem filter_filesBelow {node node' : FileNode} (agree : node.Agree node') (path : String)
    (lost : ∀ f, node.Loses node' f → keep (found path f) = false)
    (lost' : ∀ f, node'.Loses node f → keep (found path f) = false) :
    (filesBelow path node).filter keep = (filesBelow path node').filter keep := by
  induction agree generalizing path with
  | same content => rfl
  | @rewritten content content' before after =>
    by_cases hcontent : content = content'
    · rw [hcontent]
    · have gone : (FileNode.file content).Loses (.file content') ([], content) :=
        ⟨.here content, by rintro ⟨⟩; exact hcontent rfl⟩
      have gone' : (FileNode.file content').Loses (.file content) ([], content') :=
        ⟨.here content', by rintro ⟨⟩; exact hcontent rfl⟩
      have hkeep : keep ⟨path, content⟩ = false := lost _ gone
      have hkeep' : keep ⟨path, content'⟩ = false := lost' _ gone'
      simp [filesBelow, hkeep, hkeep']
  | @directory entries entries' distinct distinct' both removed added ih =>
    have same (name : String) (node node' : FileNode) (h : entries.get? name = some node)
        (h' : entries'.get? name = some node') :
        (filesBelow (join path name) node).filter keep =
          (filesBelow (join path name) node').filter keep :=
      ih name node node' h h' (join path name)
        (fun f hf => lost _ (hf.inside distinct' h h'))
        (fun f hf => lost' _ (hf.inside distinct h' h))
    rw [filter_filesBelow_directory, filter_filesBelow_directory]
    have there : keptEntries keep path entries ⊆ keptEntries keep path entries' := by
      refine keptEntries_subset distinct same ?_
      intro name node h h'
      exact (removed name node h h').filter_filesBelow fun f hf =>
        lost _ (.of_get?_eq_none distinct' h h' hf)
    have back : keptEntries keep path entries' ⊆ keptEntries keep path entries := by
      refine keptEntries_subset distinct' (fun name node node' h h' => ?_) ?_
      · exact (same name node' node h' h).symm
      · intro name node h h'
        exact (added name node h h').filter_filesBelow fun f hf =>
          lost' _ (.of_get?_eq_none distinct h h' hf)
    -- Both lists are in the order of names, and no name is twice in one of them.
    refine congrArg _ (Entries.eq_of_mem_iff (pairwise_keptEntries path entries)
      (pairwise_keptEntries path entries') (nodup_keys_keptEntries path distinct)
      (nodup_keys_keptEntries path distinct') ?_)
    intro e
    exact ⟨fun he => there he, fun he => back he⟩

end FileNode

/-! ## Systems -/

namespace FileSystem

open FileNode (descend Parts descend_agree descend_append_of_error descend_append_of_file)

/-- Whether two systems differ in regular files without a heading only. -/
structure Agree (system system' : FileSystem) : Prop where
  root : system.root.Agree system'.root
  working : system.working = system'.working
  read : system.read = system'.read

theorem Agree.names_eq {system system' : FileSystem} (agree : system.Agree system')
    (path : String) : system.names path = system'.names path := by
  unfold names
  rw [agree.working]

/-- Whether a path leads to one regular file in two systems, or to none in both. -/
def SameFile (path : String) (system system' : FileSystem) : Prop :=
  ∀ content, system.at? path = .ok (.file content) ↔ system'.at? path = .ok (.file content)

theorem SameFile.symm {path : String} {system system' : FileSystem}
    (same : SameFile path system system') : SameFile path system' system :=
  fun content => (same content).symm

theorem SameFile.of_directory {path : String} {system system' : FileSystem}
    {entries entries' : Entries FileNode} (h : system.at? path = .ok (.directory entries))
    (h' : system'.at? path = .ok (.directory entries')) : SameFile path system system' := by
  intro content
  rw [h, h']
  constructor <;> intro hfile <;> cases hfile

/-- Whether a path goes on after a regular file without a heading, with nothing in its place in the
other system. -/
def LeadsThrough (path : String) (system system' : FileSystem) : Prop :=
  ∃ front name back content, system.names path = front ++ name :: back ∧
    descend [] system.root front = .ok (.file content) ∧ Heading.ofBytes? content = none ∧
    descend [] system'.root front = .error .notFound

/-- Whether a file is found from a path on in the one system, and not in the same place with that
content in the other. -/
def Loses (path : String) (system system' : FileSystem) (file : FoundFile) : Prop :=
  ∃ node f, system.at? path = .ok node ∧ node.HasFile f.1 f.2 ∧ file = FileNode.found path f ∧
    ∀ node', system'.at? path = .ok node' → ¬ node'.HasFile f.1 f.2

variable {system system' : FileSystem} {path : String}

/-- A path that parts two systems leads through the file where it does so, unless it names that
file. -/
theorem leadsThrough_of_parts (agree : system.names path = system'.names path)
    (same : SameFile path system system') (hpath : path ≠ "")
    (parts : Parts [] [] system.root system'.root (system.names path)) :
    LeadsThrough path system system' ∧ system.at? path = .error .notADirectory ∧
      system'.at? path = .error .notFound := by
  obtain ⟨front, back, content, hnames, hfile, hheading, hgone⟩ := parts
  have hat : system.at? path = descend [] system.root (front ++ back) := by
    rw [at?, if_neg hpath, hnames]
  have hat' : system'.at? path = .error .notFound := by
    rw [at?, if_neg hpath, ← agree, hnames, descend_append_of_error hgone]
  cases back with
  | nil =>
    rw [List.append_nil, hfile] at hat
    cases hat'.symm.trans ((same content).1 hat)
  | cons name back =>
    rw [descend_append_of_file hfile] at hat
    exact ⟨⟨front, name, back, content, hnames, hfile, hheading, hgone⟩, hat, hat'⟩

/-- What a path leads to in two systems that agree, if it names no file in which they differ. -/
theorem at?_agree (agree : system.Agree system') (same : SameFile path system system') :
    (∃ n n', system.at? path = .ok n ∧ system'.at? path = .ok n' ∧ n.Agree n') ∨
      (∃ fault, system.at? path = .error fault ∧ system'.at? path = .error fault) ∨
      (LeadsThrough path system system' ∧ system.at? path = .error .notADirectory ∧
        system'.at? path = .error .notFound) ∨
      LeadsThrough path system' system ∧ system'.at? path = .error .notADirectory ∧
        system.at? path = .error .notFound := by
  by_cases hpath : path = ""
  · exact .inr (.inl ⟨.notFound, if_pos hpath, if_pos hpath⟩)
  · have hnames := agree.names_eq path
    have hat : system.at? path = descend [] system.root (system.names path) := if_neg hpath
    have hat' : system'.at? path = descend [] system'.root (system.names path) := by
      rw [at?, if_neg hpath, hnames]
    rcases descend_agree .nil agree.root (system.names path) with h | h | h | h
    · exact .inl (by rwa [hat, hat'])
    · exact .inr (.inl (by rwa [hat, hat']))
    · exact .inr (.inr (.inl (leadsThrough_of_parts hnames same hpath h)))
    · rw [hnames] at h
      exact .inr (.inr (.inr (leadsThrough_of_parts hnames.symm same.symm hpath h)))

/-- The text at a path, or why there is none, if the path names no file in which the systems
differ. -/
theorem text?_agree (agree : system.Agree system') (same : SameFile path system system') :
    system.text? path = system'.text? path ∨
      (LeadsThrough path system system' ∧
        system.text? path = .error (.unreached .notADirectory) ∧
        system'.text? path = .error (.unreached .notFound)) ∨
      LeadsThrough path system' system ∧
        system'.text? path = .error (.unreached .notADirectory) ∧
        system.text? path = .error (.unreached .notFound) := by
  unfold text?
  rcases at?_agree agree same with ⟨n, n', h, h', hagree⟩ | ⟨fault, h, h'⟩ |
    ⟨through, h, h'⟩ | ⟨through, h', h⟩
  · left
    cases hagree with
    | same content => rw [h, h', agree.read]
    | rewritten before after =>
      cases h'.symm.trans ((same _).1 h)
      rw [h, h', agree.read]
    | directory => rw [h, h']
  · exact .inl (by rw [h, h'])
  · exact .inr (.inl ⟨through, by rw [h], by rw [h']⟩)
  · exact .inr (.inr ⟨through, by rw [h'], by rw [h]⟩)

end FileSystem

end Provision
