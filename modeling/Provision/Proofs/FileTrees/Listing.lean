import Mathlib.Data.List.Forall2
import Mathlib.Tactic.Choose
import Provision.Proofs.FileTrees.NameOrder
import Provision.Proofs.FileTrees.Places

/-!
# Listings are complete and in order

A listing names every regular file below a directory once, in the order of the names that lead
there:

* **a tree** — by induction on the tree, the files that are listed are those that it has, and they
  come in the order of their names, compared name by name (`exists_lists`). That is not the order of
  the paths as texts: what is in `a` comes before `a.yaml`, although a dot comes before a slash;
* **the order of the system** — there is only one such list (`Lists.unique`), and a path leads to
  the same place whatever the order of entries (`at?_twins`), so that order makes no difference
  (`listing_reordered`);
* **paths** — no two lists of names lead to one path (`pathOf_inj`), so no path is listed twice.
-/

namespace Provision.FileNode

/-! ## Trees -/

/-- Whether a text can name an entry of a directory: there is something in it, and no slash. -/
structure IsName (name : String) : Prop where
  nonempty : name ≠ ""
  unslashed : '/' ∉ name.toList

instance (name : String) : Decidable (IsName name) :=
  decidable_of_iff (name ≠ "" ∧ '/' ∉ name.toList)
    ⟨fun h => ⟨h.1, h.2⟩, fun h => ⟨h.nonempty, h.unslashed⟩⟩

/-- Whether a node is what a system can have: the names in a directory are names, and distinct. -/
inductive IsTree : FileNode → Prop
  | file (content : Bytes) : IsTree (.file content)
  | directory {entries : Entries FileNode} (distinct : entries.keys.Nodup)
      (names : ∀ name ∈ entries.keys, IsName name) (each : ∀ e ∈ entries, IsTree e.2) :
      IsTree (.directory entries)

/-- Whether two nodes are the same but for the order in which each directory has its entries. -/
inductive Reordered : FileNode → FileNode → Prop
  | file (content : Bytes) : Reordered (.file content) (.file content)
  | directory {entries entries' : Entries FileNode} (same : entries.keys.Perm entries'.keys)
      (each : ∀ name node node', entries.get? name = some node → entries'.get? name = some node' →
        Reordered node node') :
      Reordered (.directory entries) (.directory entries')

/-- Whether these are the files of a node with the names that lead to them: each that it has, in the
order of their names. Of two files the first is the one with the lesser name, byte by byte, where
their names differ first. -/
structure Lists (node : FileNode) (files : List (List String × Bytes)) : Prop where
  complete : ∀ names content, (names, content) ∈ files ↔ node.HasFile names content
  ordered : files.Pairwise fun f g => f.1.map Bytes.ofText < g.1.map Bytes.ofText

variable {node node' : FileNode} {files files' : List (List String × Bytes)} {path : String}
  {name : String} {names names' : List String} {content : Bytes}

/-! ## Listings -/

/-- There is one list of the files of a node. -/
theorem Lists.unique (lists : node.Lists files) (lists' : node.Lists files') : files = files' := by
  have nodup {files : List (List String × Bytes)} (h : node.Lists files) : files.Nodup := by
    refine h.ordered.imp ?_
    rintro f g hlt rfl
    exact List.lt_irrefl _ hlt
  have perm : files.Perm files' := by
    rw [List.perm_ext_iff_of_nodup (nodup lists) (nodup lists')]
    rintro ⟨names, content⟩
    rw [lists.complete, lists'.complete]
  refine List.Perm.eq_of_pairwise ?_ lists.ordered lists'.ordered perm
  intro f g _ _ hfg hgf
  exact absurd hgf (List.lt_asymm hfg)

/-- The names of a directory, in order. -/
theorem pairwise_sorted_names {entries : Entries FileNode} (distinct : entries.keys.Nodup) :
    (Entries.sorted entries).Pairwise fun a b => Bytes.ofText a.1 < Bytes.ofText b.1 := by
  have hnodup : (Entries.sorted entries).keys.Nodup :=
    (Entries.keys_sorted_perm entries).nodup_iff.2 distinct
  have hne : (Entries.sorted entries).Pairwise fun a b => a.1 ≠ b.1 := List.pairwise_map.1 hnodup
  refine (Entries.pairwise_sorted entries).imp₂ ?_ hne
  intro a b hle hne
  rw [Bytes.ofText_lt_iff]
  exact lt_of_le_of_ne hle hne

/-- What is listed below a node is a list of its files, by induction on the tree. -/
theorem exists_lists (isTree : node.IsTree) :
    ∃ files, node.Lists files ∧ ∀ path, filesBelow path node = files.map (found path) := by
  induction isTree with
  | file content =>
    refine ⟨[([], content)], ⟨?_, List.pairwise_singleton _ _⟩, fun path => rfl⟩
    intro names c
    rw [List.mem_singleton]
    constructor
    · rintro ⟨⟩
      exact .here content
    · rintro ⟨⟩
      rfl
  | @directory entries distinct isName each ih =>
    choose! filesOf hlists hbelow using ih
    have mem_sorted (e : String × FileNode) : e ∈ Entries.sorted entries ↔ e ∈ entries :=
      (Entries.sorted_perm entries).mem_iff
    refine ⟨(Entries.sorted entries).flatMap fun e => (filesOf e).map fun f => (e.1 :: f.1, f.2),
      ⟨?_, ?_⟩, ?_⟩
    · intro names content
      rw [List.mem_flatMap]
      constructor
      · rintro ⟨e, he, hf⟩
        rw [mem_sorted] at he
        obtain ⟨⟨below, c⟩, hbelow', heq⟩ := List.mem_map.1 hf
        cases heq
        exact .inside he (((hlists e he).complete below c).1 hbelow')
      · rintro ⟨⟩
        next name node below he hfile =>
          refine ⟨(name, node), (mem_sorted _).2 he, List.mem_map.2 ⟨(below, content), ?_, rfl⟩⟩
          exact ((hlists _ he).complete below content).2 hfile
    · rw [List.pairwise_flatMap]
      constructor
      · intro e he
        rw [List.pairwise_map]
        refine (hlists e ((mem_sorted e).1 he)).ordered.imp ?_
        intro f g hlt
        exact List.cons_lt_cons_iff.2 (.inr ⟨rfl, hlt⟩)
      · refine (pairwise_sorted_names distinct).imp ?_
        intro a b hlt f hf g hg
        obtain ⟨f, -, rfl⟩ := List.mem_map.1 hf
        obtain ⟨g, -, rfl⟩ := List.mem_map.1 hg
        exact List.cons_lt_cons_iff.2 (.inl hlt)
    · intro path
      rw [filesBelow_directory, List.map_flatMap]
      refine List.flatMap_congr ?_
      intro e he
      rw [hbelow e ((mem_sorted e).1 he), List.map_map]
      rfl

/-! ## The order of the system -/

theorem Reordered.symm (same : node.Reordered node') : node'.Reordered node := by
  induction same with
  | file content => exact .file content
  | directory same each ih =>
    exact .directory same.symm fun name node node' h h' => ih name node' node h' h

/-- A name that one directory has, the other has as well, for nodes that are the same but for the
order of entries. -/
theorem exists_reordered {entries entries' : Entries FileNode}
    (same : entries.keys.Perm entries'.keys)
    (each : ∀ name node node', entries.get? name = some node → entries'.get? name = some node' →
      Reordered node node') {name : String} (h : entries.get? name = some node) :
    ∃ node', entries'.get? name = some node' ∧ node.Reordered node' := by
  cases h' : entries'.get? name with
  | some node' => exact ⟨node', rfl, each name node node' h h'⟩
  | none =>
    rw [Entries.get?_eq_none_iff, ← same.mem_iff, ← Entries.get?_eq_none_iff, h] at h'
    cases h'

theorem IsTree.reordered (isTree : node.IsTree) (same : node.Reordered node') : node'.IsTree := by
  induction same with
  | file content => exact .file content
  | @directory entries entries' same each ih =>
    cases isTree with
    | directory distinct isName below =>
      have distinct' : entries'.keys.Nodup := same.nodup_iff.1 distinct
      refine .directory distinct' (fun name h => isName name (same.mem_iff.2 h)) ?_
      intro e he
      have h' := Entries.get?_of_mem distinct' he
      have each' (name : String) (n' n : FileNode) (hn' : entries'.get? name = some n')
          (hn : entries.get? name = some n) : Reordered n' n := (each name n n' hn hn').symm
      obtain ⟨n, h, -⟩ := exists_reordered same.symm each' h'
      exact ih e.1 n e.2 h h' (below _ (Entries.mem_of_get? h))

/-- The order of entries makes no difference to the files that a node has. -/
theorem HasFile.reordered (file : node.HasFile names content) (isTree : node.IsTree)
    (same : node.Reordered node') : node'.HasFile names content := by
  induction file generalizing node' with
  | here content =>
    cases same
    exact .here content
  | inside hmem hfile ih =>
    cases isTree with
    | directory distinct isName below =>
      cases same with
      | directory same each =>
        obtain ⟨n', h', hsame⟩ := exists_reordered same each (Entries.get?_of_mem distinct hmem)
        exact .inside (Entries.mem_of_get? h') (ih (below _ hmem) hsame)

theorem Lists.reordered (lists : node.Lists files) (isTree : node.IsTree)
    (same : node.Reordered node') : node'.Lists files := by
  refine ⟨?_, lists.ordered⟩
  intro names content
  rw [lists.complete]
  constructor
  · intro file
    exact file.reordered isTree same
  · intro file
    exact file.reordered (isTree.reordered same) same.symm

/-- What is listed below a node does not depend on the order of entries, as there is only one list
of its files. -/
theorem filesBelow_reordered (isTree : node.IsTree) (same : node.Reordered node') (path : String) :
    filesBelow path node = filesBelow path node' := by
  obtain ⟨files, lists, hbelow⟩ := exists_lists isTree
  obtain ⟨files', lists', hbelow'⟩ := exists_lists (isTree.reordered same)
  rw [hbelow, hbelow', (lists.reordered isTree same).unique lists']

/-- Whether two trees are the same but for the order of entries. -/
def Twins (node node' : FileNode) : Prop := node.IsTree ∧ node.Reordered node'

/-- One step of a path leads to the same place whatever the order of entries. -/
theorem enter_twins {outer outer' : List FileNode} (around : List.Forall₂ Twins outer outer')
    (twins : node.Twins node') (name : String) :
    (∃ o o' n n', enter outer node name = .ok (o, n) ∧ enter outer' node' name = .ok (o', n') ∧
        List.Forall₂ Twins o o' ∧ n.Twins n') ∨
      ∃ fault, enter outer node name = .error fault ∧ enter outer' node' name = .error fault := by
  obtain ⟨isTree, same⟩ := twins
  cases same with
  | file content => exact .inr ⟨_, rfl, rfl⟩
  | @directory entries entries' same each =>
    have twins : Twins (.directory entries) (.directory entries') := ⟨isTree, .directory same each⟩
    simp only [enter]
    split
    · exact .inl ⟨_, _, _, _, rfl, rfl, around, twins⟩
    · split
      · cases around with
        | nil => exact .inl ⟨_, _, _, _, rfl, rfl, .nil, twins⟩
        | cons hparent houter => exact .inl ⟨_, _, _, _, rfl, rfl, houter, hparent⟩
      · cases h : entries.get? name with
        | some child =>
          obtain ⟨child', h', hsame⟩ := exists_reordered same each h
          rw [h']
          cases isTree with
          | directory distinct isName below =>
            have hchild : child.IsTree := below _ (Entries.mem_of_get? h)
            exact .inl ⟨_, _, _, _, rfl, rfl, .cons twins around, hchild, hsame⟩
        | none =>
          rw [Entries.get?_eq_none_iff, same.mem_iff, ← Entries.get?_eq_none_iff] at h
          rw [h]
          exact .inr ⟨_, rfl, rfl⟩

/-- A whole path leads to the same place whatever the order of entries, by induction on its
steps. -/
theorem descend_twins {outer outer' : List FileNode} (around : List.Forall₂ Twins outer outer')
    (twins : node.Twins node') (names : List String) :
    (∃ n n', descend outer node names = .ok n ∧ descend outer' node' names = .ok n' ∧
        n.Twins n') ∨
      ∃ fault, descend outer node names = .error fault ∧
        descend outer' node' names = .error fault := by
  induction names generalizing outer outer' node node' with
  | nil => exact .inl ⟨node, node', rfl, rfl, twins⟩
  | cons name names ih =>
    rw [descend_cons, descend_cons]
    rcases enter_twins around twins name with ⟨o, o', n, n', h, h', haround, htwins⟩ |
      ⟨fault, h, h'⟩
    · rw [h, h']
      exact ih haround htwins
    · rw [h, h']
      exact .inr ⟨fault, rfl, rfl⟩

section

variable {system : FileSystem}

theorem at?_twins {root' : FileNode} (twins : system.root.Twins root') (path : String) :
    (∃ n n', system.at? path = .ok n ∧ FileSystem.at? path { system with root := root' } = .ok n' ∧
        n.Twins n') ∨
      ∃ fault, system.at? path = .error fault ∧
        FileSystem.at? path { system with root := root' } = .error fault := by
  unfold FileSystem.at?
  split
  · exact .inr ⟨_, rfl, rfl⟩
  · exact descend_twins .nil twins (system.names path)

/-- A listing does not depend on the order of entries. -/
theorem listing_reordered {root' : FileNode} (isTree : system.root.IsTree)
    (same : system.root.Reordered root') (path : String) :
    FileSystem.listing path { system with root := root' } = system.listing path := by
  unfold FileSystem.listing
  rcases at?_twins ⟨isTree, same⟩ path with ⟨n, n', h, h', hn, hsame⟩ | ⟨fault, h, h'⟩
  · rw [h, h']
    show Except.ok (filesBelow path n') = Except.ok (filesBelow path n)
    rw [filesBelow_reordered hn hsame]
  · rw [h, h']

end

/-! ## Paths -/

/-- The slash that has to stand between a path and a name. -/
def slash (path : String) : List Char := if path.toList.getLast? = some '/' then [] else ['/']

theorem toList_join (path name : String) :
    (join path name).toList = path.toList ++ slash path ++ name.toList := by
  unfold join slash
  split
  · rw [List.append_nil, String.toList_append]
  · rw [String.toList_append, String.toList_append]
    rfl

/-- After a name, a path needs a slash. -/
theorem slash_join (isName : IsName name) (path : String) : slash (join path name) = ['/'] := by
  refine if_neg ?_
  intro hlast
  have hne : name.toList ≠ [] := by
    intro h
    exact isName.nonempty (String.toList_eq_nil_iff.1 h)
  rw [toList_join, List.getLast?_append_of_ne_nil _ hne] at hlast
  exact isName.unslashed (List.mem_of_getLast? hlast)

/-- The path to which names lead is the path and the names with slashes between them. -/
theorem toList_pathOf (isName : ∀ n ∈ name :: names, IsName n) (path : String) :
    (pathOf path (name :: names)).toList =
      path.toList ++ slash path ++ Text.join '/' ((name :: names).map String.toList) := by
  induction names generalizing path name with
  | nil => exact toList_join path name
  | cons next names ih =>
    obtain ⟨hname, hnames⟩ := List.forall_mem_cons.1 isName
    show (pathOf (join path name) (next :: names)).toList = _
    rw [ih hnames, toList_join, slash_join hname, List.append_assoc, List.append_assoc]
    rfl

/-- Names with slashes between them can be told apart. -/
theorem pieces_join_names (isName : ∀ n ∈ name :: names, IsName n) :
    Text.pieces '/' (Text.join '/' ((name :: names).map String.toList)) =
      (name :: names).map String.toList := by
  apply Text.pieces_join (List.cons_ne_nil _ _)
  show ∀ p ∈ (name :: names).map String.toList, '/' ∉ p
  intro p hp
  obtain ⟨n, hn, rfl⟩ := List.mem_map.1 hp
  exact (isName n hn).unslashed

/-- Names lead somewhere else than where they start. -/
theorem pathOf_ne_self (isName : ∀ n ∈ name :: names, IsName n) (path : String) :
    pathOf path (name :: names) ≠ path := by
  intro h
  have htext := toList_pathOf isName path
  rw [h, List.append_assoc, List.self_eq_append_right, List.append_eq_nil_iff] at htext
  have hpieces := pieces_join_names isName
  rw [htext.2] at hpieces
  -- The empty text is one empty piece, and no name is empty.
  obtain ⟨hname, -⟩ := List.cons.inj hpieces
  exact (isName name List.mem_cons_self).nonempty (String.toList_eq_nil_iff.1 hname.symm)

/-- No two lists of names lead to one path. -/
theorem pathOf_inj (isName : ∀ n ∈ names, IsName n) (isName' : ∀ n ∈ names', IsName n)
    (h : pathOf path names = pathOf path names') : names = names' := by
  cases names with
  | nil =>
    cases names' with
    | nil => rfl
    | cons name' names' => exact absurd h.symm (pathOf_ne_self isName' path)
  | cons name names =>
    cases names' with
    | nil => exact absurd h (pathOf_ne_self isName path)
    | cons name' names' =>
      have htext := congrArg String.toList h
      rw [toList_pathOf isName, toList_pathOf isName', List.append_cancel_left_eq] at htext
      have hpieces := congrArg (Text.pieces '/') htext
      rw [pieces_join_names isName, pieces_join_names isName'] at hpieces
      exact List.map_injective_iff.2 (fun _ _ => String.toList_injective) hpieces

/-- The names that lead to a file are names. -/
theorem HasFile.isName (file : node.HasFile names content) (isTree : node.IsTree) :
    ∀ name ∈ names, IsName name := by
  induction file with
  | here content => exact List.forall_mem_nil _
  | inside hmem hfile ih =>
    cases isTree with
    | directory distinct isName below =>
      exact List.forall_mem_cons.2 ⟨isName _ (List.mem_map_of_mem hmem), ih (below _ hmem)⟩

/-- No two files of a tree are found under one path. -/
theorem Lists.nodup_paths (lists : node.Lists files) (isTree : node.IsTree) (path : String) :
    (files.map fun f => pathOf path f.1).Nodup := by
  rw [List.nodup_iff_pairwise_ne, List.pairwise_map]
  refine lists.ordered.imp_of_mem ?_
  intro f g hf hg hlt hpath
  have isName := ((lists.complete f.1 f.2).1 hf).isName isTree
  have isName' := ((lists.complete g.1 g.2).1 hg).isName isTree
  rw [pathOf_inj isName isName' hpath] at hlt
  exact List.lt_irrefl _ hlt

/-! ## Listings of paths -/

theorem IsTree.reordered_self (isTree : node.IsTree) : node.Reordered node := by
  induction isTree with
  | file content => exact .file content
  | @directory entries distinct isName below ih =>
    refine .directory (.refl _) ?_
    intro name n n' h h'
    obtain rfl : n = n' := Option.some.inj (h.symm.trans h')
    exact ih _ (Entries.mem_of_get? h)

/-- A directory with its entries in another order. -/
theorem IsTree.reordered_of_perm {entries entries' : Entries FileNode}
    (isTree : IsTree (.directory entries)) (perm : entries.Perm entries') :
    Reordered (.directory entries) (.directory entries') := by
  cases isTree with
  | directory distinct isName below =>
    refine .directory (perm.map Prod.fst) ?_
    intro name n n' h h'
    rw [← Entries.get?_of_perm distinct perm, h] at h'
    cases h'
    exact (below _ (Entries.mem_of_get? h)).reordered_self

/-- What a path leads to in a tree is a tree. -/
theorem at?_isTree {system : FileSystem} (isTree : system.root.IsTree)
    (h : system.at? path = .ok node) : node.IsTree := by
  rcases at?_twins ⟨isTree, isTree.reordered_self⟩ path with
    ⟨n, n', hn, -, twins⟩ | ⟨fault, hfault, -⟩
  · rw [h] at hn
    cases hn
    exact twins.1
  · rw [h] at hfault
    cases hfault

/-- The listing of a path in a tree has each regular file at or below the path once, and nothing
else, in the strict order of the names that lead there: name by name, byte by byte. No two are found
under one path. The order in which directories have their entries makes no difference to any
listing. -/
theorem listing_ordered {system : FileSystem} (isTree : system.root.IsTree) :
    (∀ path node, system.at? path = .ok node →
      ∃ files, node.Lists files ∧ system.listing path = .ok (files.map (found path)) ∧
        (files.map fun f => pathOf path f.1).Nodup) ∧
      ∀ root', system.root.Reordered root' → ∀ path,
        FileSystem.listing path { system with root := root' } = system.listing path := by
  constructor
  · intro path node h
    have nodeIsTree := at?_isTree isTree h
    obtain ⟨files, lists, hbelow⟩ := exists_lists nodeIsTree
    refine ⟨files, lists, ?_, lists.nodup_paths nodeIsTree path⟩
    rw [FileSystem.listing, h, ← hbelow]
    rfl
  · intro root' same path
    exact listing_reordered isTree same path

/-- What is in `a` comes before `a.yaml`, whichever of the two the system names first, and whether
the path starts at the root or at the working directory. -/
theorem listing_ordered_dot_and_slash :
    let z : FileNode := .directory [("z", .file [3])]
    let etc : FileNode := .directory [("b", .file [1]), ("a.yaml", .file [2]), ("a", z)]
    let etc' : FileNode := .directory [("a", z), ("a.yaml", .file [2]), ("b", .file [1])]
    let system : FileSystem := { root := .directory [("etc", etc)], working := ["etc"] }
    let root' : FileNode := .directory [("etc", etc')]
    system.root.IsTree ∧ system.root.Reordered root' ∧
      system.listing "." = .ok [⟨"./a/z", [3]⟩, ⟨"./a.yaml", [2]⟩, ⟨"./b", [1]⟩] ∧
      FileSystem.listing "/etc" { system with root := root' } =
        .ok [⟨"/etc/a/z", [3]⟩, ⟨"/etc/a.yaml", [2]⟩, ⟨"/etc/b", [1]⟩] ∧
      ∃ files, etc.Lists files ∧ system.listing "/etc" = .ok (files.map (found "/etc")) ∧
        (files.map fun f => pathOf "/etc" f.1).Nodup := by
  intro z etc etc' system root'
  have hz : z.IsTree := by
    refine .directory (List.pairwise_singleton _ _) (by decide) ?_
    rw [List.forall_mem_singleton]
    exact .file [3]
  have hetc : etc.IsTree := by
    refine .directory (by decide) (by decide) ?_
    simp only [List.forall_mem_cons]
    exact ⟨.file [1], .file [2], hz, List.forall_mem_nil _⟩
  have isTree : system.root.IsTree := by
    refine .directory (List.pairwise_singleton _ _) (by decide) ?_
    rw [List.forall_mem_singleton]
    exact hetc
  have same : system.root.Reordered root' := by
    refine .directory (.refl _) ?_
    intro name n n' h h'
    rw [Entries.get?_cons] at h h'
    by_cases hname : "etc" = name
    · rw [if_pos hname] at h h'
      cases h
      cases h'
      exact hetc.reordered_of_perm (List.reverse_perm _).symm
    · rw [if_neg hname] at h
      cases h
  have hsorted : Entries.sorted etc.entries = etc'.entries := by
    refine Entries.eq_of_mem_iff (Entries.pairwise_sorted _) (by decide) ?_ (by decide) ?_
    · exact (Entries.keys_sorted_perm _).nodup_iff.2 (by decide)
    · intro e
      exact ((Entries.sorted_perm _).trans (List.reverse_perm _).symm).mem_iff
  have hlisting (path : String) (h : system.at? path = .ok etc) :
      system.listing path = .ok [⟨join (join path "a") "z", [3]⟩, ⟨join path "a.yaml", [2]⟩,
        ⟨join path "b", [1]⟩] := by
    rw [FileSystem.listing, h]
    show Except.ok (filesBelow path (.directory etc.entries)) = _
    rw [filesBelow_directory, hsorted]
    show Except.ok (filesBelow (join path "a") z ++
      [⟨join path "a.yaml", [2]⟩, ⟨join path "b", [1]⟩]) = _
    rw [filesBelow_singleton]
    rfl
  obtain ⟨hlists, hsame⟩ := listing_ordered isTree
  refine ⟨isTree, same, ?_, ?_, hlists "/etc" etc rfl⟩
  · exact hlisting "." rfl
  · rw [hsame root' same]
    exact hlisting "/etc" rfl

end Provision.FileNode
