import Mathlib.Data.List.TakeWhile
import Provision.Gather.BootLine
import Provision.Proofs.Headings.Lines
import Provision.Value.Path

/-!
# Paths of keys in the words of a boot line

A word that assigns something starts with a path: keys that are not empty, with dots between them
(`exists_assigns_iff`).

* **reading** — `Assigns` says what a word assigns to which path, by how the word is made, and that
  is the assignment that is read from it (`assigns_iff`);
* **looking up** — the same path with its dots leads to what its keys lead to, one after the other
  (`lookup?_of_at?`).
-/

namespace Provision.BootLine

/-! ## Words -/

/-- Whether a text can be a key of a path: there is something in it, and nothing that ends a key. -/
structure IsKey (key : String) : Prop where
  nonempty : key ≠ ""
  undotted : '.' ∉ key.toList
  unassigned : '=' ∉ key.toList

/-- Whether keys form the path of an assignment. -/
structure IsKeyPath (path : List String) : Prop where
  nonempty : path ≠ []
  keys : ∀ key ∈ path, IsKey key

/-- The keys of a path with dots between them. -/
def dotted (path : List String) : String := String.ofList (Text.join '.' (path.map String.toList))

/-- What a word assigns: true if it is a path, and what stands behind the equals sign if one follows
the path. A word that starts otherwise, say with an empty key, assigns nothing. -/
inductive Assigns : String → List String → Value → Prop
  | truth {path : List String} : IsKeyPath path → Assigns (dotted path) path (.bool true)
  | text {path : List String} (s : String) : IsKeyPath path →
      Assigns (dotted path ++ "=" ++ s) path (.string s)

variable {path : List String} {v w : Value} {word : String}

theorem toList_dotted (path : List String) :
    (dotted path).toList = Text.join '.' (path.map String.toList) := String.toList_ofList

/-- The path of an assignment is what its word is cut into. -/
theorem pieces_dotted (h : IsKeyPath path) :
    Text.pieces '.' (dotted path).toList = path.map String.toList := by
  rw [toList_dotted]
  apply Text.pieces_join
  · intro hnil
    exact h.nonempty (List.map_eq_nil_iff.1 hnil)
  · intro p hp
    obtain ⟨key, hkey, rfl⟩ := List.mem_map.1 hp
    exact (h.keys key hkey).undotted

/-- No equals sign stands in a path. -/
theorem notMem_dotted (h : IsKeyPath path) : '=' ∉ (dotted path).toList := by
  rw [toList_dotted]
  intro hc
  rcases Text.mem_join hc with hdot | ⟨p, hp, hc⟩
  · cases hdot
  · obtain ⟨key, hkey, rfl⟩ := List.mem_map.1 hp
    exact (h.keys key hkey).unassigned hc

/-- A text whose pieces between dots are all there is a path, if no equals sign is in it. -/
theorem isKeyPath_pieces {key : List Char} (clear : '=' ∉ key)
    (full : (Text.pieces '.' key).any List.isEmpty = false) :
    IsKeyPath ((Text.pieces '.' key).map String.ofList) where
  nonempty := by
    intro hnil
    exact Text.pieces_ne_nil '.' key (List.map_eq_nil_iff.1 hnil)
  keys := by
    intro segment hsegment
    obtain ⟨p, hp, rfl⟩ := List.mem_map.1 hsegment
    rw [List.any_eq_false] at full
    refine ⟨fun hempty => full p hp ?_, ?_, ?_⟩
    · rw [String.ofList_eq_empty_iff] at hempty
      rw [hempty, List.isEmpty_nil]
    · rw [String.toList_ofList]
      exact Text.separator_notMem_of_mem_pieces hp
    · rw [String.toList_ofList]
      intro hc
      apply clear
      rw [← Text.join_pieces '.' key]
      exact Text.mem_join_of_mem hp hc

theorem dotted_pieces (key : List Char) :
    dotted ((Text.pieces '.' key).map String.ofList) = String.ofList key := by
  rw [dotted, List.map_map]
  have hid : String.toList ∘ String.ofList = id := funext fun cs => String.toList_ofList
  rw [hid, List.map_id, Text.join_pieces]

/-- What a word assigns if this is what is left of it behind its key. -/
def assigned : List Char → Value
  | [] => .bool true
  | _ :: text => .string (String.ofList text)

/-- What a word is read as that is cut at its first equals sign, if it has one. -/
theorem assignment?_of_cut {key rest : List Char} (cut : word.toList = key ++ rest)
    (clear : '=' ∉ key) (sign : ∀ c ∈ rest.head?, c = '=') :
    assignment? word =
      if (Text.pieces '.' key).any List.isEmpty then none
      else some ⟨(Text.pieces '.' key).map String.ofList, assigned rest⟩ := by
  have hkey : word.toList.takeWhile (· != '=') = key := by
    have hclear : ∀ c ∈ key, (c != '=') = true := by
      intro c hc
      rw [bne_iff_ne]
      rintro rfl
      exact clear hc
    rw [cut, List.takeWhile_append_of_pos hclear]
    cases rest with
    | nil => simp
    | cons c rest =>
      obtain rfl : c = '=' := sign c rfl
      simp
  unfold assignment?
  simp only [hkey]
  rw [cut, List.drop_left]
  cases rest <;> rfl

theorem assigns_of_assignment? {a : Assignment} (h : assignment? word = some a) :
    Assigns word a.path a.value := by
  by_cases hsign : '=' ∈ word.toList
  · obtain ⟨key, text, cut, clear⟩ := List.eq_append_cons_of_mem hsign
    rw [assignment?_of_cut cut clear (by rintro c ⟨⟩; rfl)] at h
    split at h
    · cases h
    · next full =>
      cases h
      have hword : word = String.ofList key ++ "=" ++ String.ofList text := by
        rw [← String.toList_inj, cut]
        simp
      rw [hword, ← dotted_pieces key]
      exact .text _ (isKeyPath_pieces clear (Bool.eq_false_iff.2 full))
  · rw [assignment?_of_cut (List.append_nil _).symm hsign nofun] at h
    split at h
    · cases h
    · next full =>
      cases h
      have hword : Assigns (dotted ((Text.pieces '.' word.toList).map String.ofList)) _ _ :=
        .truth (isKeyPath_pieces hsign (Bool.eq_false_iff.2 full))
      rwa [dotted_pieces, String.ofList_toList] at hword

theorem assignment?_of_assigns (h : Assigns word path v) : assignment? word = some ⟨path, v⟩ := by
  have hfull {path : List String} (hpath : IsKeyPath path) :
      ¬ (path.map String.toList).any List.isEmpty = true := by
    rw [List.any_map, List.any_eq_true]
    rintro ⟨key, hkey, hempty⟩
    apply (hpath.keys key hkey).nonempty
    exact String.toList_eq_nil_iff.1 (List.isEmpty_iff.1 hempty)
  have hkeys (path : List String) : (path.map String.toList).map String.ofList = path := by
    simp
  cases h with
  | truth hpath =>
    rw [assignment?_of_cut (List.append_nil _).symm (notMem_dotted hpath) nofun,
      pieces_dotted hpath, if_neg (hfull hpath), hkeys, assigned]
  | text s hpath =>
    have cut : (dotted path ++ "=" ++ s).toList = (dotted path).toList ++ '=' :: s.toList := by
      simp
    rw [assignment?_of_cut cut (notMem_dotted hpath) (by rintro c ⟨⟩; rfl), pieces_dotted hpath,
      if_neg (hfull hpath), hkeys, assigned, String.ofList_toList]

/-- A word assigns one value to one path. -/
theorem assigns_iff : Assigns word path v ↔ assignment? word = some ⟨path, v⟩ :=
  ⟨assignment?_of_assigns, assigns_of_assignment?⟩

/-- A word assigns something exactly if no part of its key is empty. -/
theorem exists_assigns_iff (word : String) :
    (∃ path v, Assigns word path v) ↔ [] ∉ Text.pieces '.' (word.toList.takeWhile (· != '=')) := by
  have cut : word.toList = word.toList.takeWhile (· != '=') ++ word.toList.dropWhile (· != '=') :=
    List.takeWhile_append_dropWhile.symm
  have clear : '=' ∉ word.toList.takeWhile (· != '=') := by
    intro h
    have hne := List.mem_takeWhile_imp h
    cases hne
  have sign : ∀ c ∈ (word.toList.dropWhile (· != '=')).head?, c = '=' := by
    intro c hc
    have hnot := List.head?_dropWhile_not (· != '=') word.toList
    rw [hc] at hnot
    simpa using hnot
  have hempty : (Text.pieces '.' (word.toList.takeWhile (· != '='))).any List.isEmpty = true ↔
      [] ∈ Text.pieces '.' (word.toList.takeWhile (· != '=')) := by
    simp
  have hread := assignment?_of_cut cut clear sign
  constructor
  · rintro ⟨path, v, h⟩
    rw [← hempty]
    intro he
    rw [if_pos he, assignment?_of_assigns h] at hread
    cases hread
  · intro full
    rw [if_neg (mt hempty.1 full)] at hread
    exact ⟨_, _, assigns_of_assignment? hread⟩

theorem Assigns.isKeyPath (h : Assigns word path v) : IsKeyPath path := by
  cases h with
  | truth hpath => exact hpath
  | text s hpath => exact hpath

/-- No word assigns a mapping. -/
theorem Assigns.ne_mapping (h : Assigns word path v) : ∀ entries, v ≠ .mapping entries := by
  intro entries
  cases h with
  | truth => nofun
  | text => nofun

/-! ## Looking up -/

/-- A path of keys is a path for a look-up as well. -/
theorem descend?_of_at? {v w : Value} (h : v.at? path = some w) :
    Document.descend? (path.map String.toList) v = some w := by
  induction path generalizing v with
  | nil => exact h
  | cons key path ih =>
    rw [Value.at?_cons] at h
    obtain ⟨u, hu, hw⟩ := Option.bind_eq_some_iff.1 h
    have hchild : Document.child? key.toList v = some u := by
      cases v with
      | mapping entries =>
        show Entries.get? (String.ofList key.toList) entries = some u
        rw [String.ofList_toList]
        exact hu
      | _ => cases hu
    rw [List.map_cons, Document.descend?, hchild]
    exact ih hw

/-- A look-up with the path of an assignment goes along the keys of the path. -/
theorem segments_dotted (h : IsKeyPath path) :
    Document.segments (dotted path) = path.map String.toList := by
  rw [Document.segments, pieces_dotted h, List.filter_eq_self]
  intro p hp
  obtain ⟨key, hkey, rfl⟩ := List.mem_map.1 hp
  have hne : key.toList ≠ [] := by
    intro hnil
    exact (h.keys key hkey).nonempty (String.toList_eq_nil_iff.1 hnil)
  simpa using hne

theorem lookup?_of_at? {d : Document} (keys : IsKeyPath path) (h : d.toValue.at? path = some v) :
    d.lookup? (dotted path) = some v := by
  rw [Document.lookup?, segments_dotted keys]
  have hdescend := descend?_of_at? h
  obtain ⟨key, path, rfl⟩ := List.exists_cons_of_ne_nil keys.nonempty
  exact hdescend

end Provision.BootLine
