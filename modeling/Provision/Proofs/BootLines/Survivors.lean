import Mathlib.Data.List.Induction
import Provision.Proofs.BootLines.KeyPaths
import Provision.Proofs.BootLines.ReadBack
import Provision.Proofs.Merging.Paths

/-!
# Which assignments survive

The words of a boot line assign values to paths of keys one after the other, and an assignment makes
way for itself: it takes the place of what stood at its path, with everything below, and of a value
that stood above. So of two words whose paths are comparable only the later one is left in the end:

* **one assignment** — at its path there is its value, above it are mappings that are not empty, and
  at every path that is not comparable to its own there is what was there before
  (`at?_assign_below`, `at?_assign_above`, `at?_assign_apart`);
* **a line** — by induction on the words, the leaves of the document are what the words assign that
  no later word makes way for (`leafAt_entriesOf`, `entries_survivors`).
-/

namespace Provision.Value

/-- Whether a path of keys leads from a value to another one that is no mapping. -/
def LeafAt (v : Value) (path : List String) (leaf : Value) : Prop :=
  v.at? path = some leaf ∧ ∀ entries, leaf ≠ .mapping entries

end Provision.Value

namespace Provision.BootLine

/-- Whether one of two paths starts with the other. -/
def Comparable (path other : List String) : Prop := path <+: other ∨ other <+: path

/-- Whether one of the words assigns a value to a path, and no later word assigns anything to a path
that is comparable. -/
def Survives (words : List String) (path : List String) (v : Value) : Prop :=
  ∃ earlier word later, words = earlier ++ word :: later ∧ Assigns word path v ∧
    ∀ w ∈ later, ∀ other u, Assigns w other u → ¬ Comparable path other

variable {path other : List String} {v w : Value} {entries : Entries Value} {word : String}

/-! ## One assignment -/

theorem assign_cons (v : Value) (key : String) (nonempty : path ≠ []) (entries : Entries Value) :
    assign v (key :: path) entries = entries.put key
      (.mapping (assign v path (((entries.get? key).bind Value.entries?).getD []))) := by
  cases path with
  | nil => exact absurd rfl nonempty
  | cons next path => rfl

theorem assign_ne_nil (v : Value) (nonempty : path ≠ []) (entries : Entries Value) :
    assign v path entries ≠ [] := by
  have hput {key : String} {w : Value} : entries.put key w ≠ [] := by
    intro hnil
    have hget := Entries.get?_put key key w entries
    rw [hnil, if_pos rfl] at hget
    cases hget
  obtain ⟨key, path, rfl⟩ := List.exists_cons_of_ne_nil nonempty
  cases path with
  | nil => exact hput
  | cons next path => exact hput

theorem get?_put_self (key : String) (w : Value) (entries : Entries Value) :
    (entries.put key w).get? key = some w := by
  rw [Entries.get?_put, if_pos rfl]

/-- From the path of an assignment on, one comes to its value. -/
theorem at?_assign_below (v : Value) (nonempty : path ≠ []) (entries : Entries Value)
    (rest : List String) :
    (Value.mapping (assign v path entries)).at? (path ++ rest) = v.at? rest := by
  induction path generalizing entries with
  | nil => exact absurd rfl nonempty
  | cons key path ih =>
    by_cases hpath : path = []
    · subst hpath
      exact Value.at?_mapping_some (get?_put_self key v entries) rest
    · rw [assign_cons v key hpath, List.cons_append,
        Value.at?_mapping_some (get?_put_self key _ entries), ih hpath]

/-- Above the path of an assignment there are mappings with something in them. -/
theorem at?_assign_above (v : Value) (front : List String) (key : String) (back : List String)
    (entries : Entries Value) :
    ∃ inner, inner ≠ [] ∧
      (Value.mapping (assign v (front ++ key :: back) entries)).at? front =
        some (.mapping inner) := by
  induction front generalizing entries with
  | nil => exact ⟨_, assign_ne_nil v (List.cons_ne_nil key back) entries, rfl⟩
  | cons k front ih =>
    have hpath : front ++ key :: back ≠ [] := by simp
    obtain ⟨inner, nonempty, hat⟩ := ih (((entries.get? k).bind Value.entries?).getD [])
    refine ⟨inner, nonempty, ?_⟩
    rw [List.cons_append, assign_cons v k hpath,
      Value.at?_mapping_some (get?_put_self k _ entries), hat]

/-- An assignment does not change what a path leads to that is not comparable to its own. -/
theorem at?_assign_apart (v : Value) (apart : ¬ Comparable path other) (entries : Entries Value) :
    (Value.mapping (assign v path entries)).at? other = (Value.mapping entries).at? other := by
  induction path generalizing other entries with
  | nil => exact absurd (.inl List.nil_prefix) apart
  | cons key path ih =>
    cases other with
    | nil => exact absurd (.inr List.nil_prefix) apart
    | cons k other =>
      by_cases hk : key = k
      · subst hk
        have hinner : ¬ Comparable path other := by
          intro h
          apply apart
          exact h.imp (List.cons_prefix_cons.2 ⟨rfl, ·⟩) (List.cons_prefix_cons.2 ⟨rfl, ·⟩)
        have hpath : path ≠ [] := by
          rintro rfl
          exact hinner (.inl List.nil_prefix)
        obtain ⟨next, other, rfl⟩ : ∃ next rest, other = next :: rest := by
          apply List.exists_cons_of_ne_nil
          rintro rfl
          exact hinner (.inr List.nil_prefix)
        rw [assign_cons v key hpath, Value.at?_mapping_some (get?_put_self key _ entries),
          ih hinner]
        -- What is no mapping leads nowhere, just like the empty one that takes its place.
        cases hget : entries.get? key with
        | none =>
          rw [Value.at?_mapping_none hget]
          rfl
        | some w =>
          rw [Value.at?_mapping_some hget]
          cases w <;> rfl
      · have hput (w : Value) : (Value.mapping (entries.put key w)).at? (k :: other) =
            (Value.mapping entries).at? (k :: other) := by
          show ((entries.put key w).get? k).bind _ = (entries.get? k).bind _
          rw [Entries.get?_put, if_neg hk]
        by_cases hpath : path = []
        · subst hpath
          exact hput v
        · rw [assign_cons v key hpath, hput]

/-- What a path leads to after an assignment: the value that is assigned, at its path; a mapping
that is not empty, above; or what was there before. -/
theorem at?_assign_cases (leaf : ∀ entries, v ≠ .mapping entries) (nonempty : path ≠ [])
    (h : (Value.mapping (assign v path entries)).at? other = some w) :
    (other = path ∧ w = v) ∨
      (other <+: path ∧ ∃ inner, inner ≠ [] ∧ w = .mapping inner) ∨
      (¬ Comparable path other ∧ (Value.mapping entries).at? other = some w) := by
  by_cases comparable : Comparable path other
  · rcases comparable with ⟨rest, rfl⟩ | ⟨rest, rfl⟩
    · rw [at?_assign_below v nonempty] at h
      cases rest with
      | nil =>
        cases h
        exact .inl ⟨List.append_nil path, rfl⟩
      | cons key rest =>
        rw [Value.at?_cons_eq_none leaf] at h
        cases h
    · cases rest with
      | nil =>
        have hself := at?_assign_below v nonempty entries []
        rw [List.append_nil] at hself h nonempty
        rw [List.append_nil, h] at hself
        cases hself
        exact .inl ⟨(List.append_nil other).symm, rfl⟩
      | cons key rest =>
        obtain ⟨inner, filled, hat⟩ := at?_assign_above v other key rest entries
        rw [hat] at h
        cases h
        exact .inr (.inl ⟨List.prefix_append other _, inner, filled, rfl⟩)
  · rw [at?_assign_apart v comparable] at h
    exact .inr (.inr ⟨comparable, h⟩)

/-! ## All words of a line -/

/-- What a row of words assigns, one after the other. -/
def entriesOf (words : List String) : Entries Value :=
  (words.filterMap assignment?).foldl (fun es a => assign a.value a.path es) []

theorem entriesOf_concat_none {words : List String} (h : assignment? word = none) :
    entriesOf (words ++ [word]) = entriesOf words := by
  simp [entriesOf, h]

theorem entriesOf_concat_some {words : List String} {a : Assignment}
    (h : assignment? word = some a) :
    entriesOf (words ++ [word]) = assign a.value a.path (entriesOf words) := by
  simp [entriesOf, h]

theorem Comparable.symm (h : Comparable path other) : Comparable other path := Or.symm h

/-- What survives one more word: what that word assigns, and what it makes no way for. -/
theorem survives_concat {words : List String} :
    Survives (words ++ [word]) path v ↔ Assigns word path v ∨
      (Survives words path v ∧ ∀ other u, Assigns word other u → ¬ Comparable path other) := by
  constructor
  · rintro ⟨earlier, survivor, later, hwords, assigns, apart⟩
    rcases List.eq_nil_or_concat later with rfl | ⟨later, last, rfl⟩
    · left
      obtain ⟨-, rfl⟩ := List.append_singleton_inj.1 hwords
      exact assigns
    · right
      rw [List.concat_eq_append] at hwords apart
      rw [← List.cons_append, ← List.append_assoc] at hwords
      obtain ⟨rfl, rfl⟩ := List.append_singleton_inj.1 hwords
      rw [List.forall_mem_append] at apart
      exact ⟨⟨earlier, survivor, later, rfl, assigns, apart.1⟩,
        apart.2 word (List.mem_singleton_self word)⟩
  · rintro (assigns | ⟨⟨earlier, survivor, later, rfl, assigns, apart⟩, last⟩)
    · exact ⟨words, word, [], rfl, assigns, nofun⟩
    · refine ⟨earlier, survivor, later ++ [word], by simp, assigns, ?_⟩
      intro w hw
      rcases List.mem_append.1 hw with hw | hw
      · exact apart w hw
      · rw [List.mem_singleton.1 hw]
        exact last

/-- The leaves after an assignment: its own, and those that it makes no way for. -/
theorem leafAt_assign (leaf : ∀ entries, v ≠ .mapping entries) (nonempty : path ≠ []) :
    (Value.mapping (assign v path entries)).LeafAt other w ↔
      (other = path ∧ w = v) ∨
        (¬ Comparable path other ∧ (Value.mapping entries).LeafAt other w) := by
  constructor
  · rintro ⟨hat, hleaf⟩
    rcases at?_assign_cases leaf nonempty hat with h | ⟨-, inner, -, rfl⟩ | ⟨apart, hat⟩
    · exact .inl h
    · exact absurd rfl (hleaf inner)
    · exact .inr ⟨apart, hat, hleaf⟩
  · rintro (⟨rfl, rfl⟩ | ⟨apart, hat, hleaf⟩)
    · have hself := at?_assign_below w nonempty entries []
      rw [List.append_nil] at hself
      exact ⟨hself, leaf⟩
    · exact ⟨(at?_assign_apart v apart entries).trans hat, hleaf⟩

/-- The leaves of what words assign are what survives of it. -/
theorem leafAt_entriesOf (words : List String) :
    (Value.mapping (entriesOf words)).LeafAt path v ↔ Survives words path v := by
  induction words using List.reverseRecOn generalizing path v with
  | nil =>
    constructor
    · rintro ⟨hat, hleaf⟩
      cases path with
      | nil =>
        cases hat
        exact absurd rfl (hleaf _)
      | cons key path => cases hat
    · rintro ⟨earlier, word, later, hnil, -⟩
      exact absurd hnil.symm (by simp)
  | append_singleton words word ih =>
    rw [survives_concat, ← ih]
    cases hword : assignment? word with
    | none =>
      have hnothing (other : List String) (u : Value) : ¬ Assigns word other u := by
        intro h
        rw [assignment?_of_assigns h] at hword
        cases hword
      rw [entriesOf_concat_none hword]
      constructor
      · intro hleaf
        exact .inr ⟨hleaf, fun other u h => absurd h (hnothing other u)⟩
      · rintro (h | ⟨hleaf, -⟩)
        · exact absurd h (hnothing path v)
        · exact hleaf
    | some a =>
      obtain ⟨target, u⟩ := a
      have assigns : Assigns word target u := assigns_of_assignment? hword
      have only {other : List String} {x : Value} (h : Assigns word other x) :
          other = target ∧ x = u := by
        rw [assignment?_of_assigns h] at hword
        cases hword
        exact ⟨rfl, rfl⟩
      rw [entriesOf_concat_some hword, leafAt_assign assigns.ne_mapping assigns.isKeyPath.nonempty]
      constructor
      · rintro (⟨rfl, rfl⟩ | ⟨apart, hleaf⟩)
        · exact .inl assigns
        · refine .inr ⟨hleaf, ?_⟩
          intro other x h comparable
          obtain ⟨rfl, rfl⟩ := only h
          exact apart comparable.symm
      · rintro (h | ⟨hleaf, apart⟩)
        · exact .inl (only h)
        · exact .inr ⟨fun comparable => apart target u assigns comparable.symm, hleaf⟩

/-- What words assign leads along keys only, and to no empty mapping. -/
theorem at?_entriesOf (words : List String)
    (h : (Value.mapping (entriesOf words)).at? path = some v) :
    (∀ key ∈ path, IsKey key) ∧ (path ≠ [] → v ≠ .mapping []) := by
  induction words using List.reverseRecOn generalizing path v with
  | nil =>
    cases path with
    | nil => exact ⟨nofun, fun hpath => absurd rfl hpath⟩
    | cons key path => cases h
  | append_singleton words word ih =>
    cases hword : assignment? word with
    | none =>
      rw [entriesOf_concat_none hword] at h
      exact ih h
    | some a =>
      have assigns := assigns_of_assignment? hword
      rw [entriesOf_concat_some hword] at h
      rcases at?_assign_cases assigns.ne_mapping assigns.isKeyPath.nonempty h with
        ⟨rfl, rfl⟩ | ⟨above, inner, filled, rfl⟩ | ⟨-, before⟩
      · exact ⟨assigns.isKeyPath.keys, fun _ => assigns.ne_mapping []⟩
      · refine ⟨fun key hkey => assigns.isKeyPath.keys key (above.subset hkey), ?_⟩
        intro _ hempty
        cases hempty
        exact filled rfl
      · exact ih before

/-- **What a line assigns.** The leaves of the document of a line are what its words assign that no
later word makes way for. Everything below it is reached by keys that are not empty and hold neither
dots nor equals signs, each key is in its mapping once, and no mapping is empty but for the whole.
What survives is found by a look-up with its path. -/
theorem entries_survivors (line : String) :
    (∀ path v, (document line).toValue.LeafAt path v ↔ Survives (words line) path v) ∧
      (document line).toValue.Distinct ∧
      (∀ path v, (document line).toValue.at? path = some v →
        (∀ key ∈ path, IsKey key) ∧ (path ≠ [] → v ≠ .mapping [])) ∧
      ∀ path v, Survives (words line) path v → (document line).lookup? (dotted path) = some v := by
  have hleaves (path : List String) (v : Value) :
      (document line).toValue.LeafAt path v ↔ Survives (words line) path v :=
    leafAt_entriesOf (words line)
  refine ⟨hleaves, distinct_document line, fun path v => at?_entriesOf (words line), ?_⟩
  intro path v survives
  have ⟨_, _, _, _, assigns, _⟩ := survives
  exact lookup?_of_at? assigns.isKeyPath ((hleaves path v).2 survives).1

/-- A value that makes way for a mapping, a flag that makes way for a text, and a word without a
key; what is looked up is in the mapping. -/
theorem entries_survivors_replaced_and_nested :
    (document "x=1 a.b x.y='2 3' a.b=2 .c").lookup? "x.y" = some (.string "2 3") := by
  have survives : Survives ["x=1", "a.b", "x.y=2 3", "a.b=2", ".c"] ["x", "y"] (.string "2 3") := by
    refine ⟨["x=1", "a.b"], "x.y=2 3", ["a.b=2", ".c"], rfl, assigns_iff.2 rfl, ?_⟩
    intro later hlater other u h
    rw [assigns_iff] at h
    simp only [List.mem_cons, List.not_mem_nil, or_false] at hlater
    rcases hlater with rfl | rfl
    · have hread : assignment? "a.b=2" = some ⟨["a", "b"], .string "2"⟩ := rfl
      rw [hread] at h
      cases h
      unfold Comparable
      decide
    · have hread : assignment? ".c" = none := rfl
      rw [hread] at h
      cases h
  exact (entries_survivors "x=1 a.b x.y='2 3' a.b=2 .c").2.2.2 ["x", "y"] _ survives

end Provision.BootLine
