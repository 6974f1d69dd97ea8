import Provision.Proofs.Merging.Layers

/-!
# Where a merge fails

Whether two values can be merged is settled at the ends of the paths of keys that both have:

* **one path** — `ClashesAt`: at its end stand values of different shapes, and neither is null;
* **all paths** — `conflicts` lists the conflicts in the order in which a walk through the overlay
  meets them, depth first and entry by entry;
* **merging** — a merge fails exactly where that list is not empty, and then names the first
  conflict in it (`conflict?_merge`, `merge_eq_error_iff`).

The loop over the overlay changes the base as it goes. Because the keys of the overlay are distinct,
no turn of it touches what a later one looks at (`conflict?_mergeEntries`).
-/

namespace Provision.Value

variable {base overlay u v : Value} {path : List String} {c : KindConflict}

/-! ## The walk -/

mutual

/-- The paths of keys in a value, in the order of a walk: the value itself, and then, entry by
entry, what is below each key. -/
def paths : Value → List (List String)
  | .mapping entries => [] :: entryPaths entries
  | _ => [[]]

/-- The paths that start with the keys of entries. -/
def entryPaths : List (String × Value) → List (List String)
  | [] => []
  | (key, v) :: entries => v.paths.map (key :: ·) ++ entryPaths entries

end

/-- The walk starts at the value itself. -/
theorem paths_eq (v : Value) : v.paths = [] :: entryPaths (v.entries?.getD []) := by
  cases v <;> rfl

theorem mem_entryPaths {entries : Entries Value} :
    path ∈ entryPaths entries ↔ ∃ e ∈ entries, ∃ rest ∈ e.2.paths, e.1 :: rest = path := by
  induction entries with
  | nil => simp [entryPaths]
  | cons e entries ih =>
    rw [entryPaths, List.mem_append, List.mem_map, ih, List.exists_mem_cons_iff]

/-- The walk comes to everything that has a path. -/
theorem mem_paths_of_at? {v w : Value} (h : v.at? path = some w) : path ∈ v.paths := by
  induction path generalizing v with
  | nil =>
    rw [paths_eq]
    exact List.mem_cons_self
  | cons key path ih =>
    rw [at?_cons] at h
    obtain ⟨u, hu, hw⟩ := Option.bind_eq_some_iff.1 h
    cases v with
    | mapping entries =>
      refine List.mem_cons_of_mem _ (mem_entryPaths.2 ?_)
      exact ⟨(key, u), Entries.mem_of_get? hu, path, ih hw, rfl⟩
    | _ => cases hu

/-! ## Conflicts -/

/-- The conflict of two values that cannot be merged because they differ in shape. -/
def clash? (u v : Value) : Option KindConflict :=
  if u.isNull || v.isNull || u.shape == v.shape then none else some ⟨u.kind, v.kind⟩

/-- The conflict of what stands at the end of a path on both sides. -/
def clashAt? (base overlay : Value) (path : List String) : Option KindConflict :=
  (base.at? path).bind fun u => (overlay.at? path).bind fun v => clash? u v

/-- The conflicts of two values, in the order of a walk through the one that is laid over. -/
def conflicts (base overlay : Value) : List KindConflict :=
  overlay.paths.filterMap (clashAt? base overlay)

/-- At the end of a path, both sides have values that are not null and differ in shape. The conflict
names the kinds of the two. -/
def ClashesAt (base overlay : Value) (path : List String) (c : KindConflict) : Prop :=
  ∃ u v, base.at? path = some u ∧ overlay.at? path = some v ∧ u ≠ .null ∧ v ≠ .null ∧
    u.shape ≠ v.shape ∧ c = ⟨u.kind, v.kind⟩

theorem isNull_eq_false : v.isNull = false ↔ v ≠ .null := by
  cases v <;> simp [isNull]

theorem clash?_eq_some_iff :
    clash? u v = some c ↔ u ≠ .null ∧ v ≠ .null ∧ u.shape ≠ v.shape ∧ c = ⟨u.kind, v.kind⟩ := by
  rw [clash?, ← isNull_eq_false, ← isNull_eq_false]
  cases u.isNull <;> cases v.isNull <;> simp [@eq_comm _ c]

theorem clashAt?_eq_some_iff :
    clashAt? base overlay path = some c ↔ ClashesAt base overlay path c := by
  simp only [clashAt?, Option.bind_eq_some_iff, clash?_eq_some_iff, ClashesAt]
  constructor
  · rintro ⟨u, hu, v, hv, clash⟩
    exact ⟨u, v, hu, hv, clash⟩
  · rintro ⟨u, v, hu, hv, clash⟩
    exact ⟨u, hu, v, hv, clash⟩

/-- A conflict is listed exactly where a path leads to it. -/
theorem mem_conflicts : c ∈ conflicts base overlay ↔ ∃ path, ClashesAt base overlay path c := by
  simp only [conflicts, List.mem_filterMap, clashAt?_eq_some_iff]
  constructor
  · rintro ⟨path, -, clashes⟩
    exact ⟨path, clashes⟩
  · rintro ⟨path, clashes⟩
    have ⟨_, v, _, hv, _⟩ := clashes
    exact ⟨path, mem_paths_of_at? hv, clashes⟩

theorem filterMap_entryPaths {α : Type} (f : List String → Option α) (entries : Entries Value) :
    (entryPaths entries).filterMap f =
      entries.flatMap fun e => e.2.paths.filterMap fun path => f (e.1 :: path) := by
  induction entries with
  | nil => rfl
  | cons e entries ih =>
    rw [entryPaths, List.filterMap_append, List.filterMap_map, ih, List.flatMap_cons]
    rfl

/-- Under a key that the overlay has, a conflict is one of what the base has there. -/
theorem clashAt?_cons {base overlay : Entries Value} {key : String}
    (hv : overlay.get? key = some v) (path : List String) :
    clashAt? (.mapping base) (.mapping overlay) (key :: path) =
      (base.get? key).bind fun u => clashAt? u v path := by
  rw [clashAt?, at?_mapping_some hv]
  cases hu : base.get? key with
  | none =>
    rw [at?_mapping_none hu]
    rfl
  | some u =>
    rw [at?_mapping_some hu]
    rfl

/-- The conflicts of what a mapping has under the keys of entries with these, entry by entry. -/
def entryConflicts (base overlay : Entries Value) : List KindConflict :=
  overlay.flatMap fun e => (base.get? e.1).elim [] fun u => conflicts u e.2

/-- Two mappings are not in conflict as a whole. -/
theorem conflicts_mapping {base overlay : Entries Value} (distinct : overlay.keys.Nodup) :
    conflicts (.mapping base) (.mapping overlay) = entryConflicts base overlay := by
  rw [conflicts, paths, List.filterMap_cons_none rfl, filterMap_entryPaths]
  refine List.flatMap_congr fun e he => ?_
  simp only [clashAt?_cons (Entries.get?_of_mem distinct he)]
  cases base.get? e.1 with
  | none => exact List.filterMap_none _
  | some u => rfl

/-- Other values are in conflict as a whole or not at all. -/
theorem conflicts_of_not_mapping
    (h : (∀ entries, base ≠ .mapping entries) ∨ ∀ entries, overlay ≠ .mapping entries) :
    conflicts base overlay = (clash? base overlay).toList := by
  have below (key : String) (path : List String) : clashAt? base overlay (key :: path) = none := by
    rcases h with h | h
    · rw [clashAt?, at?_cons_eq_none h]
      rfl
    · rw [clashAt?, at?_cons_eq_none h]
      cases base.at? (key :: path) <;> rfl
  have nothing :
      (entryPaths (overlay.entries?.getD [])).filterMap (clashAt? base overlay) = [] := by
    simp only [filterMap_entryPaths, below, List.filterMap_none]
    exact List.flatMap_eq_nil_iff.2 fun _ _ => rfl
  have root : clashAt? base overlay [] = clash? base overlay := rfl
  rw [conflicts, paths_eq, List.filterMap_cons, nothing, root]
  cases clash? base overlay <;> rfl

/-! ## Merging -/

/-- The conflict that a merge fails with. -/
def conflict? {α : Type} : Except KindConflict α → Option KindConflict
  | .error c => some c
  | .ok _ => none

theorem conflict?_eq_some_iff {α : Type} {outcome : Except KindConflict α} :
    conflict? outcome = some c ↔ outcome = .error c := by
  cases outcome <;> simp [conflict?]

theorem conflict?_map {α β : Type} (f : α → β) (outcome : Except KindConflict α) :
    conflict? (outcome.map f) = conflict? outcome := by
  cases outcome <;> rfl

/-- What is put under another key makes no difference to conflicts. -/
theorem entryConflicts_put {base overlay : Entries Value} {key : String}
    (absent : key ∉ overlay.keys) (w : Value) :
    entryConflicts (base.put key w) overlay = entryConflicts base overlay := by
  refine List.flatMap_congr fun e he => ?_
  have other : key ≠ e.1 := by
    rintro rfl
    exact absent (List.mem_map_of_mem he)
  rw [Entries.get?_put, if_neg other]

/-- The loop fails with the first conflict of an entry with what the base has under its key, if
merging the values of the overlay does. -/
theorem conflict?_mergeEntries {base overlay : Entries Value}
    (values : ∀ e ∈ overlay, ∀ u, conflict? (merge u e.2) = (conflicts u e.2).head?)
    (distinct : overlay.keys.Nodup) :
    conflict? (mergeEntries base overlay) = (entryConflicts base overlay).head? := by
  induction overlay generalizing base with
  | nil => rfl
  | cons e overlay ih =>
    obtain ⟨key, v⟩ := e
    rw [List.forall_mem_cons] at values
    obtain ⟨absent, distinct⟩ := List.nodup_cons.1 distinct
    have later (w : Value) : conflict? (mergeEntries (base.put key w) overlay) =
        (entryConflicts base overlay).head? := by
      rw [ih values.2 distinct, entryConflicts_put absent]
    rw [mergeEntries, entryConflicts, List.flatMap_cons, List.head?_append]
    cases hu : base.get? key with
    | none => exact later v
    | some u =>
      have first := values.1 u
      cases hm : merge u v with
      | error conflict =>
        rw [hm] at first
        simp only [hm, Option.elim_some, ← first]
        rfl
      | ok w =>
        rw [hm] at first
        simp only [hm, Option.elim_some, ← first]
        exact later w

/-- Unless both are mappings, values can be merged where they do not clash. -/
theorem conflict?_merge_of_not_mapping
    (h : (∀ entries, base ≠ .mapping entries) ∨ ∀ entries, overlay ≠ .mapping entries) :
    conflict? (merge base overlay) = (conflicts base overlay).head? := by
  rw [conflicts_of_not_mapping h, Option.head?_toList]
  cases overlay with
  | mapping more =>
    cases base with
    | mapping entries => exact h.elim (absurd rfl <| · entries) (absurd rfl <| · more)
    | _ => rfl
  | _ => cases base <;> rfl

/-- A merge fails with the first of all conflicts. -/
theorem conflict?_merge (distinct : overlay.Distinct) :
    conflict? (merge base overlay) = (conflicts base overlay).head? := by
  -- The induction is on the overlay. Below a mapping, the base may be anything.
  induction overlay generalizing base with
  | mapping more ih =>
    cases base with
    | mapping entries =>
      rw [distinct_mapping] at distinct
      rw [merge_mapping, conflict?_map, conflicts_mapping distinct.1]
      exact conflict?_mergeEntries (fun e he u => ih e he (distinct.2 e he)) distinct.1
    | _ => exact conflict?_merge_of_not_mapping (.inl nofun)
  | _ => exact conflict?_merge_of_not_mapping (.inr nofun)

/-- **A merge fails exactly on a conflict.** It fails where a path of keys leads to values on both
sides that are not null and differ in shape, and it names the kinds at the first such path on a walk
through the overlay. -/
theorem merge_eq_error_iff (distinct : overlay.Distinct) :
    ((∃ c, merge base overlay = .error c) ↔ ∃ path c, ClashesAt base overlay path c) ∧
    ∀ c, merge base overlay = .error c ↔
      ∃ before path after, overlay.paths = before ++ path :: after ∧
        ClashesAt base overlay path c ∧
        ∀ earlier ∈ before, ∀ other, ¬ ClashesAt base overlay earlier other := by
  have first (c : KindConflict) :
      merge base overlay = .error c ↔ (conflicts base overlay).head? = some c := by
    rw [← conflict?_eq_some_iff, conflict?_merge distinct]
  refine ⟨?_, fun c => ?_⟩
  · simp only [first]
    rw [exists_comm]
    simp only [← mem_conflicts]
    constructor
    · rintro ⟨c, hc⟩
      exact ⟨c, List.mem_of_mem_head? hc⟩
    · rintro ⟨c, hc⟩
      exact ⟨_, List.head?_eq_some_head (List.ne_nil_of_mem hc)⟩
  · rw [first, conflicts, List.head?_filterMap, List.findSome?_eq_some_iff]
    simp only [clashAt?_eq_some_iff, Option.eq_none_iff_forall_ne_some, ne_eq]

/-- A list that meets a mapping two keys deep is reported before a string that meets a list, and a
null is in nobody's way. -/
theorem merge_eq_error_iff_list_and_mapping :
    let base : Value := .mapping [("name", .string "x"), ("users", .null),
      ("net", .mapping [("dns", .sequence [.string "a"])])]
    let overlay : Value := .mapping [("users", .sequence []),
      ("net", .mapping [("mtu", .null), ("dns", .mapping [])]), ("name", .sequence [])]
    overlay.Distinct ∧ merge base overlay = .error ⟨.sequence, .mapping⟩ ∧
      ∃ before path after, overlay.paths = before ++ path :: after ∧
        ClashesAt base overlay path ⟨.sequence, .mapping⟩ ∧
        ∀ earlier ∈ before, ∀ other, ¬ ClashesAt base overlay earlier other := by
  intro base overlay
  have distinct : overlay.Distinct := by
    simp [overlay, Distinct, DistinctItems, DistinctEntries, Entries.keys]
  have failed : merge base overlay = .error ⟨.sequence, .mapping⟩ := rfl
  exact ⟨distinct, failed, ((merge_eq_error_iff distinct).2 _).1 failed⟩

end Provision.Value
