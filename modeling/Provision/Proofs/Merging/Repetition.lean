import Provision.Proofs.Merging.AlongKeys
import Provision.Proofs.Merging.Keys
import Provision.Proofs.Merging.Order
import Provision.Proofs.Values.Alike

/-!
# Merging the same again

A value that has been merged can always be merged again. Whether that changes anything depends on
the lists in it alone:

* **success** — what was merged is in conflict with nothing that it left behind
  (`exists_merge_again`);
* **without items** — scalars, resets and mappings are already there, so the second merge changes
  nothing, not even the order of entries (`merge_absorbed`);
* **with items** — a list is appended a second time, wherever it stands, and nothing hides that
  (`at?_merge_again`).
-/

namespace Provision.Value

variable {base overlay r : Value}

/-- No path of keys leads to a sequence with items. -/
def ItemFree (v : Value) : Prop := v.AlongKeys fun w => w.items?.getD [] = []

instance : DecidablePred ItemFree := fun v =>
  inferInstanceAs (Decidable (v.AlongKeys fun w => w.items?.getD [] = []))

/-! ## Success -/

/-- A value that is no null leaves one of its own shape. -/
theorem merge_shape_above {u v w : Value} (merged : merge u v = .ok w) (nonnull : v ≠ .null) :
    w.shape = v.shape := by
  cases merged_of_merge merged with
  | reset => exact absurd rfl nonnull
  | _ => rfl

theorem exists_clashesAt {c : KindConflict} (distinct : overlay.Distinct)
    (failed : merge base overlay = .error c) : ∃ path, ClashesAt base overlay path c := by
  have first : conflict? (merge base overlay) = (conflicts base overlay).head? :=
    conflict?_merge distinct
  rw [failed] at first
  exact mem_conflicts.1 (List.mem_of_mem_head? first.symm)

/-- What has been merged can be merged again. -/
theorem exists_merge_again (distinct : overlay.Distinct) (merged : merge base overlay = .ok r) :
    ∃ again, merge r overlay = .ok again := by
  cases outcome : merge r overlay with
  | ok again => exact ⟨again, rfl⟩
  | error c =>
    -- At the end of a path to a conflict stands what the first merge left there.
    obtain ⟨path, u, v, hu, hv, -, nonnull, differ, -⟩ := exists_clashesAt distinct outcome
    obtain ⟨added, met, -, -⟩ := at?_merge distinct merged path
    have same : u.shape = v.shape := by
      cases hx : base.at? path with
      | none =>
        rw [added v hv hx, Option.some.injEq] at hu
        rw [hu]
      | some x =>
        obtain ⟨z, hz, hat⟩ := met x v hx hv
        rw [hat, Option.some.injEq] at hu
        rw [← hu]
        exact merge_shape_above hz nonnull
    exact absurd same differ

/-! ## Without items -/

/-- Entries that change nothing one by one change nothing. -/
theorem mergeEntries_of_absorbed {entries overlay : Entries Value}
    (absorbed : ∀ e ∈ overlay, ∃ u, entries.get? e.1 = some u ∧ merge u e.2 = .ok u) :
    mergeEntries entries overlay = .ok entries := by
  induction overlay with
  | nil => rw [mergeEntries]
  | cons e overlay ih =>
    obtain ⟨key, v⟩ := e
    rw [List.forall_mem_cons] at absorbed
    obtain ⟨⟨u, hu, hm⟩, rest⟩ := absorbed
    simp only at hu hm
    rw [mergeEntries, hu]
    simp only [hm, Entries.put_of_get? hu]
    exact ih rest

/-- What has been merged changes nothing a second time, if there are no lists with items in it. -/
theorem merge_absorbed (distinct : overlay.Distinct) (free : overlay.ItemFree)
    (merged : merge base overlay = .ok r) : merge r overlay = .ok r := by
  -- The induction is on the value that is merged twice. What it has under a key was merged over
  -- what the base had there, or over nothing.
  induction overlay generalizing base r with
  | null =>
    rw [merge, Except.ok.injEq] at merged
    rw [merge, ← merged, zero_zero]
  | bool | number | string =>
    obtain ⟨-, rfl⟩ := (merge_scalar_iff rfl (by simp)).1 merged
    exact (merge_scalar_iff rfl (by simp)).2 ⟨rfl, rfl⟩
  | sequence more =>
    obtain rfl : more = [] := free.self
    cases merged_of_merge merged with
    | fill => rfl
    | scalar _ _ _ scalar => cases scalar
    | append items _ =>
      rw [List.append_nil, merge, List.append_nil]
  | mapping more ih =>
    have keys := (distinct_mapping.1 distinct).1
    rw [merge_mapping_over merged keys] at merged
    obtain ⟨entries, result, rfl⟩ := map_eq_ok_iff.1 merged
    have absorbed : mergeEntries entries more = .ok entries := by
      apply mergeEntries_of_absorbed
      intro e he
      have held : Entries.get? e.1 more = some e.2 := Entries.get?_of_mem keys he
      have place := get?_mergeEntries keys result e.1
      rw [held, overlaid_eq_ok_iff] at place
      obtain ⟨u, hu, hplace⟩ := place
      exact ⟨u, hplace.symm, ih e he (distinct.get? held) (free.get? held) hu⟩
    rw [merge_mapping, absorbed]
    rfl

/-! ## With items -/

/-- A list that has been merged is at the end of what stands there, and a second merge appends it
again. -/
theorem at?_merge_again {again : Value} (distinct : overlay.Distinct)
    (merged : merge base overlay = .ok r) (repeated : merge r overlay = .ok again)
    {path : List String} {more : List Value} (h : overlay.at? path = some (.sequence more)) :
    ∃ items, r.at? path = some (.sequence items) ∧
      again.at? path = some (.sequence (items ++ more)) := by
  obtain ⟨items, hitems⟩ : ∃ items, r.at? path = some (.sequence items) := by
    obtain ⟨added, met, -, -⟩ := at?_merge distinct merged path
    cases hx : base.at? path with
    | none => exact ⟨more, added _ h hx⟩
    | some x =>
      obtain ⟨z, hz, hat⟩ := met x _ hx h
      cases merged_of_merge hz with
      | fill => exact ⟨more, hat⟩
      | append items _ => exact ⟨items ++ more, hat⟩
      | scalar _ _ _ scalar => cases scalar
  obtain ⟨-, met, -, -⟩ := at?_merge distinct repeated path
  obtain ⟨z, hz, hat⟩ := met _ _ hitems h
  rw [merge, Except.ok.injEq] at hz
  exact ⟨items, hitems, by rw [hat, hz]⟩

/-- What a path leads to in a sorted value is what it leads to in the value, sorted. -/
theorem at?_sorted {v : Value} (distinct : v.Distinct) (path : List String) :
    v.sorted.at? path = (v.at? path).map sorted := by
  induction path generalizing v with
  | nil => rfl
  | cons key path ih =>
    cases v with
    | mapping entries =>
      have keys : (Entries.keys (sortedEntries entries)).Nodup := by
        rw [keys_sortedEntries]
        exact (distinct_mapping.1 distinct).1
      have place : Entries.get? key (Entries.sorted (sortedEntries entries)) =
          (Entries.get? key entries).map sorted := by
        rw [Entries.get?_sorted keys, get?_sortedEntries]
      rw [sorted_mapping]
      cases hw : Entries.get? key entries with
      | none =>
        rw [hw] at place
        rw [at?_mapping_none place, at?_mapping_none hw]
        rfl
      | some w =>
        rw [hw] at place
        rw [at?_mapping_some place, at?_mapping_some hw]
        exact ih (distinct.get? hw)
    | _ => rfl

/-- A value that is the same after a second merge has no lists with items in it. -/
theorem itemFree_of_sorted_eq {again : Value} (distinct : overlay.Distinct) (hr : r.Distinct)
    (hagain : again.Distinct) (merged : merge base overlay = .ok r)
    (repeated : merge r overlay = .ok again) (same : again.sorted = r.sorted) :
    overlay.ItemFree := by
  intro path w hw
  cases w with
  | sequence more =>
    obtain ⟨items, before, after⟩ := at?_merge_again distinct merged repeated hw
    have ends := congrArg (fun v => v.at? path) same
    simp only [at?_sorted hagain, at?_sorted hr, before, after, Option.map_some, sorted_sequence,
      Option.some.injEq, sequence.injEq] at ends
    have length := congrArg List.length ends
    simp only [List.length_map, List.length_append] at length
    have none : more.length = 0 := by omega
    exact List.eq_nil_of_length_eq_zero none
  | _ => rfl

/-- **Merging the same again changes nothing exactly where there are no list items in it.** The
second merge always goes through. If no path of keys leads to a list with items, it leaves the value
as it is; otherwise the two are not alike, for each of the lists is there once more. -/
theorem merge_again (hbase : base.Distinct) (hoverlay : overlay.Distinct)
    (merged : merge base overlay = .ok r) :
    ∃ again, merge r overlay = .ok again ∧ (again = r ↔ overlay.ItemFree) ∧
      (again.Alike r ↔ overlay.ItemFree) ∧
      ∀ path more, overlay.at? path = some (.sequence more) →
        ∃ items, r.at? path = some (.sequence items) ∧
          again.at? path = some (.sequence (items ++ more)) := by
  obtain ⟨again, repeated⟩ := exists_merge_again hoverlay merged
  have hr := hbase.merge hoverlay merged
  have hagain := hr.merge hoverlay repeated
  have absorbed : overlay.ItemFree → again = r := by
    intro free
    rw [merge_absorbed hoverlay free merged, Except.ok.injEq] at repeated
    exact repeated.symm
  have itemFree : again.sorted = r.sorted → overlay.ItemFree :=
    itemFree_of_sorted_eq hoverlay hr hagain merged repeated
  refine ⟨again, repeated, ?_, ?_, ?_⟩
  · constructor
    · intro same
      exact itemFree (congrArg sorted same)
    · exact absorbed
  · rw [← sorted_eq_iff_alike hagain hr]
    constructor
    · exact itemFree
    · intro free
      rw [absorbed free]
  · intro path more h
    exact at?_merge_again hoverlay merged repeated h

/-- A reset and a scalar are there already when they are merged again, and a list is appended. -/
theorem merge_again_reset_and_list :
    let base : Value := .mapping [("users", .mapping [("kairos", .bool true)]),
      ("net", .mapping [("dns", .sequence [.string "a"])])]
    let overlay : Value := .mapping [("users", .null), ("x", .number (.float .nan)),
      ("net", .mapping [("dns", .sequence [.string "b"])])]
    let r : Value := .mapping [("users", .mapping []),
      ("net", .mapping [("dns", .sequence [.string "a", .string "b"])]),
      ("x", .number (.float .nan))]
    (base.Distinct ∧ overlay.Distinct) ∧ merge base overlay = .ok r ∧ ¬ overlay.ItemFree ∧
      ∃ again, merge r overlay = .ok again ∧ ¬ again.Alike r ∧
        again.at? ["net", "dns"] = some (.sequence [.string "a", .string "b", .string "b"]) := by
  intro base overlay r
  have distinct : base.Distinct ∧ overlay.Distinct := by
    simp [base, overlay, Distinct, DistinctItems, DistinctEntries, Entries.keys]
  have merged : merge base overlay = .ok r := rfl
  have items : ¬ overlay.ItemFree := by decide
  refine ⟨distinct, merged, items, ?_⟩
  obtain ⟨again, repeated, -, alike, lists⟩ := merge_again distinct.1 distinct.2 merged
  refine ⟨again, repeated, ?_, ?_⟩
  · rw [alike]
    exact items
  · obtain ⟨before, hbefore, hagain⟩ := lists ["net", "dns"] [.string "b"] rfl
    cases hbefore
    exact hagain

end Provision.Value
