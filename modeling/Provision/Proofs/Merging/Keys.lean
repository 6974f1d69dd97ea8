import Provision.Proofs.Merging.Keywise
import Provision.Proofs.Values.Distinct

/-!
# The keys of merged entries

A merge leaves the keys of the base where they are and appends those that only the overlay has
(`Value.keys_mergeEntries`). Together with what each key holds this settles the merged entries
altogether, the order included (`Entries.eq_of_keys_eq`).

In particular nothing is lost or moved where there is nothing below. So a null takes whatever
mapping is laid over it as a mapping without entries does (`Value.merge_mapping_over`).
-/

namespace Provision

namespace Entries

variable {α : Type} {es fs : Entries α}

/-- Putting under a key what it holds changes nothing. -/
theorem put_of_get? {key : String} {a : α} (h : es.get? key = some a) : es.put key a = es := by
  induction es with
  | nil => cases h
  | cons e es ih =>
    obtain ⟨k, b⟩ := e
    rw [get?_cons] at h
    by_cases hk : k = key
    · rw [if_pos hk, Option.some.injEq] at h
      rw [put, if_pos hk, h]
    · rw [if_neg hk] at h
      rw [put, if_neg hk, ih h]

/-- Entries with distinct keys are known from the keys in order and from what each key holds. -/
theorem eq_of_keys_eq (distinct : es.keys.Nodup) (ordered : es.keys = fs.keys)
    (held : ∀ key, es.get? key = fs.get? key) : es = fs := by
  induction es generalizing fs with
  | nil => exact (List.map_eq_nil_iff.1 ordered.symm).symm
  | cons e es ih =>
    obtain ⟨k, a⟩ := e
    cases fs with
    | nil => cases ordered
    | cons f fs =>
      obtain ⟨k', b⟩ := f
      obtain ⟨rfl, ordered'⟩ := List.cons.inj ordered
      obtain ⟨fresh, distinct⟩ := List.nodup_cons.1 distinct
      have first := held k
      rw [get?_cons, get?_cons, if_pos rfl, if_pos rfl, Option.some.injEq] at first
      have rest : es = fs := by
        apply ih distinct ordered'
        intro key
        by_cases hk : k = key
        · -- The first key has no second entry on either side.
          subst hk
          have fresh' : k ∉ fs.map Prod.fst := ordered' ▸ fresh
          rw [(get?_eq_none_iff k es).2 fresh, (get?_eq_none_iff k fs).2 fresh']
        · have other := held key
          rwa [get?_cons, get?_cons, if_neg hk, if_neg hk] at other
      rw [first, rest]

end Entries

namespace Value

variable {base overlay result : Entries Value}

/-- The keys of the base stay, and the new ones of the overlay follow in their order. -/
theorem keys_mergeEntries (distinct : overlay.keys.Nodup)
    (merged : mergeEntries base overlay = .ok result) :
    result.keys = base.keys ++ overlay.keys.filter (· ∉ base.keys) := by
  induction overlay generalizing base with
  | nil =>
    rw [mergeEntries] at merged
    cases merged
    exact (List.append_nil _).symm
  | cons e overlay ih =>
    obtain ⟨k, v⟩ := e
    obtain ⟨fresh, distinct⟩ := List.nodup_cons.1 distinct
    obtain ⟨w, -, merged⟩ := mergeEntries_cons_eq_ok merged
    have rest := ih distinct merged
    rw [Entries.keys_put] at rest
    show result.keys = base.keys ++ (k :: Entries.keys overlay).filter (· ∉ base.keys)
    by_cases hk : k ∈ base.keys
    · rw [if_pos hk] at rest
      rw [rest, List.filter_cons_of_neg (by simpa using hk)]
    · -- The key that was appended is none of those to come.
      rw [if_neg hk] at rest
      have same : (Entries.keys overlay).filter (· ∉ base.keys ++ [k]) =
          (Entries.keys overlay).filter (· ∉ base.keys) := by
        apply List.filter_congr
        intro key hkey
        have other : key ≠ k := by
          rintro rfl
          exact fresh hkey
        simp [other]
      rw [rest, same, List.filter_cons_of_pos (by simpa using hk), List.append_assoc]
      rfl

/-- Merging makes no second entry for a key. -/
theorem nodup_keys_mergeEntries (distinct : base.keys.Nodup) (distinct' : overlay.keys.Nodup)
    (merged : mergeEntries base overlay = .ok result) : result.keys.Nodup := by
  rw [keys_mergeEntries distinct' merged]
  refine List.nodup_append.2 ⟨distinct, distinct'.filter _, ?_⟩
  rintro key hbase _ hnew rfl
  have absent := (List.mem_filter.1 hnew).2
  simp [hbase] at absent

/-! ## Over nothing -/

/-- Entries that are laid over nothing are what is left. -/
theorem mergeEntries_nil_left (distinct : overlay.keys.Nodup) :
    mergeEntries [] overlay = .ok overlay := by
  have places : ∀ key, ∃ place, overlaid (Entries.get? key []) (overlay.get? key) = .ok place := by
    intro key
    exact ⟨overlay.get? key, overlaid_none_left _⟩
  obtain ⟨result, merged⟩ := (mergeEntries_isOk_iff distinct).2 places
  have ordered : Entries.keys result = overlay.keys := by
    rw [keys_mergeEntries distinct merged]
    simp [Entries.keys]
  have same : overlay = result := by
    apply Entries.eq_of_keys_eq distinct ordered.symm
    intro key
    have place := get?_mergeEntries distinct merged key
    rwa [Entries.get?_nil, overlaid_none_left, Except.ok.injEq] at place
  rw [merged, same]

/-- What a mapping can be merged over takes any mapping, as its entries do: a null has none. -/
theorem merge_mapping_over {u m : Value} {es overlay : Entries Value}
    (merged : merge u (.mapping es) = .ok m) (distinct : overlay.keys.Nodup) :
    merge u (.mapping overlay) = (mergeEntries (u.entries?.getD []) overlay).map .mapping := by
  cases u with
  | null =>
    rw [merge_null_left]
    show _ = (mergeEntries [] overlay).map mapping
    rw [mergeEntries_nil_left distinct]
    rfl
  | mapping base => exact merge_mapping base overlay
  | _ => simp [merge] at merged

end Value

end Provision
