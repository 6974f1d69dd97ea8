import Provision.Proofs.Merging.Paths
import Provision.Proofs.Values.Sorted

/-!
# Merging and the order of entries

What a merge makes of two values does not depend on the order of entries in them: values that are
sorted alike can be merged with the same right, and what they become is sorted alike again
(`Value.merge_congr`). Merging also keeps the keys distinct (`Value.Distinct.merge`).
-/

namespace Provision.Value

/-! ## Values that are sorted alike -/

theorem kind_sorted (v : Value) : v.sorted.kind = v.kind := by
  cases v <;> rfl

theorem isScalar_sorted (v : Value) : v.sorted.isScalar = v.isScalar := by
  cases v <;> rfl

theorem zero_sorted (v : Value) : v.sorted.zero = v.zero := by
  cases v <;> rfl

/-- A scalar is sorted like itself only. -/
theorem eq_of_sorted_eq {u v : Value} (h : u.sorted = v.sorted) (scalar : v.isScalar = true) :
    u = v := by
  have hu : u.isScalar = true := by rw [← isScalar_sorted, h, isScalar_sorted, scalar]
  rw [← sorted_of_isScalar hu, h, sorted_of_isScalar scalar]

theorem exists_sequence_of_sorted_eq {items : List Value} {v : Value}
    (h : (sequence items).sorted = v.sorted) :
    ∃ items', v = .sequence items' ∧ items.map sorted = items'.map sorted := by
  have hkind := congrArg kind h
  rw [kind_sorted, kind_sorted] at hkind
  cases v with
  | sequence items' =>
    rw [sorted_sequence, sorted_sequence, sequence.injEq] at h
    exact ⟨items', rfl, h⟩
  | _ => cases hkind

theorem exists_mapping_of_sorted_eq {entries : Entries Value} {v : Value}
    (h : (mapping entries).sorted = v.sorted) : ∃ entries', v = .mapping entries' := by
  have hkind := congrArg kind h
  rw [kind_sorted, kind_sorted] at hkind
  cases v with
  | mapping entries' => exact ⟨entries', rfl⟩
  | _ => cases hkind

/-! ## Merging -/

/-- A scalar that is no null takes the place of scalars, and of nothing else. -/
theorem merge_scalar_iff {u v w : Value} (scalar : v.isScalar = true) (nonnull : v ≠ .null) :
    merge u v = .ok w ↔ u.isScalar = true ∧ v = w := by
  cases v with
  | null => exact absurd rfl nonnull
  | sequence items => cases scalar
  | mapping entries => cases scalar
  | bool b => cases hu : u.isScalar <;> simp [merge, hu]
  | number n => cases hu : u.isScalar <;> simp [merge, hu]
  | string s => cases hu : u.isScalar <;> simp [merge, hu]

/-- What becomes of a place does not depend on the order of entries, if that holds of merging the
value above. -/
theorem overlaid_congr {below below' above above' place : Option Value}
    (congr : ∀ u u' v v' w, below = some u → below' = some u' → above = some v → above' = some v' →
      u.sorted = u'.sorted → v.sorted = v'.sorted → merge u v = .ok w →
        ∃ w', merge u' v' = .ok w' ∧ w'.sorted = w.sorted)
    (hbelow : below.map sorted = below'.map sorted) (habove : above.map sorted = above'.map sorted)
    (h : overlaid below above = .ok place) :
    ∃ place', overlaid below' above' = .ok place' ∧ place'.map sorted = place.map sorted := by
  -- Sorting keeps what is there and what is not, so a place is taken on both sides or on neither.
  cases above with
  | none =>
    cases above' with
    | some v' => cases habove
    | none =>
      rw [overlaid_none_right] at h ⊢
      cases h
      exact ⟨below', rfl, hbelow.symm⟩
  | some v =>
    cases above' with
    | none => cases habove
    | some v' =>
      cases below with
      | none =>
        cases below' with
        | some u' => cases hbelow
        | none =>
          rw [overlaid_none_left] at h ⊢
          cases h
          exact ⟨some v', rfl, habove.symm⟩
      | some u =>
        cases below' with
        | none => cases hbelow
        | some u' =>
          rw [overlaid_some] at h ⊢
          cases hm : merge u v with
          | error conflict =>
            rw [hm] at h
            cases h
          | ok w =>
            rw [hm] at h
            cases h
            obtain ⟨w', hw', hsorted⟩ := congr u u' v v' w rfl rfl rfl rfl (Option.some.inj hbelow)
              (Option.some.inj habove) hm
            exact ⟨some w', by rw [hw']; rfl, congrArg some hsorted⟩

/-! ## Distinct keys -/

/-- Merging keeps the keys of entries distinct, if it does so of the values above. -/
theorem Distinct.mergeEntries {base overlay result : Entries Value}
    (keeps : ∀ e ∈ overlay, ∀ u w, u.Distinct → Value.merge u e.2 = .ok w → w.Distinct)
    (hbase : (mapping base).Distinct) (hoverlay : ∀ e ∈ overlay, e.2.Distinct)
    (merged : Value.mergeEntries base overlay = .ok result) : (mapping result).Distinct := by
  induction overlay generalizing base with
  | nil =>
    rw [Value.mergeEntries] at merged
    cases merged
    exact hbase
  | cons e overlay ih =>
    obtain ⟨key, v⟩ := e
    -- A turn of the loop puts in one value, merged over what was there or over nothing.
    rw [List.forall_mem_cons] at keeps hoverlay
    obtain ⟨w, place, merged⟩ := mergeEntries_cons_eq_ok merged
    obtain ⟨w, hw, ⟨⟩⟩ := overlaid_eq_ok_iff.1 place
    have below : ((base.get? key).getD .null).Distinct := by
      cases hu : base.get? key with
      | none => trivial
      | some u => exact hbase.get? hu
    exact ih keeps.2 (hbase.put key (keeps.1 _ w below hw)) hoverlay.2 merged

theorem Merged.distinct {u v w : Value} (h : Merged u v w) (hu : u.Distinct) (hv : v.Distinct)
    (entries : ∀ base overlay result, u = .mapping base → v = .mapping overlay →
      Value.mergeEntries base overlay = .ok result → (mapping result).Distinct) : w.Distinct := by
  cases h with
  | reset => exact distinct_zero u
  | fill => exact hv
  | scalar => exact hv
  | append items more =>
    exact distinct_sequence.2
      (List.forall_mem_append.2 ⟨distinct_sequence.1 hu, distinct_sequence.1 hv⟩)
  | entries merged => exact entries _ _ _ rfl rfl merged

/-- Merging keeps keys distinct. -/
theorem Distinct.merge {u v w : Value} (hu : u.Distinct) (hv : v.Distinct)
    (merged : Value.merge u v = .ok w) : w.Distinct := by
  induction v generalizing u w with
  | mapping overlay ih =>
    apply (merged_of_merge merged).distinct hu hv
    rintro base _ result rfl ⟨rfl⟩ merged
    obtain ⟨-, hvalues⟩ := distinct_mapping.1 hv
    exact Distinct.mergeEntries (fun e he u w hu hm => ih e he hu (hvalues e he) hm) hu hvalues
      merged
  | _ => exact (merged_of_merge merged).distinct hu hv nofun

/-! ## The order of entries -/

/-- Entries can be merged where each place can, and what holds of the places holds of the result. -/
theorem exists_mergeEntries (base : Entries Value) {overlay : Entries Value}
    (distinct : overlay.keys.Nodup) {P : String → Option Value → Prop}
    (places : ∀ key, ∃ place,
      overlaid (base.get? key) (overlay.get? key) = .ok place ∧ P key place) :
    ∃ result, mergeEntries base overlay = .ok result ∧ ∀ key, P key (Entries.get? key result) := by
  obtain ⟨result, merged⟩ := (mergeEntries_isOk_iff distinct).2 fun key =>
    (places key).imp fun _ h => h.1
  refine ⟨result, merged, fun key => ?_⟩
  obtain ⟨place, hplace, hP⟩ := places key
  rw [get?_mergeEntries distinct merged key] at hplace
  cases hplace
  exact hP

theorem merge_congr_null {u u' v v' w : Value} (hu : u.sorted = u'.sorted)
    (hv : v.sorted = v'.sorted) (merged : merge u v = .ok w) (null : u = .null) :
    ∃ w', merge u' v' = .ok w' ∧ w'.sorted = w.sorted := by
  subst null
  obtain rfl : u' = .null := eq_of_sorted_eq hu.symm rfl
  rw [merge_null_left] at merged
  cases merged
  exact ⟨v', merge_null_left v', hv.symm⟩

theorem merge_congr_scalar {u u' v v' w : Value} (hu : u.sorted = u'.sorted)
    (hv : v.sorted = v'.sorted) (merged : merge u v = .ok w) (scalar : v.isScalar = true)
    (nonnull : v ≠ .null) : ∃ w', merge u' v' = .ok w' ∧ w'.sorted = w.sorted := by
  obtain ⟨below, rfl⟩ := (merge_scalar_iff scalar nonnull).1 merged
  obtain rfl : v' = v := eq_of_sorted_eq hv.symm scalar
  have below' : u'.isScalar = true := by rw [← isScalar_sorted, ← hu, isScalar_sorted, below]
  exact ⟨v', (merge_scalar_iff scalar nonnull).2 ⟨below', rfl⟩, rfl⟩

/-- What a merge makes of two values does not depend on the order of entries in them. -/
theorem merge_congr {u u' v v' w : Value} (du : u.Distinct) (du' : u'.Distinct) (dv : v.Distinct)
    (dv' : v'.Distinct) (hu : u.sorted = u'.sorted) (hv : v.sorted = v'.sorted)
    (merged : merge u v = .ok w) : ∃ w', merge u' v' = .ok w' ∧ w'.sorted = w.sorted := by
  -- The induction is on the value above: its kind decides what a merge does, and below a mapping
  -- the law holds of the values of its keys.
  induction v generalizing u u' v' w with
  | null =>
    obtain rfl : v' = .null := eq_of_sorted_eq hv.symm rfl
    rw [merge] at merged
    cases merged
    refine ⟨u'.zero, by rw [merge], ?_⟩
    rw [← zero_sorted u', ← hu, zero_sorted u]
  | bool b => exact merge_congr_scalar hu hv merged rfl (by simp)
  | number n => exact merge_congr_scalar hu hv merged rfl (by simp)
  | string s => exact merge_congr_scalar hu hv merged rfl (by simp)
  | sequence more ih =>
    cases merged_of_merge merged with
    | fill => exact merge_congr_null hu hv merged rfl
    | scalar _ _ _ scalar => cases scalar
    | append items more =>
      obtain ⟨items', rfl, hitems⟩ := exists_sequence_of_sorted_eq hu
      obtain ⟨more', rfl, hmore⟩ := exists_sequence_of_sorted_eq hv
      refine ⟨_, by rw [merge], ?_⟩
      rw [sorted_sequence, sorted_sequence, List.map_append, List.map_append, hitems, hmore]
  | mapping overlay ih =>
    cases merged_of_merge merged with
    | fill => exact merge_congr_null hu hv merged rfl
    | scalar _ _ _ scalar => cases scalar
    | @entries base _ result hentries =>
      obtain ⟨base', rfl⟩ := exists_mapping_of_sorted_eq hu
      obtain ⟨overlay', rfl⟩ := exists_mapping_of_sorted_eq hv
      have hkeys := (distinct_mapping.1 dv).1
      have hkeys' := (distinct_mapping.1 dv').1
      rw [sorted_mapping_eq_iff (distinct_mapping.1 du).1 (distinct_mapping.1 du').1] at hu
      rw [sorted_mapping_eq_iff hkeys hkeys'] at hv
      -- Both merges go key by key, and at each key the values are sorted alike.
      obtain ⟨result', hresult, hsame⟩ := exists_mergeEntries base' hkeys'
        (P := fun key place => place.map sorted = (result.get? key).map sorted) fun key =>
          overlaid_congr (fun u u' v v' w hbelow hbelow' habove habove' =>
            ih _ (Entries.mem_of_get? habove) (du.get? hbelow) (du'.get? hbelow') (dv.get? habove)
              (dv'.get? habove'))
            (hu key) (hv key) (get?_mergeEntries hkeys hentries key)
      have hmerged : merge (.mapping base') (.mapping overlay') = .ok (.mapping result') := by
        rw [merge_mapping, hresult]
        rfl
      refine ⟨_, hmerged, ?_⟩
      rw [sorted_mapping_eq_iff (distinct_mapping.1 (du'.merge dv' hmerged)).1
        (distinct_mapping.1 (du.merge dv merged)).1]
      exact hsame

end Provision.Value
