import Provision.Value.Merge

/-!
# Values with distinct keys

`Value.Distinct` is recursive, and its users mostly ask about one item or one entry. The lemmas here
turn it into statements about members, and carry it through the operations that make new mappings:
restricting, putting, and merging.
-/

namespace Provision

namespace Entries

variable {α : Type}

/-- A key that is found is there with what it holds. -/
theorem mem_of_get? {key : String} {a : α} {es : Entries α} (h : es.get? key = some a) :
    (key, a) ∈ es := by
  induction es with
  | nil => simp at h
  | cons e es ih =>
    obtain ⟨k, b⟩ := e
    rw [get?_cons] at h
    split at h
    · next hk =>
      cases h
      rw [hk]
      exact List.mem_cons_self
    · exact List.mem_cons_of_mem _ (ih h)

/-- With distinct keys, what is there is found. -/
theorem get?_of_mem {key : String} {a : α} {es : Entries α} (distinct : es.keys.Nodup)
    (h : (key, a) ∈ es) : es.get? key = some a := by
  induction es with
  | nil => simp at h
  | cons e es ih =>
    obtain ⟨k, b⟩ := e
    obtain ⟨fresh, distinct⟩ := List.nodup_cons.1 distinct
    rw [get?_cons]
    rcases List.mem_cons.1 h with h | h
    · cases h
      exact if_pos rfl
    · have hk : k ≠ key := by
        rintro rfl
        exact fresh (List.mem_map.2 ⟨_, h, rfl⟩)
      rw [if_neg hk]
      exact ih distinct h

/-- What is put in is there, and everything else was there before. -/
theorem mem_of_mem_put {key : String} {a : α} {e : String × α} {es : Entries α}
    (h : e ∈ es.put key a) : e = (key, a) ∨ e ∈ es := by
  induction es with
  | nil =>
    simp only [put, List.mem_singleton] at h
    exact .inl h
  | cons f es ih =>
    obtain ⟨k, b⟩ := f
    simp only [put] at h
    split at h
    · next hk =>
      rcases List.mem_cons.1 h with h | h
      · exact .inl (hk ▸ h)
      · exact .inr (List.mem_cons_of_mem _ h)
    · rcases List.mem_cons.1 h with h | h
      · exact .inr (h ▸ List.mem_cons_self)
      · exact (ih h).imp id (List.mem_cons_of_mem _)

end Entries

namespace Value

theorem distinctItems_iff {items : List Value} :
    DistinctItems items ↔ ∀ v ∈ items, v.Distinct := by
  induction items with
  | nil => simp [DistinctItems]
  | cons v items ih => simp [DistinctItems, ih]

theorem distinctEntries_iff {entries : Entries Value} :
    DistinctEntries entries ↔ ∀ e ∈ entries, e.2.Distinct := by
  induction entries with
  | nil => simp [DistinctEntries]
  | cons e entries ih => simp [DistinctEntries, ih]

theorem distinct_sequence {items : List Value} :
    (sequence items).Distinct ↔ ∀ v ∈ items, v.Distinct := by
  rw [Distinct, distinctItems_iff]

theorem distinct_mapping {entries : Entries Value} :
    (mapping entries).Distinct ↔ entries.keys.Nodup ∧ ∀ e ∈ entries, e.2.Distinct := by
  rw [Distinct, distinctEntries_iff]

/-- What a key of a mapping with distinct keys holds has distinct keys. -/
theorem Distinct.get? {entries : Entries Value} (distinct : (mapping entries).Distinct)
    {key : String} {v : Value} (h : entries.get? key = some v) : v.Distinct :=
  (distinct_mapping.1 distinct).2 (key, v) (Entries.mem_of_get? h)

/-- Putting a value with distinct keys into such entries. -/
theorem Distinct.put {entries : Entries Value} (distinct : (mapping entries).Distinct)
    (key : String) {v : Value} (hv : v.Distinct) : (mapping (entries.put key v)).Distinct := by
  rw [distinct_mapping] at distinct ⊢
  refine ⟨Entries.nodup_keys_put key v distinct.1, fun e he => ?_⟩
  rcases Entries.mem_of_mem_put he with rfl | he
  · exact hv
  · exact distinct.2 e he

/-- Restricting keeps keys distinct. -/
theorem Distinct.restrict {entries : Entries Value} (distinct : (mapping entries).Distinct)
    (keep : String → Bool) : (mapping (entries.restrict keep)).Distinct := by
  rw [distinct_mapping] at distinct ⊢
  refine ⟨?_, fun e he => distinct.2 e (List.mem_filter.1 he).1⟩
  rw [Entries.keys_restrict]
  exact distinct.1.filter keep

theorem distinct_of_isScalar {v : Value} (scalar : v.isScalar = true) : v.Distinct := by
  cases v <;> trivial

theorem distinct_zero (v : Value) : v.zero.Distinct := by
  cases v <;> simp [zero, Distinct, DistinctItems, DistinctEntries, Entries.keys]

end Value

end Provision
