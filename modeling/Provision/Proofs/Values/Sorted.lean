import Provision.Proofs.Values.Everywhere

/-!
# Sorted values

Sorting the entries of a mapping changes nothing that its keys hold, so a sorted value is the same
value (`Value.same_sorted`), and two mappings with distinct keys are sorted alike exactly when each
key holds values that are sorted alike (`Value.sorted_mapping_eq_iff`).
-/

namespace Provision

namespace Entries

variable {α : Type} {es fs : Entries α}

theorem sorted_perm (es : Entries α) : es.sorted.Perm es := List.mergeSort_perm _ _

theorem keys_sorted_perm (es : Entries α) : es.sorted.keys.Perm es.keys :=
  (sorted_perm es).map Prod.fst

theorem pairwise_sorted (es : Entries α) : es.sorted.Pairwise fun a b => a.1 ≤ b.1 := by
  have h : es.sorted.Pairwise fun a b => decide (a.1 ≤ b.1) = true := by
    refine List.pairwise_mergeSort (fun a b c hab hbc => ?_) (fun a b => ?_) es
    · exact decide_eq_true (String.le_trans (of_decide_eq_true hab) (of_decide_eq_true hbc))
    · simpa using String.le_total a.1 b.1
  exact h.imp fun hab => of_decide_eq_true hab

theorem nodup_of_nodup_keys (distinct : es.keys.Nodup) : List.Nodup es :=
  List.Pairwise.of_map Prod.fst (fun _ _ hne h => hne (congrArg Prod.fst h)) distinct

/-- With distinct keys, the order of entries is no matter to what a key holds. -/
theorem get?_of_perm (distinct : es.keys.Nodup) (perm : es.Perm fs) (key : String) :
    es.get? key = fs.get? key := by
  have distinct' : fs.keys.Nodup := (perm.map Prod.fst).nodup_iff.1 distinct
  cases hf : fs.get? key with
  | some a => exact get?_of_mem distinct (perm.mem_iff.2 (mem_of_get? hf))
  | none =>
    rw [get?_eq_none_iff] at hf ⊢
    exact fun h => hf ((perm.map Prod.fst).mem_iff.1 h)

theorem get?_sorted (distinct : es.keys.Nodup) (key : String) :
    es.sorted.get? key = es.get? key :=
  (get?_of_perm distinct (sorted_perm es).symm key).symm

/-- Entries with distinct keys are known from what each key holds, but for their order. -/
theorem perm_of_get?_eq (distinct : es.keys.Nodup) (distinct' : fs.keys.Nodup)
    (h : ∀ key, es.get? key = fs.get? key) : es.Perm fs := by
  refine (List.perm_ext_iff_of_nodup (nodup_of_nodup_keys distinct)
    (nodup_of_nodup_keys distinct')).2 fun e => ⟨fun he => ?_, fun he => ?_⟩
  · exact mem_of_get? (h e.1 ▸ get?_of_mem distinct he)
  · exact mem_of_get? ((h e.1).symm ▸ get?_of_mem distinct' he)

/-- Entries with distinct keys in the order of these are known from what is among them. -/
theorem eq_of_mem_iff (ordered : es.Pairwise fun a b => a.1 ≤ b.1)
    (ordered' : fs.Pairwise fun a b => a.1 ≤ b.1) (distinct : es.keys.Nodup)
    (distinct' : fs.keys.Nodup) (h : ∀ e, e ∈ es ↔ e ∈ fs) : es = fs := by
  have perm : es.Perm fs := (List.perm_ext_iff_of_nodup (nodup_of_nodup_keys distinct)
    (nodup_of_nodup_keys distinct')).2 h
  refine List.Perm.eq_of_pairwise ?_ ordered ordered' perm
  -- Two entries in the place of each other have one key, and a key has one entry.
  intro a b ha hb hab hba
  have hkey : a.1 = b.1 := String.le_antisymm hab hba
  have ha' : es.get? a.1 = some a.2 := get?_of_mem distinct ha
  have hb' : es.get? b.1 = some b.2 := get?_of_mem distinct ((h b).2 hb)
  rw [hkey, hb'] at ha'
  exact Prod.ext hkey (Option.some.inj ha').symm

/-- Entries with distinct keys are sorted alike exactly when each key holds the same. -/
theorem sorted_eq_iff (distinct : es.keys.Nodup) (distinct' : fs.keys.Nodup) :
    es.sorted = fs.sorted ↔ ∀ key, es.get? key = fs.get? key := by
  refine ⟨fun h key => ?_, fun h => ?_⟩
  · rw [← get?_sorted distinct, h, get?_sorted distinct']
  · refine eq_of_mem_iff (pairwise_sorted es) (pairwise_sorted fs)
      ((keys_sorted_perm es).nodup_iff.2 distinct) ((keys_sorted_perm fs).nodup_iff.2 distinct')
      fun e => ?_
    rw [(sorted_perm es).mem_iff, (sorted_perm fs).mem_iff]
    exact (perm_of_get?_eq distinct distinct' h).mem_iff

end Entries

namespace Value

theorem sortedItems_eq_map (items : List Value) : sortedItems items = items.map sorted := by
  induction items with
  | nil => rfl
  | cons v items ih => rw [sortedItems, ih, List.map_cons]

theorem sortedEntries_eq_map (entries : Entries Value) :
    sortedEntries entries = entries.map fun e => (e.1, e.2.sorted) := by
  induction entries with
  | nil => rfl
  | cons e entries ih => rw [sortedEntries, ih, List.map_cons]

theorem keys_sortedEntries (entries : Entries Value) :
    Entries.keys (sortedEntries entries) = entries.keys := by
  rw [sortedEntries_eq_map, Entries.keys, List.map_map]
  rfl

theorem get?_sortedEntries (key : String) (entries : Entries Value) :
    Entries.get? key (sortedEntries entries) = (entries.get? key).map sorted := by
  induction entries with
  | nil => rfl
  | cons e entries ih =>
    obtain ⟨k, v⟩ := e
    rw [sortedEntries, Entries.get?_cons, Entries.get?_cons, ih]
    split <;> rfl

theorem sorted_sequence (items : List Value) :
    (sequence items).sorted = .sequence (items.map sorted) := by
  rw [sorted, sortedItems_eq_map]

theorem sorted_mapping (entries : Entries Value) :
    (mapping entries).sorted = .mapping (Entries.sorted (sortedEntries entries)) := rfl

theorem sorted_of_isScalar {v : Value} (h : v.isScalar = true) : v.sorted = v := by
  cases v <;> first | rfl | cases h

/-- A mapping is sorted if its keys are in order and what they hold is sorted. -/
theorem sorted_mapping_of_ordered {entries : Entries Value}
    (ordered : entries.Pairwise fun a b => a.1 ≤ b.1) (each : ∀ e ∈ entries, e.2.sorted = e.2) :
    (mapping entries).sorted = .mapping entries := by
  have hentries : sortedEntries entries = entries := by
    rw [sortedEntries_eq_map]
    calc entries.map (fun e => (e.1, e.2.sorted)) = entries.map id :=
          List.map_congr_left fun e he => Prod.ext rfl (each e he)
      _ = entries := List.map_id entries
  rw [sorted_mapping, hentries]
  exact congrArg Value.mapping (List.mergeSort_of_pairwise (by simpa using ordered))

/-- Two mappings with distinct keys are sorted alike exactly when each key holds values that are
sorted alike. -/
theorem sorted_mapping_eq_iff {es fs : Entries Value} (distinct : es.keys.Nodup)
    (distinct' : fs.keys.Nodup) :
    (mapping es).sorted = (mapping fs).sorted ↔
      ∀ key, (es.get? key).map sorted = (fs.get? key).map sorted := by
  have hes : (Entries.keys (sortedEntries es)).Nodup := by rwa [keys_sortedEntries]
  have hfs : (Entries.keys (sortedEntries fs)).Nodup := by rwa [keys_sortedEntries]
  rw [sorted_mapping, sorted_mapping, mapping.injEq, Entries.sorted_eq_iff hes hfs]
  simp only [get?_sortedEntries]

/-- What is in a sorted mapping is what is in the mapping, sorted. -/
theorem mem_sorted_entries {entries : Entries Value} {e : String × Value} :
    e ∈ Entries.sorted (sortedEntries entries) ↔
      ∃ v, (e.1, v) ∈ entries ∧ v.sorted = e.2 := by
  rw [(Entries.sorted_perm _).mem_iff, sortedEntries_eq_map, List.mem_map]
  constructor
  · rintro ⟨f, hf, rfl⟩
    exact ⟨f.2, hf, rfl⟩
  · rintro ⟨v, hv, hsorted⟩
    exact ⟨_, hv, Prod.ext rfl hsorted⟩

/-- Sorting keeps the keys distinct. -/
theorem Distinct.sorted {v : Value} (distinct : v.Distinct) : v.sorted.Distinct := by
  induction v with
  | sequence items ih =>
    rw [distinct_sequence] at distinct
    rw [sorted_sequence, distinct_sequence]
    intro w hw
    obtain ⟨u, hu, rfl⟩ := List.mem_map.1 hw
    exact ih u hu (distinct u hu)
  | mapping entries ih =>
    rw [distinct_mapping] at distinct
    rw [sorted_mapping, distinct_mapping]
    refine ⟨(Entries.keys_sorted_perm _).nodup_iff.2 ?_, fun e he => ?_⟩
    · rw [keys_sortedEntries]
      exact distinct.1
    · obtain ⟨v, hv, hsorted⟩ := mem_sorted_entries.1 he
      rw [← hsorted]
      exact ih _ hv (distinct.2 _ hv)
  | null => exact distinct
  | bool b => exact distinct
  | number n => exact distinct
  | string s => exact distinct

/-- What is sorted stays as it is. -/
theorem sorted_sorted {v : Value} (distinct : v.Distinct) : v.sorted.sorted = v.sorted := by
  induction v with
  | sequence items ih =>
    rw [distinct_sequence] at distinct
    rw [sorted_sequence, sorted_sequence, List.map_map]
    exact congrArg sequence (List.map_congr_left fun w hw => ih w hw (distinct w hw))
  | mapping entries ih =>
    have hsorted := distinct.sorted
    rw [distinct_mapping] at distinct
    rw [sorted_mapping, distinct_mapping] at hsorted
    have hkeys : (Entries.keys (sortedEntries entries)).Nodup := by
      rw [keys_sortedEntries]
      exact distinct.1
    -- It is enough to look at one key, where the order of entries is no matter.
    refine (sorted_mapping_eq_iff hsorted.1 distinct.1).2 fun key => ?_
    rw [Entries.get?_sorted hkeys, get?_sortedEntries]
    cases hv : entries.get? key with
    | none => rfl
    | some v =>
      have hmem := Entries.mem_of_get? hv
      exact congrArg some (ih _ hmem (distinct.2 _ hmem))
  | null => rfl
  | bool b => rfl
  | number n => rfl
  | string s => rfl

/-- What holds everywhere in a value does so when it is sorted, unless it depends on the order. -/
theorem Everywhere.sorted {p : Value → Prop} (stable : ∀ v, p v → p v.sorted) {v : Value}
    (h : v.Everywhere p) : v.sorted.Everywhere p := by
  induction v with
  | sequence items ih =>
    rw [everywhere_sequence] at h
    have hself := stable _ h.1
    rw [sorted_sequence] at hself ⊢
    refine everywhere_sequence.2 ⟨hself, fun w hw => ?_⟩
    obtain ⟨u, hu, rfl⟩ := List.mem_map.1 hw
    exact ih u hu (h.2 u hu)
  | mapping entries ih =>
    rw [everywhere_mapping] at h
    have hself := stable _ h.1
    rw [sorted_mapping] at hself ⊢
    refine everywhere_mapping.2 ⟨hself, fun e he => ?_⟩
    obtain ⟨v, hv, hsorted⟩ := mem_sorted_entries.1 he
    rw [← hsorted]
    exact ih _ hv (h.2 _ hv)
  | null => exact h
  | bool b => exact h
  | number n => exact h
  | string s => exact h

theorem HasShortKeys.sorted {v : Value} (h : v.HasShortKeys) : v.sorted.HasShortKeys := by
  cases v with
  | mapping entries =>
    intro key hkey
    rw [(Entries.keys_sorted_perm _).mem_iff, keys_sortedEntries] at hkey
    exact h key hkey
  | sequence items => exact h
  | null => exact h
  | bool b => exact h
  | number n => exact h
  | string s => exact h

theorem everywhere_hasShortKeys_sorted {v : Value} (short : v.Everywhere HasShortKeys) :
    v.sorted.Everywhere HasShortKeys :=
  short.sorted (p := HasShortKeys) fun _ h => h.sorted

/-! ## Equality -/

theorem sameItems_map {f : Value → Value} {items : List Value}
    (h : ∀ v ∈ items, (f v).same v = true) : sameItems (items.map f) items = true := by
  induction items with
  | nil => rfl
  | cons v items ih =>
    simp only [List.map_cons, sameItems, h v List.mem_cons_self,
      ih fun w hw => h w (List.mem_cons_of_mem _ hw), Bool.and_self]

theorem sameEntries_iff {es fs : Entries Value} :
    sameEntries es fs = true ↔ ∀ e ∈ es, ∃ w, fs.get? e.1 = some w ∧ e.2.same w = true := by
  induction es with
  | nil => simp [sameEntries]
  | cons e es ih =>
    obtain ⟨k, v⟩ := e
    rw [sameEntries, Bool.and_eq_true, ih, List.forall_mem_cons]
    apply and_congr_left'
    cases fs.get? k <;> simp

theorem number_same_self {n : Number} (h : (number n).IsNumber) : n.same n = true := by
  cases n with
  | integer i => simp [Number.same]
  | float x =>
    cases x with
    | nan => exact absurd rfl h
    | infinite negative => simp [Number.same, Binary64.same]
    | finite negative rank => simp [Number.same, Binary64.same]

/-- A sorted value equals the value, if there is no NaN in it. -/
theorem same_sorted {v : Value} (distinct : v.Distinct) (numbers : v.Everywhere IsNumber) :
    v.sorted.same v = true := by
  induction v with
  | sequence items ih =>
    rw [sorted_sequence, same]
    exact sameItems_map fun w hw => ih w hw (distinct_sequence.1 distinct w hw)
      ((everywhere_sequence.1 numbers).2 w hw)
  | mapping entries ih =>
    rw [distinct_mapping] at distinct
    rw [everywhere_mapping] at numbers
    have hlength : (Entries.sorted (sortedEntries entries)).length = entries.length := by
      rw [(Entries.sorted_perm _).length_eq, sortedEntries_eq_map, List.length_map]
    rw [sorted_mapping, same, hlength, beq_self_eq_true, Bool.true_and, sameEntries_iff]
    intro e he
    obtain ⟨v, hv, hsorted⟩ := mem_sorted_entries.1 he
    refine ⟨v, Entries.get?_of_mem distinct.1 hv, ?_⟩
    rw [← hsorted]
    exact ih _ hv (distinct.2 _ hv) (numbers.2 _ hv)
  | null => rfl
  | bool b => simp [sorted, same]
  | number n => exact number_same_self numbers
  | string s => simp [sorted, same]

/-- Values that are sorted alike are written alike. -/
theorem toYaml_congr {v w : Value} (h : v.sorted = w.sorted) : v.toYaml = w.toYaml := by
  rw [toYaml, toYaml, h]

end Value

end Provision
