import Mathlib.Data.List.Perm.Subperm
import Provision.Proofs.Values.Sorted
import Provision.Proofs.Yaml.NumberTexts

/-!
# Values that say the same

Two values are alike if they differ in the order of entries only, at whatever depth. Unlike
`Value.same`, which compares floats as numbers, this compares floats by their text, so that a NaN is
like itself and the two zeros are not alike. Alike are just the values that are sorted alike
(`Value.sorted_eq_iff_alike`).
-/

namespace Provision

/-- Integers are alike if they are equal, floats if their text is. No integer is like a float. -/
def Number.Alike : Number → Number → Prop
  | .integer i, .integer j => i = j
  | .float x, .float y => floatText x = floatText y
  | _, _ => False

/-- No two numbers have one text. -/
theorem Number.text_injective : Function.Injective Number.text := by
  intro m n heq
  have hread := Yaml.resolve_text m
  rw [heq, Yaml.resolve_text n] at hread
  exact (Value.number.inj hread).symm

theorem Number.alike_iff {m n : Number} : m.Alike n ↔ m = n := by
  cases m with
  | integer i =>
    cases n with
    | integer j => simp [Alike]
    | float y => simp [Alike]
  | float x =>
    cases n with
    | integer j => simp [Alike]
    | float y => exact ⟨fun h => text_injective h, fun h => congrArg text h⟩

namespace Value

mutual

/-- Equality of values up to the order of entries, floats by their text. Two mappings are alike if
they have equally many entries and each key of the one holds something alike in the other. -/
def Alike : Value → Value → Prop
  | .null, .null => True
  | .bool a, .bool b => a = b
  | .number m, .number n => m.Alike n
  | .string s, .string t => s = t
  | .sequence vs, .sequence ws => AlikeItems vs ws
  | .mapping es, .mapping fs => es.length = fs.length ∧ AlikeEntries es fs
  | _, _ => False

/-- `Alike` of two sequences, item by item. -/
def AlikeItems : List Value → List Value → Prop
  | [], [] => True
  | v :: vs, w :: ws => v.Alike w ∧ AlikeItems vs ws
  | _, _ => False

/-- Whether each key holds something alike in the other entries. -/
def AlikeEntries : List (String × Value) → List (String × Value) → Prop
  | [], _ => True
  | (k, v) :: es, fs => (∃ w, Entries.get? k fs = some w ∧ v.Alike w) ∧ AlikeEntries es fs

end

theorem alikeEntries_iff {es fs : Entries Value} :
    AlikeEntries es fs ↔ ∀ e ∈ es, ∃ w, fs.get? e.1 = some w ∧ e.2.Alike w := by
  induction es with
  | nil => simp [AlikeEntries]
  | cons e es ih => rw [AlikeEntries, ih, List.forall_mem_cons]

theorem map_sorted_eq_iff {vs : List Value}
    (known : ∀ v ∈ vs, ∀ {w : Value}, w.Distinct → (v.sorted = w.sorted ↔ v.Alike w))
    {ws : List Value} (distinct : ∀ w ∈ ws, w.Distinct) :
    vs.map sorted = ws.map sorted ↔ AlikeItems vs ws := by
  induction vs generalizing ws with
  | nil => cases ws <;> simp [AlikeItems]
  | cons v vs ih =>
    cases ws with
    | nil => simp [AlikeItems]
    | cons w ws =>
      rw [List.forall_mem_cons] at known distinct
      rw [List.map_cons, List.map_cons, List.cons.injEq, AlikeItems, known.1 distinct.1,
        ih known.2 distinct.2]

/-- Equally many entries with distinct keys have the same keys if all keys of the ones are among
those of the others. -/
theorem keys_perm {es fs : Entries Value} (distinct : es.keys.Nodup)
    (length : es.length = fs.length) (subset : es.keys ⊆ fs.keys) : es.keys.Perm fs.keys :=
  (List.subperm_of_subset distinct subset).perm_of_length_le (by simp [Entries.keys, length])

/-- Mappings with distinct keys are alike exactly when each key holds something alike in both, or
nothing in both. -/
theorem alike_mapping_iff {es fs : Entries Value} (distinct : es.keys.Nodup)
    (distinct' : fs.keys.Nodup) :
    (mapping es).Alike (mapping fs) ↔ ∀ key, Option.Rel Alike (es.get? key) (fs.get? key) := by
  rw [Alike, alikeEntries_iff]
  constructor
  · rintro ⟨hlength, halike⟩ key
    have hsubset : es.keys ⊆ fs.keys := by
      intro k hk
      obtain ⟨e, he, rfl⟩ := List.mem_map.1 hk
      obtain ⟨w, hw, -⟩ := halike e he
      exact List.mem_map.2 ⟨_, Entries.mem_of_get? hw, rfl⟩
    cases hv : es.get? key with
    | none =>
      have hw : fs.get? key = none := by
        rw [Entries.get?_eq_none_iff] at hv ⊢
        exact fun h => hv ((keys_perm distinct hlength hsubset).mem_iff.2 h)
      rw [hw]
      exact .none
    | some v =>
      obtain ⟨w, hw, hvw⟩ := halike _ (Entries.mem_of_get? hv)
      rw [hw]
      exact .some hvw
  · intro hrel
    have hnone (key : String) : es.get? key = none ↔ fs.get? key = none := by
      have hkey := hrel key
      generalize Entries.get? key es = found at hkey
      generalize Entries.get? key fs = found' at hkey
      cases hkey <;> simp
    have hkeys : es.keys.Perm fs.keys := by
      refine (List.perm_ext_iff_of_nodup distinct distinct').2 fun key => not_iff_not.1 ?_
      rw [← Entries.get?_eq_none_iff, ← Entries.get?_eq_none_iff, hnone]
    refine ⟨by simpa [Entries.keys] using hkeys.length_eq, fun e he => ?_⟩
    have hkey := hrel e.1
    rw [Entries.get?_of_mem distinct he] at hkey
    generalize fs.get? e.1 = found at hkey
    cases hkey with
    | some halike => exact ⟨_, rfl, halike⟩

/-- Values with distinct keys are sorted alike exactly when they are alike. -/
theorem sorted_eq_iff_alike {v w : Value} (distinct : v.Distinct) (distinct' : w.Distinct) :
    v.sorted = w.sorted ↔ v.Alike w := by
  induction v generalizing w with
  | sequence vs ih =>
    rw [distinct_sequence] at distinct
    cases w with
    | sequence ws =>
      rw [distinct_sequence] at distinct'
      rw [sorted_sequence, sorted_sequence, sequence.injEq, Alike]
      exact map_sorted_eq_iff (fun v hv _ hw => ih v hv (distinct v hv) hw) distinct'
    | null => simp [sorted, Alike]
    | bool b => simp [sorted, Alike]
    | number n => simp [sorted, Alike]
    | string s => simp [sorted, Alike]
    | mapping fs => simp [sorted, Alike]
  | mapping es ih =>
    rw [distinct_mapping] at distinct
    cases w with
    | mapping fs =>
      rw [distinct_mapping] at distinct'
      rw [sorted_mapping_eq_iff distinct.1 distinct'.1, alike_mapping_iff distinct.1 distinct'.1]
      refine forall_congr' fun key => ?_
      cases hv : Entries.get? key es with
      | none => cases Entries.get? key fs <;> simp
      | some v =>
        cases hw : Entries.get? key fs with
        | none => simp
        | some w =>
          have hmem := Entries.mem_of_get? hv
          simpa using ih _ hmem (distinct.2 _ hmem) (distinct'.2 _ (Entries.mem_of_get? hw))
    | null => simp [sorted, Alike]
    | bool b => simp [sorted, Alike]
    | number n => simp [sorted, Alike]
    | string s => simp [sorted, Alike]
    | sequence ws => simp [sorted, Alike]
  | null => cases w <;> simp [sorted, Alike]
  | bool b => cases w <;> simp [sorted, Alike]
  | number n => cases w <;> simp [sorted, Alike, Number.alike_iff]
  | string s => cases w <;> simp [sorted, Alike]

end Value

end Provision
