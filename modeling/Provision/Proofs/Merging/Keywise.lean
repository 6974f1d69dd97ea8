import Provision.Value.Merge

/-!
# Merging key by key

Laying entries over others is a loop over the overlay, but what it does to one key does not depend
on the other keys:

* **one place** — `overlaid` is the merge of what may or may not stand at a place;
* **one turn** — a turn of the loop that goes through puts one value under its key
  (`mergeEntries_cons_eq_ok`);
* **success** — the loop succeeds exactly where every key's place does (`mergeEntries_isOk_iff`);
* **result** — each key of the result holds what its place says (`get?_mergeEntries`).

The overlay's keys are distinct, as they are in every mapping.
-/

namespace Provision.Value

/-- What becomes of a place, where a value may stand below and another above. -/
def overlaid : Option Value → Option Value → Except KindConflict (Option Value)
  | below, none => .ok below
  | none, some v => .ok (some v)
  | some u, some v => (merge u v).map some

@[simp] theorem overlaid_none_right (below : Option Value) : overlaid below none = .ok below := by
  cases below <;> rfl

@[simp] theorem overlaid_none_left (above : Option Value) : overlaid none above = .ok above := by
  cases above <;> rfl

@[simp] theorem overlaid_some (u v : Value) :
    overlaid (some u) (some v) = (merge u v).map some := rfl

/-- What goes through in two steps goes through in each. -/
theorem bind_eq_ok_iff {α β : Type} {first : Except KindConflict α}
    {next : α → Except KindConflict β} {b : β} :
    (first >>= next) = .ok b ↔ ∃ a, first = .ok a ∧ next a = .ok b := by
  cases first with
  | error conflict => simp [bind, Except.bind]
  | ok a => simp [bind, Except.bind]

theorem map_eq_ok_iff {α β : Type} {outcome : Except KindConflict α} {f : α → β} {b : β} :
    outcome.map f = .ok b ↔ ∃ a, outcome = .ok a ∧ f a = b := by
  cases outcome <;> simp [Except.map]

theorem merge_null_left (v : Value) : merge .null v = .ok v := by
  cases v <;> simp [merge, zero, isScalar]

/-- Over nothing a value is merged as over a null. -/
theorem overlaid_some_right (below : Option Value) (v : Value) :
    overlaid below (some v) = (merge (below.getD .null) v).map some := by
  cases below with
  | none =>
    rw [Option.getD_none, merge_null_left, overlaid_none_left]
    rfl
  | some u => rfl

theorem overlaid_eq_ok_iff {below place : Option Value} {v : Value} :
    overlaid below (some v) = .ok place ↔
      ∃ w, merge (below.getD .null) v = .ok w ∧ some w = place := by
  rw [overlaid_some_right, map_eq_ok_iff]

/-- Merging two mappings is merging their entries. -/
theorem merge_mapping (entries overlay : Entries Value) :
    merge (.mapping entries) (.mapping overlay) =
      (mergeEntries entries overlay).map .mapping := by
  rw [merge]

/-- One turn of the loop: the place of the first key, then the rest of the overlay. -/
theorem mergeEntries_cons (entries : Entries Value) (key : String) (v : Value)
    (overlay : Entries Value) :
    mergeEntries entries ((key, v) :: overlay) =
      match overlaid (entries.get? key) (some v) with
      | .error conflict => .error conflict
      | .ok none => mergeEntries entries overlay
      | .ok (some w) => mergeEntries (entries.put key w) overlay := by
  rw [mergeEntries]
  cases hu : entries.get? key with
  | none => simp
  | some u =>
    cases hm : merge u v with
    | error conflict => simp [hm, Except.map]
    | ok w => simp [hm, Except.map]

/-- A turn of the loop that succeeds puts one value under its key. -/
theorem mergeEntries_cons_eq_ok {entries overlay result : Entries Value} {key : String} {v : Value}
    (merged : mergeEntries entries ((key, v) :: overlay) = .ok result) :
    ∃ w, overlaid (entries.get? key) (some v) = .ok (some w) ∧
      mergeEntries (entries.put key w) overlay = .ok result := by
  rw [mergeEntries_cons] at merged
  cases place : overlaid (entries.get? key) (some v) with
  | error conflict => simp [place] at merged
  | ok placed =>
    obtain ⟨w, -, rfl⟩ := overlaid_eq_ok_iff.1 place
    simp only [place] at merged
    exact ⟨w, rfl, merged⟩

/-- **Keywise result.** Each key of the merged entries holds what its place says. -/
theorem get?_mergeEntries {base overlay result : Entries Value} (distinct : overlay.keys.Nodup)
    (merged : mergeEntries base overlay = .ok result) (key : String) :
    overlaid (base.get? key) (overlay.get? key) = .ok (result.get? key) := by
  induction overlay generalizing base with
  | nil =>
    rw [mergeEntries] at merged
    cases merged
    simp
  | cons e overlay ih =>
    obtain ⟨k, v⟩ := e
    obtain ⟨fresh, distinct⟩ := List.nodup_cons.1 distinct
    obtain ⟨w, hplace, merged⟩ := mergeEntries_cons_eq_ok merged
    have rest := ih distinct merged
    by_cases hk : k = key
    · subst hk
      have absent : Entries.get? k overlay = none :=
        (Entries.get?_eq_none_iff k overlay).2 fresh
      rw [absent, Entries.get?_put, if_pos rfl, overlaid_none_right] at rest
      rw [Entries.get?_cons, if_pos rfl, hplace]
      exact rest
    · rw [Entries.get?_put, if_neg hk] at rest
      rw [Entries.get?_cons, if_neg hk]
      exact rest

/-- **Keywise success.** Entries can be merged exactly where every key's place can. -/
theorem mergeEntries_isOk_iff {base overlay : Entries Value} (distinct : overlay.keys.Nodup) :
    (∃ result, mergeEntries base overlay = .ok result) ↔
      ∀ key, ∃ place, overlaid (base.get? key) (overlay.get? key) = .ok place := by
  refine ⟨fun ⟨result, merged⟩ key => ⟨_, get?_mergeEntries distinct merged key⟩, ?_⟩
  induction overlay generalizing base with
  | nil => exact fun _ => ⟨base, by rw [mergeEntries]⟩
  | cons e overlay ih =>
    intro places
    obtain ⟨k, v⟩ := e
    obtain ⟨fresh, distinct⟩ := List.nodup_cons.1 distinct
    obtain ⟨place, hplace⟩ := places k
    rw [Entries.get?_cons, if_pos rfl] at hplace
    rw [mergeEntries_cons, hplace]
    -- The first turn changes the place of its own key, which the rest of the overlay leaves alone.
    have others : ∀ key, k ≠ key →
        ∃ place, overlaid (base.get? key) (Entries.get? key overlay) = .ok place := by
      intro key hk
      have := places key
      rwa [Entries.get?_cons, if_neg hk] at this
    have absent : Entries.get? k overlay = none := (Entries.get?_eq_none_iff k overlay).2 fresh
    cases place with
    | none =>
      refine ih distinct fun key => ?_
      by_cases hk : k = key
      · exact ⟨base.get? key, by rw [← hk, absent, overlaid_none_right]⟩
      · exact others key hk
    | some w =>
      refine ih distinct fun key => ?_
      rw [Entries.get?_put]
      by_cases hk : k = key
      · exact ⟨some w, by rw [if_pos hk, ← hk, absent, overlaid_none_right]⟩
      · rw [if_neg hk]
        exact others key hk

end Provision.Value
