import Provision.Proofs.Values.Distinct
import Provision.Yaml.Writing

/-!
# Properties of a value at every depth

`Value.Everywhere p` says that `p` holds of a value and of everything in it. Two such properties are
what the written form of a value depends on: that no number in it is a NaN, and that every key is
short enough for readers to look for its colon.
-/

namespace Provision.Value

mutual

/-- A property of the value and of everything in it. -/
def Everywhere (p : Value → Prop) : Value → Prop
  | .sequence vs => p (.sequence vs) ∧ EverywhereItems p vs
  | .mapping es => p (.mapping es) ∧ EverywhereEntries p es
  | v => p v

/-- `Everywhere` of every item. -/
def EverywhereItems (p : Value → Prop) : List Value → Prop
  | [] => True
  | v :: vs => v.Everywhere p ∧ EverywhereItems p vs

/-- `Everywhere` of the value of every entry. -/
def EverywhereEntries (p : Value → Prop) : List (String × Value) → Prop
  | [] => True
  | (_, v) :: es => v.Everywhere p ∧ EverywhereEntries p es

end

variable {p : Value → Prop}

theorem everywhereItems_iff {items : List Value} :
    EverywhereItems p items ↔ ∀ v ∈ items, v.Everywhere p := by
  induction items with
  | nil => simp [EverywhereItems]
  | cons v items ih => simp [EverywhereItems, ih]

theorem everywhereEntries_iff {entries : Entries Value} :
    EverywhereEntries p entries ↔ ∀ e ∈ entries, e.2.Everywhere p := by
  induction entries with
  | nil => simp [EverywhereEntries]
  | cons e entries ih => simp [EverywhereEntries, ih]

theorem everywhere_sequence {items : List Value} :
    (sequence items).Everywhere p ↔ p (sequence items) ∧ ∀ v ∈ items, v.Everywhere p := by
  rw [Everywhere, everywhereItems_iff]

theorem everywhere_mapping {entries : Entries Value} :
    (mapping entries).Everywhere p ↔ p (mapping entries) ∧ ∀ e ∈ entries, e.2.Everywhere p := by
  rw [Everywhere, everywhereEntries_iff]

theorem everywhere_of_isScalar {v : Value} (scalar : v.isScalar = true) (h : p v) :
    v.Everywhere p := by
  cases v <;> first | exact h | cases scalar

/-- The value is no NaN. -/
def IsNumber (v : Value) : Prop := v ≠ .number (.float .nan)

/-- The most characters that the text of a key may have. -/
def keyLimit : Nat := 1024

/-- The keys of the value, if it is a mapping, are not too long in writing. -/
def HasShortKeys : Value → Prop
  | .mapping entries =>
    ∀ key ∈ Entries.keys entries, (Yaml.Writing.stringText key.toList).length ≤ keyLimit
  | _ => True

instance : DecidablePred HasShortKeys
  | .mapping entries => inferInstanceAs (Decidable (∀ key ∈ Entries.keys entries,
      (Yaml.Writing.stringText key.toList).length ≤ keyLimit))
  | .null | .bool _ | .number _ | .string _ | .sequence _ => .isTrue trivial

theorem hasShortKeys_of_isScalar {v : Value} (scalar : v.isScalar = true) : v.HasShortKeys := by
  cases v <;> trivial

/-- Restricting makes no key longer. -/
theorem everywhere_hasShortKeys_restrict {entries : Entries Value}
    (short : (mapping entries).Everywhere HasShortKeys) (keep : String → Bool) :
    (mapping (entries.restrict keep)).Everywhere HasShortKeys := by
  rw [everywhere_mapping] at short ⊢
  refine ⟨fun key hkey => ?_, fun e he => short.2 e (List.mem_filter.1 he).1⟩
  rw [Entries.keys_restrict] at hkey
  exact short.1 key (List.mem_filter.1 hkey).1

end Provision.Value
