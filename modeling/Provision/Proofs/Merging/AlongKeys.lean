import Provision.Proofs.Merging.Conflicts

/-!
# Properties along keys

`Value.AlongKeys p` says that `p` holds of a value and of everything that its keys lead to.
Sequences are not entered, so unlike `Value.Everywhere p` this says nothing of their items. It can
be decided by a walk through the value.
-/

namespace Provision.Value

variable {p : Value → Prop} {v w : Value}

/-- A property of everything that a path of keys leads to, the value itself included. -/
def AlongKeys (p : Value → Prop) (v : Value) : Prop := ∀ path w, v.at? path = some w → p w

theorem AlongKeys.self (h : v.AlongKeys p) : p v := h [] v rfl

theorem AlongKeys.get? {entries : Entries Value} {key : String}
    (h : (mapping entries).AlongKeys p) (hv : entries.get? key = some v) : v.AlongKeys p := by
  intro path w hw
  apply h (key :: path)
  rw [at?_mapping_some hv, hw]

/-- It is enough to look where a walk through the value comes to. -/
theorem alongKeys_iff : v.AlongKeys p ↔ ∀ path ∈ v.paths, ∀ w ∈ v.at? path, p w := by
  constructor
  · intro h path _ w hw
    exact h path w hw
  · intro h path w hw
    exact h path (mem_paths_of_at? hw) w hw

instance [DecidablePred p] : Decidable (v.AlongKeys p) := decidable_of_iff' _ alongKeys_iff

end Provision.Value
