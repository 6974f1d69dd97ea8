import Provision.Value

/-!
# Merging values

What a value becomes when another one is laid over it. Mappings are merged key by key and sequences
are appended; a scalar gives way to a scalar, and null to everything. A null laid over a value
resets it to the empty value of its kind: it takes nothing away. Any other two kinds are in
conflict, and then there is no result at all.
-/

namespace Provision

/-- Two kinds that cannot be merged, first that of the value below. -/
structure KindConflict where
  base : Kind
  overlay : Kind
deriving DecidableEq, Repr

namespace Value

mutual

/-- The value `base` with another one laid over it. -/
def merge (base : Value) : Value → Except KindConflict Value
  | .null => .ok base.zero
  | .sequence more =>
    match base with
    | .null => .ok (.sequence more)
    | .sequence items => .ok (.sequence (items ++ more))
    | _ => .error ⟨base.kind, .sequence⟩
  | .mapping overlay =>
    match base with
    | .null => .ok (.mapping overlay)
    | .mapping entries => (mergeEntries entries overlay).map .mapping
    | _ => .error ⟨base.kind, .mapping⟩
  | .bool b => if base.isScalar then .ok (.bool b) else .error ⟨base.kind, .bool⟩
  | .number n => if base.isScalar then .ok (.number n) else .error ⟨base.kind, .number⟩
  | .string s => if base.isScalar then .ok (.string s) else .error ⟨base.kind, .string⟩

/-- Entries with others laid over them, one after the other. A key that is there keeps its place; a
new one comes last. -/
def mergeEntries (entries : List (String × Value)) :
    List (String × Value) → Except KindConflict (List (String × Value))
  | [] => .ok entries
  | (key, v) :: overlay =>
    match Entries.get? key entries with
    | none => mergeEntries (Entries.put key v entries) overlay
    | some u =>
      match merge u v with
      | .error conflict => .error conflict
      | .ok w => mergeEntries (Entries.put key w entries) overlay

end

end Value

end Provision
