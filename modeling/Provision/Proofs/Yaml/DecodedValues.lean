import Provision.Proofs.Values.Distinct
import Provision.Yaml.Reading

/-!
# Values that are read

Whatever the events are, an assembly puts entries into its mappings one by one, so no value in it
ever has a key twice (`Assembly.IsDistinct`). Every value that is read from a text or from bytes has
distinct keys then.
-/

namespace Provision

namespace Yaml

/-- No value in the collection has a key twice, and neither has the collection so far. -/
def OpenCollection.IsDistinct : OpenCollection → Prop
  | .sequence _ items => ∀ v ∈ items, v.Distinct
  | .mapping _ entries _ => (Value.mapping entries).Distinct

namespace Assembly

/-- No value in the assembly has a key twice. -/
structure IsDistinct (a : Assembly) : Prop where
  opened : ∀ c ∈ a.opened, c.IsDistinct
  anchors : ∀ p ∈ a.anchors, p.2.Distinct
  root : ∀ v ∈ a.root, v.Distinct

variable {a a' : Assembly} {v : Value}

theorem IsDistinct.place (h : a.IsDistinct) (hv : v.Distinct) (placed : a.place v = .ok a') :
    a'.IsDistinct := by
  obtain ⟨hopened, hanchors, hroot⟩ := h
  unfold Assembly.place at placed
  split at placed
  · cases placed
    exact ⟨hopened, hanchors, by rintro w ⟨⟩; exact hv⟩
  · next anchor items outer heq =>
    cases placed
    rw [heq, List.forall_mem_cons] at hopened
    exact ⟨List.forall_mem_cons.2 ⟨List.forall_mem_cons.2 ⟨hv, hopened.1⟩, hopened.2⟩, hanchors,
      hroot⟩
  · next anchor entries outer heq =>
    rw [heq, List.forall_mem_cons] at hopened
    cases hkey : keyText v with
    | error e =>
      rw [hkey] at placed
      cases placed
    | ok key =>
      rw [hkey] at placed
      cases placed
      exact ⟨List.forall_mem_cons.2 ⟨hopened.1, hopened.2⟩, hanchors, hroot⟩
  · next anchor entries key outer heq =>
    cases placed
    rw [heq, List.forall_mem_cons] at hopened
    have hput : (Value.mapping (entries.put key v)).Distinct := Value.Distinct.put hopened.1 key hv
    exact ⟨List.forall_mem_cons.2 ⟨hput, hopened.2⟩, hanchors, hroot⟩

theorem IsDistinct.complete (h : a.IsDistinct) (hv : v.Distinct) {anchor : Option Nat}
    (completed : a.complete anchor v = .ok a') : a'.IsDistinct := by
  cases anchor with
  | none => exact h.place hv completed
  | some id =>
    have hrecorded : IsDistinct { a with anchors := (id, v) :: a.anchors } :=
      ⟨h.opened, List.forall_mem_cons.2 ⟨hv, h.anchors⟩, h.root⟩
    exact hrecorded.place hv completed

theorem IsDistinct.close (h : a.IsDistinct) (closed : a.close = .ok a') : a'.IsDistinct := by
  obtain ⟨hopened, hanchors, hroot⟩ := h
  unfold Assembly.close at closed
  split at closed
  · cases closed
  · next anchor items outer heq =>
    rw [heq, List.forall_mem_cons] at hopened
    have houter : IsDistinct { a with opened := outer } := ⟨hopened.2, hanchors, hroot⟩
    refine houter.complete (Value.distinct_sequence.2 fun w hw => ?_) closed
    exact hopened.1 w (List.mem_reverse.1 hw)
  · next anchor entries key outer heq =>
    rw [heq, List.forall_mem_cons] at hopened
    have houter : IsDistinct { a with opened := outer } := ⟨hopened.2, hanchors, hroot⟩
    exact houter.complete hopened.1 closed

theorem distinct_word? {text : String} (h : CoreSchema.word? text = some v) : v.Distinct := by
  unfold CoreSchema.word? at h
  repeat' split at h
  all_goals cases h
  all_goals trivial

theorem distinct_scalarValue (p : Properties) (plain : Bool) (text : List Char) :
    (scalarValue p plain text).Distinct := by
  unfold scalarValue
  split
  · unfold CoreSchema.resolve
    split
    · next hword => exact distinct_word? hword
    · split <;> trivial
  · trivial

/-- No event gives a value in the assembly a key twice. -/
theorem IsDistinct.step {e : Event} (h : a.IsDistinct) (stepped : a.step e = .ok a') :
    a'.IsDistinct := by
  cases e with
  | «alias» id =>
    refine h.place ?_ stepped
    -- An alias stands for a value that was recorded, or for null.
    cases hid : a.anchors.lookup id with
    | none => trivial
    | some w =>
      obtain ⟨before, after, hanchors, -⟩ := List.lookup_eq_some_iff.1 hid
      exact h.anchors (id, w) (hanchors ▸ List.mem_append_right _ List.mem_cons_self)
  | scalar p plain text => exact h.complete (distinct_scalarValue p plain text) stepped
  | sequenceStart p =>
    cases stepped
    exact ⟨List.forall_mem_cons.2 ⟨nofun, h.opened⟩, h.anchors, h.root⟩
  | mappingStart p =>
    cases stepped
    exact ⟨List.forall_mem_cons.2 ⟨⟨List.nodup_nil, trivial⟩, h.opened⟩, h.anchors, h.root⟩
  | sequenceEnd => exact h.close stepped
  | mappingEnd => exact h.close stepped

theorem IsDistinct.foldlM {events : List Event} (h : a.IsDistinct)
    (folded : events.foldlM Assembly.step a = .ok a') : a'.IsDistinct := by
  induction events generalizing a with
  | nil =>
    cases folded
    exact h
  | cons e events ih =>
    rw [List.foldlM_cons] at folded
    cases hstep : a.step e with
    | error e =>
      rw [hstep] at folded
      cases folded
    | ok next =>
      rw [hstep] at folded
      exact ih (h.step hstep) folded

end Assembly

/-- A value that is made of events has distinct keys. -/
theorem distinct_assemble {events : List Event} {v : Value} (h : assemble events = .ok v) :
    v.Distinct := by
  unfold assemble at h
  cases hfold : events.foldlM Assembly.step {} with
  | error e =>
    rw [hfold] at h
    cases h
  | ok a =>
    rw [hfold] at h
    cases h
    have start : Assembly.IsDistinct {} := ⟨nofun, nofun, nofun⟩
    have done := start.foldlM hfold
    show (a.root.getD .null).Distinct
    cases hroot : a.root with
    | none => trivial
    | some w => exact done.root w hroot

end Yaml

/-- A value that is read from a text has distinct keys. -/
theorem Value.distinct_ofYaml {text : String} {v : Value} (h : Value.ofYaml text = .ok v) :
    v.Distinct := by
  unfold Value.ofYaml at h
  split at h
  · cases h
  · next events _ =>
    cases hmade : Yaml.assemble events with
    | error e =>
      rw [hmade] at h
      cases h
    | ok w =>
      rw [hmade] at h
      cases h
      exact Yaml.distinct_assemble hmade

/-- A value that is read from bytes has distinct keys. -/
theorem Value.distinct_ofBytes {content : Bytes} {v : Value} (h : Value.ofBytes content = .ok v) :
    v.Distinct := by
  unfold Value.ofBytes at h
  split at h
  · cases h
  · exact Value.distinct_ofYaml h

end Provision
