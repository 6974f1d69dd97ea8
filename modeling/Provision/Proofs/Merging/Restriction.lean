import Provision.Document
import Provision.Proofs.Merging.Order

/-!
# Restricted documents

`Document.Restricts` relates a document to another one that holds what is left of it when only some
keys are kept. Merging respects it: restrictions of documents that can be merged can be merged, to a
restriction of the result (`Document.Restricts.merge`).
-/

namespace Provision.Document

/-- The document with those of its keys that satisfy a test. -/
def restrict (keep : String → Bool) (d : Document) : Document := ⟨d.entries.restrict keep⟩

/-- Whether a document is the restriction of another one, whatever the order of entries. -/
structure Restricts (keep : String → Bool) (d d' : Document) : Prop where
  distinct : d.toValue.Distinct
  distinct' : d'.toValue.Distinct
  sorted_eq : d'.toValue.sorted = (d.restrict keep).toValue.sorted

variable {keep : String → Bool} {d d' : Document}

/-- A restriction holds the same under the keys that are kept, and nothing under others. -/
theorem restricts_iff (distinct : d.toValue.Distinct) (distinct' : d'.toValue.Distinct) :
    Restricts keep d d' ↔
      ∀ key, (d'.entries.get? key).map Value.sorted =
        if keep key then (d.entries.get? key).map Value.sorted else none := by
  have hget (key : String) : ((d.restrict keep).entries.get? key).map Value.sorted =
      if keep key then (d.entries.get? key).map Value.sorted else none := by
    rw [restrict, Entries.get?_restrict]
    split <;> rfl
  have hsorted := Value.sorted_mapping_eq_iff (Value.distinct_mapping.1 distinct').1
    (Value.distinct_mapping.1 (distinct.restrict keep)).1
  constructor
  · intro h key
    exact (hsorted.1 h.sorted_eq key).trans (hget key)
  · intro h
    exact ⟨distinct, distinct', hsorted.2 fun key => (h key).trans (hget key).symm⟩

theorem restricts_empty (keep : String → Bool) : Restricts keep {} {} :=
  ⟨⟨List.nodup_nil, trivial⟩, ⟨List.nodup_nil, trivial⟩, rfl⟩

theorem merge_eq_ok {next merged : Document} :
    d.merge next = .ok merged ↔ Value.mergeEntries d.entries next.entries = .ok merged.entries := by
  unfold merge
  cases Value.mergeEntries d.entries next.entries with
  | error conflict => simp
  | ok entries =>
    obtain ⟨entries'⟩ := merged
    simp

/-- Merging two documents is merging them as values. -/
theorem merge_eq_ok_iff {next merged : Document} :
    d.merge next = .ok merged ↔ Value.merge d.toValue next.toValue = .ok merged.toValue := by
  rw [merge_eq_ok, toValue, toValue, toValue, Value.merge_mapping]
  cases Value.mergeEntries d.entries next.entries with
  | error conflict => simp [Except.map]
  | ok entries => simp [Except.map]

/-- Restrictions of documents that can be merged can be merged too, to a restriction of the
result. -/
theorem Restricts.merge {next next' merged : Document} (h : Restricts keep d d')
    (hnext : Restricts keep next next') (hmerged : d.merge next = .ok merged) :
    ∃ merged', d'.merge next' = .ok merged' ∧ Restricts keep merged merged' := by
  have hvalue := merge_eq_ok_iff.1 hmerged
  rw [merge_eq_ok] at hmerged
  have hbelow := (restricts_iff h.distinct h.distinct').1 h
  have habove := (restricts_iff hnext.distinct hnext.distinct').1 hnext
  obtain ⟨entries, hentries, hsame⟩ := Value.exists_mergeEntries d'.entries
    (Value.distinct_mapping.1 hnext.distinct').1
    (P := fun key place => place.map Value.sorted =
      if keep key then (merged.entries.get? key).map Value.sorted else none) fun key => by
    have hbelow := hbelow key
    have habove := habove key
    -- Under a key that is not kept there is nothing on either side. Under any other key the two
    -- merges are of values that are sorted alike.
    cases hkeep : keep key with
    | false =>
      simp only [hkeep, Bool.false_eq_true, if_false, Option.map_eq_none_iff] at hbelow habove ⊢
      rw [hbelow, habove]
      exact ⟨none, rfl, rfl⟩
    | true =>
      simp only [hkeep, if_true] at hbelow habove ⊢
      refine Value.overlaid_congr (fun u u' v v' w hu hu' hv hv' => ?_) hbelow.symm habove.symm
        (Value.get?_mergeEntries (Value.distinct_mapping.1 hnext.distinct).1 hmerged key)
      exact Value.merge_congr (h.distinct.get? hu) (h.distinct'.get? hu') (hnext.distinct.get? hv)
        (hnext.distinct'.get? hv')
  have hmerged' : d'.merge next' = .ok ⟨entries⟩ := merge_eq_ok.2 hentries
  have hdistinct := h.distinct.merge hnext.distinct hvalue
  have hdistinct' := h.distinct'.merge hnext.distinct' (merge_eq_ok_iff.1 hmerged')
  exact ⟨⟨entries⟩, hmerged', (restricts_iff hdistinct hdistinct').2 hsame⟩

/-- The link of a document is known from what it holds under the key of links. -/
theorem link?_eq (d : Document) :
    d.link? = (((d.entries.get? linkKey).map Value.sorted).bind Value.string?).bind fun url =>
      if url.isEmpty then none else some url := by
  unfold link?
  cases d.entries.get? linkKey with
  | none => rfl
  | some v => cases v <;> rfl

/-- A restriction has no link that the document has not. -/
theorem Restricts.link?_eq_none (h : Restricts keep d d') (unlinked : d.link? = none) :
    d'.link? = none := by
  rw [link?_eq] at unlinked ⊢
  rw [(restricts_iff h.distinct h.distinct').1 h]
  cases keep linkKey with
  | true => exact unlinked
  | false => rfl

/-- A restriction is written like the restricted document. -/
theorem Restricts.toText_eq (h : Restricts keep d d') : d'.toText = (d.restrict keep).toText := by
  rw [toText, toText, Value.toYaml_congr h.sorted_eq]

end Provision.Document
