import Provision.Proofs.Links.ChainFold
import Provision.Proofs.Merging.Restriction
import Provision.Proofs.Values.Alike

/-!
# Documents and the order of their entries

The order of entries is no part of what a document says, and no result shows it:

* **one document** — its text, its parts at dotted paths and its link are those of the sorted
  document (`SortedAlike.toText_eq`, `SortedAlike.query_eq`, `SortedAlike.link?_eq`);
* **two documents** — what can be merged in one order can be merged in any other, to the same
  (`SortedAlike.merge`);
* **many documents** — laid one over the other, documents that are alike fail at the same place or
  come to documents that are alike (`mergeAll_alike`). `FailsAt` says at which place.
-/

namespace Provision.Document

variable {d d' e e' start start' : Document} {ds es : List Document}

/-- Two documents that say the same, whatever the order of their entries. -/
structure SortedAlike (d d' : Document) : Prop where
  distinct : d.toValue.Distinct
  distinct' : d'.toValue.Distinct
  sorted_eq : d.toValue.sorted = d'.toValue.sorted

theorem SortedAlike.symm (h : SortedAlike d d') : SortedAlike d' d :=
  ⟨h.distinct', h.distinct, h.sorted_eq.symm⟩

theorem sortedAlike_iff (distinct : d.toValue.Distinct) (distinct' : d'.toValue.Distinct) :
    SortedAlike d d' ↔ d.toValue.Alike d'.toValue := by
  rw [← Value.sorted_eq_iff_alike distinct distinct']
  exact ⟨fun h => h.sorted_eq, fun h => ⟨distinct, distinct', h⟩⟩

theorem SortedAlike.empty : SortedAlike {} {} :=
  ⟨⟨List.nodup_nil, trivial⟩, ⟨List.nodup_nil, trivial⟩, rfl⟩

/-! ## One document -/

theorem SortedAlike.toText_eq (h : SortedAlike d d') : d.toText = d'.toText := by
  rw [toText, toText, Value.toYaml_congr h.sorted_eq]

theorem SortedAlike.link?_eq (h : SortedAlike d d') : d.link? = d'.link? := by
  have hget := (Value.sorted_mapping_eq_iff (Value.distinct_mapping.1 h.distinct).1
    (Value.distinct_mapping.1 h.distinct').1).1 h.sorted_eq linkKey
  rw [Document.link?_eq, Document.link?_eq, hget]

/-- What a segment leads to in a sorted value is what it leads to in the value, sorted. -/
theorem child?_sorted {v : Value} (distinct : v.Distinct) (segment : List Char) :
    child? segment v.sorted = (child? segment v).map Value.sorted := by
  cases v with
  | sequence items =>
    rw [Value.sorted_sequence]
    simp only [child?]
    cases position? segment with
    | none => rfl
    | some i => exact List.getElem?_map
  | mapping entries =>
    have hkeys : (Entries.keys (Value.sortedEntries entries)).Nodup := by
      rw [Value.keys_sortedEntries]
      exact (Value.distinct_mapping.1 distinct).1
    rw [Value.sorted_mapping, child?, child?, Entries.get?_sorted hkeys, Value.get?_sortedEntries]
  | _ => rfl

theorem distinct_child? {v w : Value} (distinct : v.Distinct) {segment : List Char}
    (h : child? segment v = some w) : w.Distinct := by
  cases v with
  | sequence items =>
    obtain ⟨i, -, hi⟩ := Option.bind_eq_some_iff.1 h
    exact Value.distinct_sequence.1 distinct w (List.mem_of_getElem? hi)
  | mapping entries => exact distinct.get? h
  | _ => cases h

theorem descend?_sorted {v : Value} (distinct : v.Distinct) (segments : List (List Char)) :
    descend? segments v.sorted = (descend? segments v).map Value.sorted := by
  induction segments generalizing v with
  | nil => rfl
  | cons segment segments ih =>
    rw [descend?, descend?, child?_sorted distinct]
    cases hchild : child? segment v with
    | none => rfl
    | some w => exact ih (distinct_child? distinct hchild)

/-- The parts of two such documents at one path are sorted alike. -/
theorem SortedAlike.lookup?_eq (h : SortedAlike d d') (path : String) :
    (d.lookup? path).map Value.sorted = (d'.lookup? path).map Value.sorted := by
  unfold lookup?
  cases segments path with
  | nil => rfl
  | cons s ss =>
    dsimp only
    rw [← descend?_sorted h.distinct, ← descend?_sorted h.distinct', h.sorted_eq]

theorem SortedAlike.query_eq (h : SortedAlike d d') (path : String) :
    d.query path = d'.query path := by
  have hparts := h.lookup?_eq path
  unfold query
  rw [Value.toYaml_congr h.sorted_eq]
  congr 1
  cases hv : d.lookup? path with
  | none =>
    rw [hv, Option.map_none, eq_comm, Option.map_eq_none_iff] at hparts
    rw [hparts]
  | some v =>
    rw [hv, Option.map_some, eq_comm, Option.map_eq_some_iff] at hparts
    obtain ⟨w, hw, hsorted⟩ := hparts
    rw [hw]
    exact congrArg Except.ok (Value.toYaml_congr hsorted.symm)

/-! ## Merging -/

theorem SortedAlike.merge {result : Document} (h : SortedAlike d d') (he : SortedAlike e e')
    (merged : d.merge e = .ok result) :
    ∃ result', d'.merge e' = .ok result' ∧ SortedAlike result result' := by
  rw [merge_eq_ok_iff] at merged
  obtain ⟨w, hw, hsorted⟩ := Value.merge_congr h.distinct h.distinct' he.distinct he.distinct'
    h.sorted_eq he.sorted_eq merged
  obtain ⟨entries, rfl⟩ := Value.exists_mapping_of_sorted_eq hsorted.symm
  exact ⟨⟨entries⟩, merge_eq_ok_iff.2 hw, h.distinct.merge he.distinct merged,
    h.distinct'.merge he.distinct' hw, hsorted.symm⟩

/-- Laying documents over one fails at the document with this index, counted from zero: those before
it can be merged, and it cannot. -/
inductive FailsAt : Document → List Document → Nat → DocumentError → Prop
  | first {start d : Document} {ds : List Document} {cause : DocumentError} :
      start.merge d = .error cause → FailsAt start (d :: ds) 0 cause
  | later {start d merged : Document} {ds : List Document} {i : Nat} {cause : DocumentError} :
      start.merge d = .ok merged → FailsAt merged ds i cause → FailsAt start (d :: ds) (i + 1) cause

theorem mergeAll_of_failsAt {i : Nat} {cause : DocumentError} (h : FailsAt start ds i cause) :
    start.mergeAll ds = .error cause := by
  induction h with
  | first failed =>
    rw [mergeAll, List.foldlM_cons, failed]
    rfl
  | later merged _ ih =>
    rw [mergeAll, List.foldlM_cons, merged]
    exact ih

/-- Documents that say the same, laid over two that do, fail at one place or come to such. -/
theorem SortedAlike.mergeAll (h : SortedAlike start start')
    (documents : List.Forall₂ SortedAlike ds es) :
    (∃ i cause cause', FailsAt start ds i cause ∧ FailsAt start' es i cause') ∨
      ∃ r r', start.mergeAll ds = .ok r ∧ start'.mergeAll es = .ok r' ∧ SortedAlike r r' := by
  induction documents generalizing start start' with
  | nil => exact .inr ⟨start, start', rfl, rfl, h⟩
  | @cons d e ds es hde _ ih =>
    cases hd : start.merge d with
    | error cause =>
      cases he : start'.merge e with
      | error cause' => exact .inl ⟨0, cause, cause', .first hd, .first he⟩
      | ok merged' =>
        -- What can be merged on one side can be on the other.
        obtain ⟨merged, hmerged, -⟩ := h.symm.merge hde.symm he
        rw [hd] at hmerged
        cases hmerged
    | ok merged =>
      obtain ⟨merged', he, hmerged⟩ := h.merge hde hd
      rcases ih hmerged with ⟨i, cause, cause', fails, fails'⟩ | ⟨r, r', hr, hr', alike⟩
      · exact .inl ⟨i + 1, cause, cause', .later hd fails, .later he fails'⟩
      · refine .inr ⟨r, r', ?_, ?_, alike⟩
        · rw [Document.mergeAll, List.foldlM_cons, hd]
          exact hr
        · rw [Document.mergeAll, List.foldlM_cons, he]
          exact hr'

/-- **The order of entries never shows.** Lists of documents that are alike, one by one, are laid
over the empty document with the same result: both fail at the same index, or both come to documents
that are alike, with the same text, the same answer to every query, and the same link. -/
theorem mergeAll_alike (distinct : ∀ d ∈ ds, d.toValue.Distinct)
    (distinct' : ∀ e ∈ es, e.toValue.Distinct)
    (alike : List.Forall₂ (fun d e => d.toValue.Alike e.toValue) ds es) :
    (∃ i cause cause', FailsAt {} ds i cause ∧ FailsAt {} es i cause' ∧
      mergeAll {} ds = .error cause ∧ mergeAll {} es = .error cause') ∨
    ∃ r r', mergeAll {} ds = .ok r ∧ mergeAll {} es = .ok r' ∧ r.toValue.Alike r'.toValue ∧
      r.toText = r'.toText ∧ (∀ path, r.query path = r'.query path) ∧ r.link? = r'.link? := by
  have documents : List.Forall₂ SortedAlike ds es := by
    induction alike with
    | nil => exact .nil
    | cons hde _ ih =>
      rw [List.forall_mem_cons] at distinct distinct'
      exact .cons ((sortedAlike_iff distinct.1 distinct'.1).2 hde) (ih distinct.2 distinct'.2)
  rcases SortedAlike.empty.mergeAll documents with
    ⟨i, cause, cause', fails, fails'⟩ | ⟨r, r', hr, hr', h⟩
  · exact .inl ⟨i, cause, cause', fails, fails', mergeAll_of_failsAt fails,
      mergeAll_of_failsAt fails'⟩
  · exact .inr ⟨r, r', hr, hr', (sortedAlike_iff h.distinct h.distinct').1 h, h.toText_eq,
      h.query_eq, h.link?_eq⟩

/-- Two documents and the same with their entries the other way round, at the top and below a
key. -/
theorem mergeAll_alike_nested_and_nan :
    let ds : List Document :=
      [⟨[("net", .mapping [("mtu", .number (.integer 9)), ("dns", .sequence [.string "a"])]),
          ("x", .number (.float .nan))]⟩,
        ⟨[("net", .mapping [("mtu", .null), ("dns", .sequence [.string "b"])])]⟩]
    let es : List Document :=
      [⟨[("x", .number (.float .nan)),
          ("net", .mapping [("dns", .sequence [.string "a"]), ("mtu", .number (.integer 9))])]⟩,
        ⟨[("net", .mapping [("dns", .sequence [.string "b"]), ("mtu", .null)])]⟩]
    (∀ d ∈ ds, d.toValue.Distinct) ∧ (∀ e ∈ es, e.toValue.Distinct) ∧
      List.Forall₂ (fun d e => d.toValue.Alike e.toValue) ds es ∧
      ∃ r r', mergeAll {} ds = .ok r ∧ mergeAll {} es = .ok r' ∧ r.toText = r'.toText ∧
        r.query "net.mtu" = r'.query "net.mtu" := by
  intro ds es
  have distinct : ∀ d ∈ ds, d.toValue.Distinct := by
    simp [ds, toValue, Value.Distinct, Value.DistinctItems, Value.DistinctEntries, Entries.keys]
  have distinct' : ∀ e ∈ es, e.toValue.Distinct := by
    simp [es, toValue, Value.Distinct, Value.DistinctItems, Value.DistinctEntries, Entries.keys]
  have below :
      (Value.mapping [("mtu", .number (.integer 9)), ("dns", .sequence [.string "a"])]).Alike
        (.mapping [("dns", .sequence [.string "a"]), ("mtu", .number (.integer 9))]) :=
    ⟨rfl, ⟨_, rfl, rfl⟩, ⟨_, rfl, rfl, trivial⟩, trivial⟩
  have reset : (Value.mapping [("mtu", .null), ("dns", .sequence [.string "b"])]).Alike
      (.mapping [("dns", .sequence [.string "b"]), ("mtu", .null)]) :=
    ⟨rfl, ⟨_, rfl, trivial⟩, ⟨_, rfl, rfl, trivial⟩, trivial⟩
  have alike : List.Forall₂ (fun d e => d.toValue.Alike e.toValue) ds es :=
    .cons ⟨rfl, ⟨_, rfl, below⟩, ⟨_, rfl, rfl⟩, trivial⟩
      (.cons ⟨rfl, ⟨_, rfl, reset⟩, trivial⟩ .nil)
  refine ⟨distinct, distinct', alike, ?_⟩
  rcases mergeAll_alike distinct distinct' alike with
    ⟨i, cause, cause', -, -, failed, -⟩ | ⟨r, r', hr, hr', -, htext, hquery, -⟩
  · cases failed
  · exact ⟨r, r', hr, hr', htext, hquery "net.mtu"⟩

end Provision.Document
