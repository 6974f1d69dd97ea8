import Mathlib.Data.List.DropRight
import Mathlib.Data.List.ReduceOption
import Provision.Proofs.Merging.Paths

/-!
# Documents in layers

Laying any number of documents one over the other is doing the same with the values of each key:

* **one key** — `layered` lays values one over the other, the first one as it is;
* **all keys** — the documents can be laid over each other exactly where the values of every key
  can (`layers_isOk_iff`), and each key then holds what became of its values (`get?_layers`).

What becomes of a key is then a matter of lists of values: a value that is there stays, and stays a
scalar, a sequence or a mapping (`foldlM_merge_shape`), sequences are collected from the last null
on (`layered_sequences`), and of scalars the last one counts (`layered_scalars`).
-/

namespace Provision

/-- The values that a key has in mappings, in the order of the mappings. -/
def Entries.assigned {α : Type} (key : String) (documents : List (Entries α)) : List α :=
  documents.filterMap (Entries.get? key)

namespace Value

open Entries (assigned)

/-- Values laid one over the other, the first one as it is. Without values there is no result. -/
def layered : List Value → Except KindConflict (Option Value)
  | [] => .ok none
  | v :: vs => (vs.foldlM merge v).map some

/-- Entries of documents laid one over the other. -/
def layers (documents : List (Entries Value)) : Except KindConflict (Entries Value) :=
  documents.foldlM mergeEntries []

/-- What a null does not take from a value: that it is a scalar, a sequence or a mapping. -/
inductive Shape where
  | scalar
  | sequence
  | mapping
deriving DecidableEq, Repr

/-- The shape of a value. -/
def shape : Value → Shape
  | .sequence _ => .sequence
  | .mapping _ => .mapping
  | _ => .scalar

/-- The items of the sequences that follow the last null. -/
def itemsAfterNull (values : List Value) : List Value :=
  (values.rtakeWhile fun v => !v.isNull).flatMap fun v => v.items?.getD []

/-- The last value that is no null. -/
def lastNonNull? (values : List Value) : Option Value := (values.filter fun v => !v.isNull).getLast?

variable {documents : List (Entries Value)} {result : Entries Value} {values : List Value}

/-! ## One key -/

theorem foldlM_overlaid_some (above : List (Option Value)) (v : Value) :
    above.foldlM overlaid (some v) = (above.reduceOption.foldlM merge v).map some := by
  induction above generalizing v with
  | nil => rfl
  | cons place above ih =>
    rw [List.foldlM_cons]
    cases place with
    | none =>
      rw [overlaid_none_right, List.reduceOption_cons_of_none]
      exact ih v
    | some w =>
      rw [overlaid_some, List.reduceOption_cons_of_some, List.foldlM_cons]
      cases hm : merge v w with
      | error conflict => rfl
      | ok u => exact ih u

/-- Places laid over nothing are their values laid one over the other. -/
theorem foldlM_overlaid_none (above : List (Option Value)) :
    above.foldlM overlaid none = layered above.reduceOption := by
  induction above with
  | nil => rfl
  | cons place above ih =>
    rw [List.foldlM_cons, overlaid_none_left]
    cases place with
    | none =>
      rw [List.reduceOption_cons_of_none]
      exact ih
    | some v =>
      rw [List.reduceOption_cons_of_some]
      exact foldlM_overlaid_some above v

/-- One value more. -/
theorem layered_concat (values : List Value) (v : Value) :
    layered (values ++ [v]) = (layered values).bind fun place => overlaid place (some v) := by
  cases values with
  | nil => rfl
  | cons u values =>
    rw [List.cons_append, layered, layered, List.foldlM_append]
    cases hfold : values.foldlM merge u with
    | error conflict => rfl
    | ok w => cases hm : merge w v <;> simp [hm, Except.map, Except.bind, bind, pure, Except.pure]

/-! ## All keys -/

/-- **Keywise result of a fold.** Each key goes through the fold on its own. -/
theorem foldlM_overlaid_get? {base : Entries Value}
    (distinct : ∀ d ∈ documents, (Entries.keys d).Nodup)
    (merged : documents.foldlM mergeEntries base = .ok result) (key : String) :
    (documents.map (Entries.get? key)).foldlM overlaid (base.get? key) =
      .ok (result.get? key) := by
  induction documents generalizing base with
  | nil =>
    cases merged
    rfl
  | cons d documents ih =>
    rw [List.forall_mem_cons] at distinct
    rw [List.foldlM_cons] at merged
    rw [List.map_cons, List.foldlM_cons]
    cases hm : mergeEntries base d with
    | error conflict =>
      rw [hm] at merged
      cases merged
    | ok next =>
      rw [hm] at merged
      rw [get?_mergeEntries distinct.1 hm key]
      exact ih distinct.2 merged

/-- **Keywise success of a fold.** The fold goes through exactly where it does for every key. -/
theorem foldlM_mergeEntries_isOk_iff {base : Entries Value}
    (distinct : ∀ d ∈ documents, (Entries.keys d).Nodup) :
    (∃ result, documents.foldlM mergeEntries base = .ok result) ↔
      ∀ key, ∃ place,
        (documents.map (Entries.get? key)).foldlM overlaid (base.get? key) = .ok place := by
  refine ⟨fun ⟨result, merged⟩ key => ⟨_, foldlM_overlaid_get? distinct merged key⟩, ?_⟩
  induction documents generalizing base with
  | nil => exact fun _ => ⟨base, rfl⟩
  | cons d documents ih =>
    intro places
    rw [List.forall_mem_cons] at distinct
    -- The first document can be merged, because no key stops at it.
    have first : ∀ key, ∃ place, overlaid (base.get? key) (Entries.get? key d) = .ok place := by
      intro key
      obtain ⟨place, hplace⟩ := places key
      rw [List.map_cons, List.foldlM_cons] at hplace
      cases ho : overlaid (base.get? key) (Entries.get? key d) with
      | error conflict =>
        rw [ho] at hplace
        cases hplace
      | ok next => exact ⟨next, rfl⟩
    obtain ⟨next, hm⟩ := (mergeEntries_isOk_iff distinct.1).2 first
    have later : ∀ key, ∃ place,
        (documents.map (Entries.get? key)).foldlM overlaid (Entries.get? key next) = .ok place := by
      intro key
      obtain ⟨place, hplace⟩ := places key
      rw [List.map_cons, List.foldlM_cons, get?_mergeEntries distinct.1 hm key] at hplace
      exact ⟨place, hplace⟩
    obtain ⟨result, hresult⟩ := ih distinct.2 later
    exact ⟨result, by rw [List.foldlM_cons, hm]; exact hresult⟩

theorem reduceOption_get? (key : String) (documents : List (Entries Value)) :
    (documents.map (Entries.get? key)).reduceOption = assigned key documents := by
  rw [List.reduceOption, List.filterMap_map]
  rfl

theorem layers_isOk_iff (distinct : ∀ d ∈ documents, (Entries.keys d).Nodup) :
    (∃ result, layers documents = .ok result) ↔
      ∀ key, ∃ place, layered (assigned key documents) = .ok place := by
  rw [layers, foldlM_mergeEntries_isOk_iff distinct]
  simp only [Entries.get?_nil, foldlM_overlaid_none, reduceOption_get?]

theorem get?_layers (distinct : ∀ d ∈ documents, (Entries.keys d).Nodup)
    (merged : layers documents = .ok result) (key : String) :
    layered (assigned key documents) = .ok (result.get? key) := by
  rw [← foldlM_overlaid_get? distinct merged key, Entries.get?_nil, foldlM_overlaid_none,
    reduceOption_get?]

/-- Only where there is no value is there no result. -/
theorem eq_nil_of_layered (h : layered values = .ok none) : values = [] := by
  cases values with
  | nil => rfl
  | cons v values =>
    rw [layered] at h
    cases hfold : values.foldlM merge v <;> rw [hfold] at h <;> cases h

/-- The keys of documents laid over each other are the keys of the documents. -/
theorem mem_keys_layers (distinct : ∀ d ∈ documents, (Entries.keys d).Nodup)
    (merged : layers documents = .ok result) (key : String) :
    key ∈ result.keys ↔ ∃ d ∈ documents, key ∈ Entries.keys d := by
  have law := get?_layers distinct merged key
  have absent : key ∉ result.keys ↔ assigned key documents = [] := by
    rw [← Entries.get?_eq_none_iff]
    constructor
    · intro hnone
      rw [hnone] at law
      exact eq_nil_of_layered law
    · intro hnil
      rw [hnil, layered, Except.ok.injEq] at law
      exact law.symm
  rw [← not_iff_not, absent, assigned, List.filterMap_eq_nil_iff]
  simp [Entries.get?_eq_none_iff]

/-! ## What becomes of a value -/

theorem shape_of_isScalar {v : Value} (scalar : v.isScalar = true) : v.shape = .scalar := by
  cases v <;> first | rfl | cases scalar

/-- A value that is no null stays one, of the same shape. -/
theorem merge_shape {u v w : Value} (merged : merge u v = .ok w) (nonnull : u ≠ .null) :
    w ≠ .null ∧ w.shape = u.shape := by
  cases merged_of_merge merged with
  | reset => cases u <;> simp [zero, shape] at nonnull ⊢
  | fill => exact absurd rfl nonnull
  | append => exact ⟨by simp, rfl⟩
  | scalar _ hv hu hscalar =>
    exact ⟨hv, by rw [shape_of_isScalar hscalar, shape_of_isScalar hu]⟩
  | entries => exact ⟨by simp, rfl⟩

theorem foldlM_merge_shape {u w : Value} (merged : values.foldlM merge u = .ok w)
    (nonnull : u ≠ .null) : w ≠ .null ∧ w.shape = u.shape := by
  induction values generalizing u with
  | nil =>
    cases merged
    exact ⟨nonnull, rfl⟩
  | cons v values ih =>
    rw [List.foldlM_cons] at merged
    cases hm : merge u v with
    | error conflict =>
      rw [hm] at merged
      cases merged
    | ok next =>
      rw [hm] at merged
      obtain ⟨hnext, hshape⟩ := merge_shape hm nonnull
      obtain ⟨hw, hlast⟩ := ih merged hnext
      exact ⟨hw, hlast.trans hshape⟩

/-- More values over some. -/
theorem layered_append {first more : List Value} {u : Value}
    (h : layered first = .ok (some u)) :
    layered (first ++ more) = (more.foldlM merge u).map some := by
  cases first with
  | nil => cases h
  | cons v first =>
    rw [layered] at h
    rw [List.cons_append, layered, List.foldlM_append]
    cases hfold : first.foldlM merge v with
    | error conflict =>
      rw [hfold] at h
      cases h
    | ok w =>
      rw [hfold] at h
      cases h
      rfl

/-- What is there and no null is there for good, of the same shape. -/
theorem layered_shape {first more : List Value} {u : Value} {place : Option Value}
    (before : layered first = .ok (some u)) (nonnull : u ≠ .null)
    (after : layered (first ++ more) = .ok place) :
    ∃ w, place = some w ∧ w ≠ .null ∧ w.shape = u.shape := by
  rw [layered_append before] at after
  cases hfold : more.foldlM merge u with
  | error conflict =>
    rw [hfold] at after
    cases after
  | ok w =>
    rw [hfold] at after
    cases after
    exact ⟨w, rfl, foldlM_merge_shape hfold nonnull⟩

theorem itemsAfterNull_null (values : List Value) : itemsAfterNull (values ++ [.null]) = [] := by
  rw [itemsAfterNull, List.rtakeWhile_concat_neg _ _ _ (by simp [isNull])]
  rfl

theorem itemsAfterNull_sequence (values items : List Value) :
    itemsAfterNull (values ++ [.sequence items]) = itemsAfterNull values ++ items := by
  rw [itemsAfterNull, List.rtakeWhile_concat_pos _ _ _ (by simp [isNull]), List.flatMap_append]
  simp [itemsAfterNull, items?]

/-- Nulls and sequences: without a sequence they are null, and with one they are the items since the
last null. -/
theorem layered_sequences (fed : ∀ v ∈ values, v = .null ∨ v.shape = .sequence) :
    (layered values = .ok none ∧ values = []) ∨
      (layered values = .ok (some .null) ∧ itemsAfterNull values = [] ∧
        ∀ v ∈ values, v.shape ≠ .sequence) ∨
      layered values = .ok (some (.sequence (itemsAfterNull values))) := by
  -- The induction is on the last value, for the nulls before it no longer count.
  induction values using List.reverseRecOn with
  | nil => exact .inl ⟨rfl, rfl⟩
  | append_singleton values v ih =>
    have hv := fed v (by simp)
    have ih := ih fun u hu => fed u (List.mem_append_left _ hu)
    rw [layered_concat]
    rcases hv with rfl | hv
    · rw [itemsAfterNull_null]
      rcases ih with ⟨hlayered, rfl⟩ | ⟨hlayered, -, hnone⟩ | hlayered <;> rw [hlayered]
      · exact .inr (.inl ⟨rfl, rfl, by simp [shape]⟩)
      · refine .inr (.inl ⟨rfl, rfl, fun u hu => ?_⟩)
        rcases List.mem_append.1 hu with hu | hu
        · exact hnone u hu
        · rw [List.mem_singleton.1 hu]
          decide
      · exact .inr (.inr rfl)
    · obtain ⟨items, rfl⟩ : ∃ items, v = .sequence items := by
        cases v <;> first | exact ⟨_, rfl⟩ | cases hv
      rw [itemsAfterNull_sequence]
      refine .inr (.inr ?_)
      rcases ih with ⟨hlayered, rfl⟩ | ⟨hlayered, hitems, -⟩ | hlayered <;> rw [hlayered]
      · rfl
      · rw [hitems]
        rfl
      · rfl

/-- What becomes of nulls and sequences with a sequence among them. -/
theorem layered_of_sequence_mem (fed : ∀ v ∈ values, v = .null ∨ v.shape = .sequence)
    {items : List Value} (mem : .sequence items ∈ values) :
    layered values = .ok (some (.sequence (itemsAfterNull values))) := by
  rcases layered_sequences fed with ⟨-, rfl⟩ | ⟨-, -, hnone⟩ | hlayered
  · cases mem
  · exact absurd rfl (hnone _ mem)
  · exact hlayered

theorem zero_zero (v : Value) : v.zero.zero = v.zero := by
  cases v <;> rfl

theorem isScalar_zero {v : Value} (scalar : v.isScalar = true) : v.zero.isScalar = true := by
  cases v <;> first | rfl | cases scalar

/-- A scalar over a scalar, or over nothing. -/
theorem overlaid_scalar {place : Option Value} (below : ∀ u ∈ place, u.isScalar = true) {v : Value}
    (above : v.isScalar = true) :
    overlaid place (some v) =
      .ok (some (if v.isNull then (place.getD .null).zero else v)) := by
  cases place with
  | none => cases v <;> rfl
  | some u =>
    have hu := below u rfl
    cases v with
    | null => rfl
    | bool b => simp [merge, hu, isNull, Except.map]
    | number n => simp [merge, hu, isNull, Except.map]
    | string s => simp [merge, hu, isNull, Except.map]
    | sequence items => cases above
    | mapping entries => cases above

/-- Scalars leave a scalar, whose kind is that of the last one that is no null. -/
theorem layered_scalars (fed : ∀ v ∈ values, v.isScalar = true) :
    ∃ place, layered values = .ok place ∧ (∀ u ∈ place, u.isScalar = true) ∧
      (place.getD .null).zero = ((lastNonNull? values).getD .null).zero := by
  induction values using List.reverseRecOn with
  | nil => exact ⟨none, rfl, nofun, rfl⟩
  | append_singleton values v ih =>
    have hv := fed v (by simp)
    obtain ⟨place, hlayered, hplace, hzero⟩ :=
      ih fun u hu => fed u (List.mem_append_left _ hu)
    refine ⟨_, by rw [layered_concat, hlayered]; exact overlaid_scalar hplace hv, ?_⟩
    cases hnull : v.isNull with
    | true =>
      have hbelow : (place.getD .null).isScalar = true := by
        cases place with
        | none => rfl
        | some u => exact hplace u rfl
      refine ⟨fun u hu => ?_, ?_⟩
      · cases hu
        exact isScalar_zero hbelow
      · have hlast : lastNonNull? (values ++ [v]) = lastNonNull? values := by
          simp [lastNonNull?, hnull]
        rw [hlast, ← hzero]
        exact zero_zero _
    | false =>
      have hlast : lastNonNull? (values ++ [v]) = some v := by
        simp [lastNonNull?, hnull]
      refine ⟨fun u hu => ?_, by rw [hlast]; rfl⟩
      cases hu
      exact hv

/-- Of scalars the last one counts; where it is null, the empty value of the kind of the last one
that is none. -/
theorem layered_of_scalars (fed : ∀ v ∈ values, v.isScalar = true) {last : Value}
    (ends : values.getLast? = some last) :
    layered values = .ok (some
      (if last.isNull then ((lastNonNull? values).getD .null).zero else last)) := by
  obtain ⟨before, rfl⟩ := List.getLast?_eq_some_iff.1 ends
  obtain ⟨place, hlayered, hplace, hzero⟩ :=
    layered_scalars fun u hu => fed u (List.mem_append_left [last] hu)
  rw [layered_concat, hlayered]
  refine (overlaid_scalar hplace (fed last (by simp))).trans ?_
  cases hnull : last.isNull with
  | true =>
    have hlast : lastNonNull? (before ++ [last]) = lastNonNull? before := by
      simp [lastNonNull?, hnull]
    rw [hlast, ← hzero]
  | false => rfl

/-! ## Documents -/

/-- Documents that can be laid over each other can be up to each of them, and no key is lost on the
way, nor what is no null, nor its shape. -/
theorem layers_prefix {first rest : List (Entries Value)}
    (distinct : ∀ d ∈ first ++ rest, (Entries.keys d).Nodup)
    (merged : layers (first ++ rest) = .ok result) :
    ∃ before, layers first = .ok before ∧ (∀ key ∈ before.keys, key ∈ result.keys) ∧
      ∀ key u, before.get? key = some u → u ≠ .null →
        ∃ w, result.get? key = some w ∧ w ≠ .null ∧ w.shape = u.shape := by
  have hfirst : ∀ d ∈ first, (Entries.keys d).Nodup :=
    fun d hd => distinct d (List.mem_append_left _ hd)
  obtain ⟨before, hbefore⟩ : ∃ before, layers first = .ok before := by
    rw [layers, List.foldlM_append] at merged
    cases hfold : layers first with
    | error conflict =>
      rw [layers] at hfold
      rw [hfold] at merged
      cases merged
    | ok before => exact ⟨before, rfl⟩
  refine ⟨before, hbefore, fun key hkey => ?_, fun key u hu nonnull => ?_⟩
  · rw [mem_keys_layers hfirst hbefore] at hkey
    obtain ⟨d, hd, hkey⟩ := hkey
    exact (mem_keys_layers distinct merged key).2 ⟨d, List.mem_append_left _ hd, hkey⟩
  · have hplace := get?_layers hfirst hbefore key
    have hresult := get?_layers distinct merged key
    rw [hu] at hplace
    rw [assigned, List.filterMap_append] at hresult
    exact layered_shape hplace nonnull hresult

/-- **Folding documents is folding the values of each key.** The fold succeeds where it does for
every key, and leaves with each key what is left of its values. Nothing that is there is lost on the
way: a key stays, and a value that is no null stays one and keeps its shape. Sequences are collected
from the last null on, and of scalars the last one counts. -/
theorem layers_keywise (documents : List (Entries Value))
    (distinct : ∀ d ∈ documents, (Entries.keys d).Nodup) :
    ((∃ result, layers documents = .ok result) ↔
      ∀ key, ∃ place, layered (assigned key documents) = .ok place) ∧
    ∀ result, layers documents = .ok result →
      (∀ key, layered (assigned key documents) = .ok (result.get? key)) ∧
      (∀ key, key ∈ result.keys ↔ ∃ d ∈ documents, key ∈ Entries.keys d) ∧
      (∀ first rest, documents = first ++ rest →
        ∃ before, layers first = .ok before ∧ (∀ key ∈ before.keys, key ∈ result.keys) ∧
          ∀ key u, before.get? key = some u → u ≠ .null →
            ∃ w, result.get? key = some w ∧ w ≠ .null ∧ w.shape = u.shape) ∧
      (∀ key, (∀ v ∈ assigned key documents, v = .null ∨ v.shape = .sequence) →
        (∃ items, .sequence items ∈ assigned key documents) →
        result.get? key = some (.sequence (itemsAfterNull (assigned key documents)))) ∧
      (∀ key last, (∀ v ∈ assigned key documents, v.isScalar = true) →
        (assigned key documents).getLast? = some last →
        (last ≠ .null → result.get? key = some last) ∧
        (last = .null → result.get? key =
          some ((lastNonNull? (assigned key documents)).getD .null).zero)) := by
  refine ⟨layers_isOk_iff distinct, fun result merged => ?_⟩
  have law := get?_layers distinct merged
  refine ⟨law, mem_keys_layers distinct merged, ?_, ?_, ?_⟩
  · rintro first rest rfl
    exact layers_prefix distinct merged
  · rintro key fed ⟨items, mem⟩
    have h := layered_of_sequence_mem fed mem
    rw [law key, Except.ok.injEq] at h
    exact h
  · intro key last fed ends
    have h := layered_of_scalars fed ends
    rw [law key, Except.ok.injEq] at h
    constructor
    · intro nonnull
      have : last.isNull = false := by cases last <;> first | rfl | exact absurd rfl nonnull
      simpa [this] using h
    · rintro rfl
      exact h

/-- A list is collected again after a null, and a string that is reset stays a string. -/
theorem layers_keywise_reset_list_and_string :
    let documents : List (Entries Value) :=
      [[("dns", .sequence [.string "a"]), ("host", .string "x")],
        [("dns", .null), ("host", .null)],
        [("mtu", .null), ("dns", .sequence [.string "b"])]]
    (∀ d ∈ documents, (Entries.keys d).Nodup) ∧
    ∃ result, layers documents = .ok result ∧
      result.get? "dns" = some (.sequence [.string "b"]) ∧
      result.get? "host" = some (.string "") ∧ result.get? "mtu" = some .null := by
  intro documents
  have distinct : ∀ d ∈ documents, (Entries.keys d).Nodup := by decide
  have merged : layers documents =
      .ok [("dns", .sequence [.string "b"]), ("host", .string ""), ("mtu", .null)] := rfl
  obtain ⟨-, -, -, sequences, scalars⟩ := (layers_keywise documents distinct).2 _ merged
  refine ⟨distinct, _, merged, ?_, ?_, ?_⟩
  · refine sequences "dns" ?_ ⟨[.string "a"], ?_⟩
    · simp [documents, assigned, Entries.get?, shape]
    · simp [documents, assigned, Entries.get?]
  · refine (scalars "host" .null ?_ rfl).2 rfl
    simp [documents, assigned, Entries.get?, isScalar]
  · refine (scalars "mtu" .null ?_ rfl).2 rfl
    simp [documents, assigned, Entries.get?, isScalar]

end Value

end Provision
