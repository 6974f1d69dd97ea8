import Provision.Proofs.Merging.Conflicts
import Provision.Proofs.Merging.Keys
import Provision.Proofs.Merging.Order
import Provision.Proofs.Values.Alike

/-!
# Independent documents

Two values are `Apart` if they have nothing but mappings in common: wherever a path of keys leads to
something in both, it leads to mappings. It is then no matter which of them is merged over a third
one first:

* **one place** — a place that one of the two lacks is changed once, in either order; where both
  have something they are mappings, and over nothing a mapping is merged as over an empty one
  (`overlaid_apart`);
* **mappings** — two mappings are merged over a third in either order, key by key
  (`mergeEntries_apart`), and by induction any two values are (`merge_apart`);
* **documents** — both orders fail or both come to mappings that are alike (`mergeEntries_comm`).

Only the order of entries in the result may differ, for new keys come last.
-/

namespace Provision.Value

/-- What both values have is mappings: a path of keys that leads to something in both leads to a
mapping in both. -/
def Apart (v w : Value) : Prop :=
  ∀ path x y, v.at? path = some x → w.at? path = some y → x.shape = .mapping ∧ y.shape = .mapping

theorem apart_iff {v w : Value} :
    v.Apart w ↔ ∀ path ∈ v.paths, ∀ x ∈ v.at? path, ∀ y ∈ w.at? path,
      x.shape = .mapping ∧ y.shape = .mapping := by
  constructor
  · intro apart path _ x hx y hy
    exact apart path x y hx hy
  · intro apart path x y hx hy
    exact apart path (mem_paths_of_at? hx) x hx y hy

instance (v w : Value) : Decidable (v.Apart w) := decidable_of_iff' _ apart_iff

theorem Apart.symm {v w : Value} (apart : v.Apart w) : w.Apart v := by
  intro path x y hx hy
  exact (apart path y x hy hx).symm

theorem Apart.get? {es fs : Entries Value} {key : String} {v w : Value}
    (apart : (mapping es).Apart (mapping fs)) (hv : es.get? key = some v)
    (hw : fs.get? key = some w) : v.Apart w := by
  intro path x y hx hy
  apply apart (key :: path) x y
  · rw [at?_mapping_some hv, hx]
  · rw [at?_mapping_some hw, hy]

theorem exists_mapping_of_shape {v : Value} (h : v.shape = .mapping) :
    ∃ entries, v = .mapping entries := by
  cases v with
  | mapping entries => exact ⟨entries, rfl⟩
  | _ => cases h

/-! ## One place -/

theorem overlaid_apart {x y z m place : Option Value}
    (values : ∀ v w m r, y = some v → z = some w → merge (x.getD .null) v = .ok m →
      merge m w = .ok r →
      ∃ m' r', merge (x.getD .null) w = .ok m' ∧ merge m' v = .ok r' ∧ r'.sorted = r.sorted)
    (first : overlaid x y = .ok m) (second : overlaid m z = .ok place) :
    ∃ m' place', overlaid x z = .ok m' ∧ overlaid m' y = .ok place' ∧
      place'.map sorted = place.map sorted := by
  cases y with
  | none =>
    rw [overlaid_none_right] at first
    cases first
    exact ⟨place, place, second, overlaid_none_right place, rfl⟩
  | some v =>
    cases z with
    | none =>
      rw [overlaid_none_right] at second
      cases second
      exact ⟨x, m, overlaid_none_right x, first, rfl⟩
    | some w =>
      obtain ⟨n, hn, rfl⟩ := overlaid_eq_ok_iff.1 first
      obtain ⟨r, hr, rfl⟩ := overlaid_eq_ok_iff.1 second
      obtain ⟨m', r', hm', hr', hsorted⟩ := values v w n r rfl rfl hn hr
      exact ⟨some m', some r', overlaid_eq_ok_iff.2 ⟨m', hm', rfl⟩,
        overlaid_eq_ok_iff.2 ⟨r', hr', rfl⟩, congrArg some hsorted⟩

/-! ## Mappings -/

/-- Two mappings are merged over a third in either order, if that holds of every key. -/
theorem mergeEntries_apart {base es fs ms rs : Entries Value} (hes : es.keys.Nodup)
    (hfs : fs.keys.Nodup)
    (places : ∀ key m place, overlaid (base.get? key) (es.get? key) = .ok m →
      overlaid m (fs.get? key) = .ok place →
      ∃ m' place', overlaid (base.get? key) (fs.get? key) = .ok m' ∧
        overlaid m' (es.get? key) = .ok place' ∧ place'.map sorted = place.map sorted)
    (first : mergeEntries base es = .ok ms) (second : mergeEntries ms fs = .ok rs) :
    ∃ ms' rs', mergeEntries base fs = .ok ms' ∧ mergeEntries ms' es = .ok rs' ∧
      ∀ key, (Entries.get? key rs').map sorted = (rs.get? key).map sorted := by
  obtain ⟨ms', hms', later⟩ := exists_mergeEntries base hfs
    (P := fun key m' => ∃ place', overlaid m' (es.get? key) = .ok place' ∧
      place'.map sorted = (rs.get? key).map sorted) fun key => by
    obtain ⟨m', place', hm', hplace'⟩ := places key _ _ (get?_mergeEntries hes first key)
      (get?_mergeEntries hfs second key)
    exact ⟨m', hm', place', hplace'⟩
  obtain ⟨rs', hrs', held⟩ := exists_mergeEntries ms' hes
    (P := fun key place' => place'.map sorted = (rs.get? key).map sorted) later
  exact ⟨ms', rs', hms', hrs', held⟩

theorem Distinct.entries {u : Value} (hu : u.Distinct) :
    (mapping (u.entries?.getD [])).Distinct := by
  cases u with
  | mapping base => exact hu
  | _ => exact ⟨List.nodup_nil, trivial⟩

/-- Two values that are apart are merged over a third in either order. -/
theorem merge_apart {u v w m r : Value} (hu : u.Distinct) (hv : v.Distinct) (hw : w.Distinct)
    (apart : v.Apart w) (first : merge u v = .ok m) (second : merge m w = .ok r) :
    ∃ m' r', merge u w = .ok m' ∧ merge m' v = .ok r' ∧ r'.sorted = r.sorted := by
  -- The induction is on the value that came first. Both are mappings, and what they have under one
  -- key is apart again.
  induction v generalizing u w m r with
  | mapping es ih =>
    obtain ⟨fs, rfl⟩ := exists_mapping_of_shape (apart [] _ _ rfl rfl).2
    have hes := (distinct_mapping.1 hv).1
    have hfs := (distinct_mapping.1 hw).1
    have hr := (hu.merge hv first).merge hw second
    have laid {overlay : Entries Value} (distinct : overlay.keys.Nodup) :=
      merge_mapping_over first distinct
    rw [laid hes] at first
    obtain ⟨ms, hms, rfl⟩ := map_eq_ok_iff.1 first
    rw [merge_mapping] at second
    obtain ⟨rs, hrs, rfl⟩ := map_eq_ok_iff.1 second
    obtain ⟨ms', rs', hms', hrs', held⟩ : ∃ ms' rs', _ ∧ _ ∧ _ := by
      apply mergeEntries_apart hes hfs _ hms hrs
      intro key m place
      apply overlaid_apart
      intro x y m r hx hy
      have below : ((Entries.get? key (u.entries?.getD [])).getD .null).Distinct := by
        cases hx : Entries.get? key (u.entries?.getD []) with
        | none => trivial
        | some x => exact hu.entries.get? hx
      exact ih _ (Entries.mem_of_get? hx) below (hv.get? hx) (hw.get? hy) (apart.get? hx hy)
    have hm' : merge u (.mapping fs) = .ok (.mapping ms') := by
      rw [laid hfs, hms']
      rfl
    have hr' : merge (.mapping ms') (.mapping es) = .ok (.mapping rs') := by
      rw [merge_mapping, hrs']
      rfl
    refine ⟨_, _, hm', hr', ?_⟩
    rw [sorted_mapping_eq_iff (distinct_mapping.1 ((hu.merge hw hm').merge hv hr')).1
      (distinct_mapping.1 hr).1]
    exact held
  | _ => cases (apart [] _ _ rfl rfl).1

/-! ## Documents -/

/-- Two documents that are apart can be merged in one order if they can in the other, to mappings
that are alike. -/
theorem mergeEntries_swapped {acc a b r : Entries Value} (hacc : (mapping acc).Distinct)
    (ha : (mapping a).Distinct) (hb : (mapping b).Distinct)
    (apart : (mapping a).Apart (mapping b))
    (merged : (do mergeEntries (← mergeEntries acc a) b) = .ok r) :
    ∃ r', (do mergeEntries (← mergeEntries acc b) a) = .ok r' ∧
      (mapping r).Alike (mapping r') ∧ (mapping r).toYaml = (mapping r').toYaml := by
  obtain ⟨m, first, second⟩ := bind_eq_ok_iff.1 merged
  have hm := (Merged.entries first).merge_eq
  have hr := (Merged.entries second).merge_eq
  obtain ⟨m', r', hm', hr', hsorted⟩ := merge_apart hacc ha hb apart hm hr
  have distinct := (hacc.merge ha hm).merge hb hr
  have distinct' := (hacc.merge hb hm').merge ha hr'
  rw [merge_mapping] at hm'
  obtain ⟨ms', hms', rfl⟩ := map_eq_ok_iff.1 hm'
  rw [merge_mapping] at hr'
  obtain ⟨rs', hrs', rfl⟩ := map_eq_ok_iff.1 hr'
  exact ⟨rs', bind_eq_ok_iff.2 ⟨ms', hms', hrs'⟩,
    (sorted_eq_iff_alike distinct distinct').1 hsorted.symm, toYaml_congr hsorted.symm⟩

/-- **Independent documents can be merged in either order.** If two documents have nothing but
mappings in common, then merging them over a third one fails in both orders, or comes to mappings
that are alike and have the same text. -/
theorem mergeEntries_comm (acc a b : Entries Value) (hacc : (mapping acc).Distinct)
    (ha : (mapping a).Distinct) (hb : (mapping b).Distinct)
    (apart : (mapping a).Apart (mapping b)) :
    ((∃ c, (do mergeEntries (← mergeEntries acc a) b) = .error c) ∧
      ∃ c, (do mergeEntries (← mergeEntries acc b) a) = .error c) ∨
    ∃ r r', (do mergeEntries (← mergeEntries acc a) b) = .ok r ∧
      (do mergeEntries (← mergeEntries acc b) a) = .ok r' ∧
      (mapping r).Alike (mapping r') ∧ (mapping r).toYaml = (mapping r').toYaml := by
  cases forth : (do mergeEntries (← mergeEntries acc a) b) with
  | ok r =>
    obtain ⟨r', back, same⟩ := mergeEntries_swapped hacc ha hb apart forth
    exact .inr ⟨r, r', rfl, back, same⟩
  | error c =>
    cases back : (do mergeEntries (← mergeEntries acc b) a) with
    | error c' => exact .inl ⟨⟨c, rfl⟩, ⟨c', rfl⟩⟩
    | ok r' =>
      -- If the other order went through, then so would this one.
      obtain ⟨r, forth', -⟩ := mergeEntries_swapped hacc hb ha apart.symm back
      rw [forth] at forth'
      cases forth'

/-- Each of two documents resets what stands beside the entries of the other, under a key that they
share. -/
theorem mergeEntries_comm_resets :
    let acc : Entries Value := [("net", .mapping [("mtu", .number (.integer 9)),
      ("dns", .sequence [.string "a"])])]
    let a : Entries Value := [("net", .mapping [("mtu", .null), ("host", .string "x")])]
    let b : Entries Value := [("net", .mapping [("dns", .null)]), ("users", .null)]
    ((mapping acc).Distinct ∧ (mapping a).Distinct ∧ (mapping b).Distinct) ∧
      (mapping a).Apart (mapping b) ∧
      ∃ r r', (do mergeEntries (← mergeEntries acc a) b) = .ok r ∧
        (do mergeEntries (← mergeEntries acc b) a) = .ok r' ∧
        (mapping r).toYaml = (mapping r').toYaml := by
  intro acc a b
  have distinct : (mapping acc).Distinct ∧ (mapping a).Distinct ∧ (mapping b).Distinct := by
    simp [acc, a, b, Distinct, DistinctItems, DistinctEntries, Entries.keys]
  have apart : (mapping a).Apart (mapping b) := by decide
  refine ⟨distinct, apart, ?_⟩
  obtain ⟨hacc, ha, hb⟩ := distinct
  rcases mergeEntries_comm acc a b hacc ha hb apart with
    ⟨⟨c, failed⟩, -⟩ | ⟨r, r', forth, back, -, text⟩
  · cases failed
  · exact ⟨r, r', forth, back, text⟩

end Provision.Value
