import Provision.Proofs.Merging.AlongKeys
import Provision.Proofs.Merging.Keys
import Provision.Proofs.Merging.Order

/-!
# Merging in groups

Values that lie one over the other may be merged from below or in any other grouping, as long as no
null resets anything:

* **one place** — what three places make does not depend on which two are merged first, if that
  holds of the values in them (`overlaid_assoc_iff`);
* **three values** — so it is with two mappings over a third, key by key (`mergeEntries_assoc_iff`),
  and by induction with any values (`merge_assoc_iff`);
* **many values** — `Grouping` is a way to merge values two by two. All groupings of the same values
  come to the same (`Grouping.outcome_eq_ok_iff`).

A null at the end of a path would be lost in a group: laid over what the group has there, it resets
only that. What is merged in groups is therefore `NullFree`, except for the value at the bottom.
-/

namespace Provision.Value

/-- No path of keys leads to a null. -/
def NullFree (v : Value) : Prop := v.AlongKeys fun w => w.isNull = false

instance : DecidablePred NullFree := fun v =>
  inferInstanceAs (Decidable (v.AlongKeys fun w => w.isNull = false))

theorem NullFree.ne_null {v : Value} (free : v.NullFree) : v ≠ .null :=
  isNull_eq_false.1 (AlongKeys.self free)

theorem NullFree.get? {entries : Entries Value} {key : String} {v : Value}
    (free : (mapping entries).NullFree) (h : entries.get? key = some v) : v.NullFree :=
  AlongKeys.get? free h

/-- Merging makes no null where none is on either side. -/
theorem NullFree.merge {u v w : Value} (distinct : v.Distinct) (hu : u.NullFree) (hv : v.NullFree)
    (merged : Value.merge u v = .ok w) : w.NullFree := by
  intro path z hz
  obtain ⟨added, met, -, kept⟩ := at?_merge distinct merged path
  have clear : ¬ v.NullAbove path := by
    rintro ⟨first, -, -, -, null⟩
    exact absurd (hv first _ null) (by decide)
  cases hy : v.at? path with
  | none =>
    rw [kept hy clear] at hz
    exact hu path z hz
  | some y =>
    cases hx : u.at? path with
    | none =>
      rw [added y hy hx, Option.some.injEq] at hz
      rw [← hz]
      exact hv path y hy
    | some x =>
      obtain ⟨z', merged', hat⟩ := met x y hx hy
      rw [hat, Option.some.injEq] at hz
      rw [← hz, isNull_eq_false]
      have below : x ≠ .null := isNull_eq_false.1 (hu path x hx)
      exact (merge_shape merged' below).1

/-! ## One place -/

theorem overlaid_assoc_iff {x y z place : Option Value}
    (values : ∀ a b c r, x = some a → y = some b → z = some c →
      ((∃ m, merge a b = .ok m ∧ merge m c = .ok r) ↔
        ∃ n, merge b c = .ok n ∧ merge a n = .ok r)) :
    (∃ m, overlaid x y = .ok m ∧ overlaid m z = .ok place) ↔
      ∃ n, overlaid y z = .ok n ∧ overlaid x n = .ok place := by
  cases x with
  | none => simp
  | some a =>
    cases y with
    | none => simp
    | some b =>
      cases z with
      | none => simp
      | some c =>
        constructor
        · rintro ⟨_, lower, last⟩
          obtain ⟨m, hm, rfl⟩ := overlaid_eq_ok_iff.1 lower
          obtain ⟨r, hr, rfl⟩ := overlaid_eq_ok_iff.1 last
          obtain ⟨n, hn, hr⟩ := (values a b c r rfl rfl rfl).1 ⟨m, hm, hr⟩
          exact ⟨some n, overlaid_eq_ok_iff.2 ⟨n, hn, rfl⟩, overlaid_eq_ok_iff.2 ⟨r, hr, rfl⟩⟩
        · rintro ⟨_, upper, whole⟩
          obtain ⟨n, hn, rfl⟩ := overlaid_eq_ok_iff.1 upper
          obtain ⟨r, hr, rfl⟩ := overlaid_eq_ok_iff.1 whole
          obtain ⟨m, hm, hr⟩ := (values a b c r rfl rfl rfl).2 ⟨n, hn, hr⟩
          exact ⟨some m, overlaid_eq_ok_iff.2 ⟨m, hm, rfl⟩, overlaid_eq_ok_iff.2 ⟨r, hr, rfl⟩⟩

/-! ## Entries -/

section Entries

variable {a b c m n r r' : Entries Value}

/-- However three mappings are grouped, their merge has the same keys in the same order. So it is
settled by what each key holds. -/
theorem eq_of_regrouped (ha : a.keys.Nodup) (hb : b.keys.Nodup) (hc : c.keys.Nodup)
    (lower : mergeEntries a b = .ok m) (last : mergeEntries m c = .ok r)
    (upper : mergeEntries b c = .ok n) (whole : mergeEntries a n = .ok r')
    (held : ∀ key, Entries.get? key r = Entries.get? key r') : r = r' := by
  have hm := nodup_keys_mergeEntries ha hb lower
  have hn := nodup_keys_mergeEntries hb hc upper
  apply Entries.eq_of_keys_eq (nodup_keys_mergeEntries hm hc last) _ held
  rw [keys_mergeEntries hc last, keys_mergeEntries hb lower, keys_mergeEntries hn whole,
    keys_mergeEntries hc upper, List.filter_append, List.append_assoc, List.filter_filter]
  congr 2
  apply List.filter_congr
  intro key hkey
  by_cases hbelow : key ∈ a.keys
  · simp [hbelow]
  · simp [hbelow]

/-- Three mappings can be merged in both groupings or in none, to the same, if that holds of what
they have under each key. -/
theorem mergeEntries_assoc_iff (ha : a.keys.Nodup) (hb : b.keys.Nodup) (hc : c.keys.Nodup)
    (places : ∀ key place,
      (∃ m, overlaid (a.get? key) (b.get? key) = .ok m ∧ overlaid m (c.get? key) = .ok place) ↔
        ∃ n, overlaid (b.get? key) (c.get? key) = .ok n ∧ overlaid (a.get? key) n = .ok place) :
    (∃ m, mergeEntries a b = .ok m ∧ mergeEntries m c = .ok r) ↔
      ∃ n, mergeEntries b c = .ok n ∧ mergeEntries a n = .ok r := by
  constructor
  · rintro ⟨m, hm, hr⟩
    obtain ⟨n, hn, onto⟩ := exists_mergeEntries b hc
      (P := fun key place => overlaid (a.get? key) place = .ok (r.get? key)) fun key =>
        (places key _).1 ⟨_, get?_mergeEntries hb hm key, get?_mergeEntries hc hr key⟩
    have distinct := nodup_keys_mergeEntries hb hc hn
    obtain ⟨r', hr', held⟩ := exists_mergeEntries a distinct
      (P := fun key place => place = r.get? key) fun key => ⟨_, onto key, rfl⟩
    have same : r = r' := eq_of_regrouped ha hb hc hm hr hn hr' fun key => (held key).symm
    rw [same]
    exact ⟨n, hn, hr'⟩
  · rintro ⟨n, hn, hr⟩
    have distinct := nodup_keys_mergeEntries hb hc hn
    obtain ⟨m, hm, under⟩ := exists_mergeEntries a hb
      (P := fun key place => overlaid place (c.get? key) = .ok (r.get? key)) fun key =>
        (places key _).2 ⟨_, get?_mergeEntries hc hn key, get?_mergeEntries distinct hr key⟩
    obtain ⟨r', hr', held⟩ := exists_mergeEntries m hc
      (P := fun key place => place = r.get? key) fun key => ⟨_, under key, rfl⟩
    have same : r' = r := eq_of_regrouped ha hb hc hm hr' hn hr held
    rw [← same]
    exact ⟨m, hm, hr'⟩

end Entries

/-! ## Values -/

section Values

variable {a b c m n r : Value}

/-- What is merged from below can be merged from above, if that holds of three mappings. -/
theorem merge_regroup_above (hb : b ≠ .null) (hc : c ≠ .null)
    (entries : ∀ as bs cs ms rs, a = .mapping as → b = .mapping bs → c = .mapping cs →
      mergeEntries as bs = .ok ms → mergeEntries ms cs = .ok rs →
      ∃ ns, mergeEntries bs cs = .ok ns ∧ mergeEntries as ns = .ok rs)
    (lower : merge a b = .ok m) (last : merge m c = .ok r) :
    ∃ n, merge b c = .ok n ∧ merge a n = .ok r := by
  cases merged_of_merge lower with
  | reset => exact absurd rfl hb
  | fill => exact ⟨r, last, merge_null_left r⟩
  | append items more =>
    cases merged_of_merge last with
    | reset => exact absurd rfl hc
    | scalar _ _ scalar => cases scalar
    | append _ most =>
      refine ⟨_, (Merged.append more most).merge_eq, ?_⟩
      rw [List.append_assoc]
      exact (Merged.append items (more ++ most)).merge_eq
  | scalar ha _ below scalar =>
    cases merged_of_merge last with
    | reset => exact absurd rfl hc
    | fill => exact absurd rfl hb
    | append => cases scalar
    | entries => cases scalar
    | scalar _ _ _ above =>
      exact ⟨_, (Merged.scalar hb hc scalar above).merge_eq,
        (Merged.scalar ha hc below above).merge_eq⟩
  | entries hm =>
    cases merged_of_merge last with
    | reset => exact absurd rfl hc
    | scalar _ _ scalar => cases scalar
    | entries hr =>
      obtain ⟨ns, hn, hr⟩ := entries _ _ _ _ _ rfl rfl rfl hm hr
      exact ⟨_, (Merged.entries hn).merge_eq, (Merged.entries hr).merge_eq⟩

/-- What is merged from above can be merged from below, if that holds of three mappings. -/
theorem merge_regroup_below (hb : b ≠ .null) (hc : c ≠ .null)
    (entries : ∀ as bs cs ns rs, a = .mapping as → b = .mapping bs → c = .mapping cs →
      mergeEntries bs cs = .ok ns → mergeEntries as ns = .ok rs →
      ∃ ms, mergeEntries as bs = .ok ms ∧ mergeEntries ms cs = .ok rs)
    (upper : merge b c = .ok n) (whole : merge a n = .ok r) :
    ∃ m, merge a b = .ok m ∧ merge m c = .ok r := by
  by_cases ha : a = .null
  · subst ha
    rw [merge_null_left] at whole
    cases whole
    exact ⟨b, merge_null_left b, upper⟩
  cases merged_of_merge upper with
  | reset => exact absurd rfl hc
  | fill => exact absurd rfl hb
  | append more most =>
    cases merged_of_merge whole with
    | fill => exact absurd rfl ha
    | scalar _ _ _ scalar => cases scalar
    | append items _ =>
      refine ⟨_, (Merged.append items more).merge_eq, ?_⟩
      rw [← List.append_assoc]
      exact (Merged.append (items ++ more) most).merge_eq
  | scalar _ _ scalar above =>
    cases merged_of_merge whole with
    | reset => exact absurd rfl hc
    | fill => exact absurd rfl ha
    | append => cases above
    | entries => cases above
    | scalar _ _ below _ =>
      exact ⟨b, (Merged.scalar ha hb below scalar).merge_eq, upper⟩
  | entries hn =>
    cases merged_of_merge whole with
    | fill => exact absurd rfl ha
    | scalar _ _ _ scalar => cases scalar
    | entries hr =>
      obtain ⟨ms, hm, hr⟩ := entries _ _ _ _ _ rfl rfl rfl hn hr
      exact ⟨_, (Merged.entries hm).merge_eq, (Merged.entries hr).merge_eq⟩

/-- Two values over a third can be merged first or last, if no null is in them. -/
theorem merge_assoc_iff (ha : a.Distinct) (hb : b.Distinct) (hc : c.Distinct)
    (freeb : b.NullFree) (freec : c.NullFree) :
    (∃ m, merge a b = .ok m ∧ merge m c = .ok r) ↔ ∃ n, merge b c = .ok n ∧ merge a n = .ok r := by
  -- The induction is on the value on top. Under a key that all three have, the law is that of what
  -- they have there; a place that one of them lacks needs no law.
  induction c generalizing a b r with
  | mapping cs ih =>
    have entries : ∀ as bs rs, a = .mapping as → b = .mapping bs →
        ((∃ ms, mergeEntries as bs = .ok ms ∧ mergeEntries ms cs = .ok rs) ↔
          ∃ ns, mergeEntries bs cs = .ok ns ∧ mergeEntries as ns = .ok rs) := by
      rintro as bs rs rfl rfl
      apply mergeEntries_assoc_iff (distinct_mapping.1 ha).1 (distinct_mapping.1 hb).1
        (distinct_mapping.1 hc).1
      intro key place
      apply overlaid_assoc_iff
      intro x y z w hx hy hz
      exact ih _ (Entries.mem_of_get? hz) (ha.get? hx) (hb.get? hy) (hc.get? hz) (freeb.get? hy)
        (freec.get? hz)
    constructor
    · rintro ⟨m, lower, last⟩
      refine merge_regroup_above freeb.ne_null (by simp) ?_ lower last
      rintro as bs _ ms rs has hbs ⟨⟩ hm hr
      exact (entries as bs rs has hbs).1 ⟨ms, hm, hr⟩
    · rintro ⟨n, upper, whole⟩
      refine merge_regroup_below freeb.ne_null (by simp) ?_ upper whole
      rintro as bs _ ns rs has hbs ⟨⟩ hn hr
      exact (entries as bs rs has hbs).2 ⟨ns, hn, hr⟩
  | _ =>
    constructor
    · rintro ⟨m, lower, last⟩
      exact merge_regroup_above freeb.ne_null freec.ne_null nofun lower last
    · rintro ⟨n, upper, whole⟩
      exact merge_regroup_below freeb.ne_null freec.ne_null nofun upper whole

end Values

/-! ## Groupings -/

/-- A way to merge values two by two: a value alone, or a group laid over another one. -/
inductive Grouping where
  | one (v : Value)
  | group (below above : Grouping)

namespace Grouping

/-- The values of a grouping, from below. -/
def values : Grouping → List Value
  | one v => [v]
  | group below above => below.values ++ above.values

/-- What is left when each group is merged before it is laid over another one. -/
def outcome : Grouping → Except KindConflict Value
  | one v => .ok v
  | group below above => do merge (← below.outcome) (← above.outcome)

theorem exists_cons_values (g : Grouping) : ∃ v vs, g.values = v :: vs := by
  induction g with
  | one v => exact ⟨v, [], rfl⟩
  | group below above ihb _ =>
    obtain ⟨v, vs, h⟩ := ihb
    exact ⟨v, vs ++ above.values, by rw [values, h, List.cons_append]⟩

end Grouping

/-- Merging one value after the other keeps keys distinct. -/
theorem Distinct.foldlM_merge {u w : Value} {vs : List Value} (hu : u.Distinct)
    (distinct : ∀ v ∈ vs, v.Distinct) (merged : vs.foldlM Value.merge u = .ok w) : w.Distinct := by
  induction vs generalizing u with
  | nil =>
    cases merged
    exact hu
  | cons v vs ih =>
    rw [List.forall_mem_cons] at distinct
    rw [List.foldlM_cons, bind_eq_ok_iff] at merged
    obtain ⟨m, hm, merged⟩ := merged
    exact ih (hu.merge distinct.1 hm) distinct.2 merged

/-- Values can be merged over another one together, or one after the other. -/
theorem foldlM_merge_cons_iff {u v r : Value} {vs : List Value} (hu : u.Distinct)
    (distinct : ∀ w ∈ v :: vs, w.Distinct) (free : ∀ w ∈ v :: vs, w.NullFree) :
    (v :: vs).foldlM merge u = .ok r ↔
      ∃ n, vs.foldlM merge v = .ok n ∧ merge u n = .ok r := by
  -- The first two values of the group become one, until there is only one.
  induction vs generalizing v with
  | nil => simp [bind_eq_ok_iff, pure, Except.pure]
  | cons w vs ih =>
    obtain ⟨hv, hw, hvs⟩ := by simpa only [List.forall_mem_cons] using distinct
    obtain ⟨freev, freew, frees⟩ := by simpa only [List.forall_mem_cons] using free
    have grouped : ∀ n, merge v w = .ok n →
        ((n :: vs).foldlM merge u = .ok r ↔
          ∃ m, vs.foldlM merge n = .ok m ∧ merge u m = .ok r) := by
      intro n hn
      exact ih (List.forall_mem_cons.2 ⟨hv.merge hw hn, hvs⟩)
        (List.forall_mem_cons.2 ⟨freev.merge hw freew hn, frees⟩)
    simp only [List.foldlM_cons, bind_eq_ok_iff] at grouped ⊢
    constructor
    · rintro ⟨m, hm, m', hm', hr⟩
      obtain ⟨n, hn, hm'⟩ := (merge_assoc_iff hu hv hw freev freew).1 ⟨m, hm, hm'⟩
      obtain ⟨n', hn', hr⟩ := (grouped n hn).1 ⟨m', hm', hr⟩
      exact ⟨n', ⟨n, hn, hn'⟩, hr⟩
    · rintro ⟨n', ⟨n, hn, hn'⟩, hr⟩
      obtain ⟨m', hm', hr⟩ := (grouped n hn).2 ⟨n', hn', hr⟩
      obtain ⟨m, hm, hm'⟩ := (merge_assoc_iff hu hv hw freev freew).2 ⟨n, hn, hm'⟩
      exact ⟨m, hm, m', hm', hr⟩

/-- A grouping comes to what its values come to one after the other. -/
theorem Grouping.outcome_eq_ok_iff {g : Grouping} {u r : Value} {vs : List Value}
    (values : g.values = u :: vs) (hu : u.Distinct) (distinct : ∀ v ∈ vs, v.Distinct)
    (free : ∀ v ∈ vs, v.NullFree) : g.outcome = .ok r ↔ vs.foldlM merge u = .ok r := by
  induction g generalizing u r vs with
  | one v =>
    cases values
    rfl
  | group below above ihb iha =>
    obtain ⟨u', us, hbelow⟩ := below.exists_cons_values
    obtain ⟨v, ws, habove⟩ := above.exists_cons_values
    rw [Grouping.values, hbelow, habove, List.cons_append, List.cons.injEq] at values
    obtain ⟨rfl, rfl⟩ := values
    rw [List.forall_mem_append] at distinct free
    obtain ⟨hv, hws⟩ := List.forall_mem_cons.1 distinct.2
    obtain ⟨-, frees⟩ := List.forall_mem_cons.1 free.2
    have lower {m : Value} := ihb (r := m) hbelow hu distinct.1 free.1
    have upper {n : Value} := iha (r := n) habove hv hws frees
    simp only [Grouping.outcome, List.foldlM_append, bind_eq_ok_iff, lower, upper]
    apply exists_congr
    intro m
    apply and_congr_right
    intro hm
    exact (foldlM_merge_cons_iff (hu.foldlM_merge distinct.1 hm) distinct.2 free.2).symm

/-- **Overriding documents may be merged in any grouping.** If no path of keys leads to a null in
them, two values can be merged over a third first or last: both ways go through or neither does, and
they come to the same. So it is with any number of values and any two groupings of them. -/
theorem merge_regrouped (a : Value) (ha : a.Distinct) :
    (∀ b c : Value, b.Distinct → c.Distinct → b.NullFree → c.NullFree →
      ((∃ r, (do merge (← merge a b) c) = .ok r) ↔ ∃ r, (do merge a (← merge b c)) = .ok r) ∧
      ∀ r r', (do merge (← merge a b) c) = .ok r → (do merge a (← merge b c)) = .ok r' → r = r') ∧
    ∀ above : List Value, (∀ v ∈ above, v.Distinct) → (∀ v ∈ above, v.NullFree) →
      ∀ g g' : Grouping, g.values = a :: above → g'.values = a :: above →
        ∀ r, g.outcome = .ok r ↔ g'.outcome = .ok r := by
  constructor
  · intro b c hb hc freeb freec
    have same : ∀ r, (do merge (← merge a b) c) = .ok r ↔ (do merge a (← merge b c)) = .ok r := by
      intro r
      rw [bind_eq_ok_iff, bind_eq_ok_iff]
      exact merge_assoc_iff ha hb hc freeb freec
    refine ⟨exists_congr same, ?_⟩
    intro r r' hr hr'
    rw [same r, hr'] at hr
    exact (Except.ok.inj hr).symm
  · intro above distinct free g g' values values' r
    rw [Grouping.outcome_eq_ok_iff values ha distinct free,
      Grouping.outcome_eq_ok_iff values' ha distinct free]

/-- A list and a mapping are laid over a null and a list, with nulls at the bottom and in the
list. -/
theorem merge_regrouped_list_and_mapping :
    let a : Value := .mapping [("net", .null), ("dns", .sequence [.string "a"])]
    let b : Value := .mapping [("dns", .sequence [.null]),
      ("net", .mapping [("mtu", .number (.integer 9))])]
    let c : Value := .mapping [("net", .mapping [("host", .string "x")]),
      ("dns", .sequence [.string "b"])]
    let r : Value := .mapping
      [("net", .mapping [("mtu", .number (.integer 9)), ("host", .string "x")]),
        ("dns", .sequence [.string "a", .null, .string "b"])]
    (a.Distinct ∧ b.Distinct ∧ c.Distinct) ∧ (b.NullFree ∧ c.NullFree) ∧
      (do merge (← merge a b) c) = .ok r ∧ (do merge a (← merge b c)) = .ok r ∧
      (Grouping.group (.one a) (.group (.one b) (.one c))).outcome = .ok r := by
  intro a b c r
  have distinct : a.Distinct ∧ b.Distinct ∧ c.Distinct := by
    simp [a, b, c, Distinct, DistinctItems, DistinctEntries, Entries.keys]
  have free : b.NullFree ∧ c.NullFree := by decide
  have below : (do merge (← merge a b) c) = .ok r := rfl
  refine ⟨distinct, free, below, ?_⟩
  obtain ⟨ha, hb, hc⟩ := distinct
  obtain ⟨freeb, freec⟩ := free
  obtain ⟨triples, groupings⟩ := merge_regrouped a ha
  constructor
  · obtain ⟨both, same⟩ := triples b c hb hc freeb freec
    obtain ⟨r', above⟩ := both.1 ⟨r, below⟩
    rw [same r r' below above]
    exact above
  · apply (groupings [b, c] (by simp [hb, hc]) (by simp [freeb, freec])
      (.group (.group (.one a) (.one b)) (.one c)) _ rfl rfl r).1
    exact below

end Provision.Value
