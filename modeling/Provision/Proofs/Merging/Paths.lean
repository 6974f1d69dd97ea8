import Provision.Proofs.Merging.Keywise
import Provision.Proofs.Values.Distinct
import Provision.Value.Path

/-!
# Merging along paths

What a merge leaves at the end of a path of keys depends on what its two sides have there, and,
where the overlay has nothing, on whether a null of it stands above:

* **only above** — what the overlay has arrives unchanged;
* **both** — the two values are merged there;
* **under a null** — nothing is left of what stood below;
* **only below** — what was there stays, exactly.

`at?_merge` says so of any two values that can be merged; the induction is on the path, and at each
key the merge of two mappings is opened by its keywise law. `at?_mergeEntries` is the law of
documents.
-/

namespace Provision.Value

/-- A null stands on the path, before its end. -/
def NullAbove (v : Value) (path : List String) : Prop :=
  ∃ first rest, path = first ++ rest ∧ rest ≠ [] ∧ v.at? first = some .null

theorem nullAbove_null (key : String) (path : List String) : null.NullAbove (key :: path) :=
  ⟨[], key :: path, rfl, List.cons_ne_nil _ _, rfl⟩

/-- A value that is no null has one on a path only beyond the first key. -/
theorem nullAbove_cons {v : Value} (hv : v ≠ .null) (key : String) (path : List String) :
    v.NullAbove (key :: path) ↔ ∃ w, v.get? key = some w ∧ w.NullAbove path := by
  constructor
  · rintro ⟨first, rest, hpath, hne, hnull⟩
    cases first with
    | nil =>
      rw [at?_nil, Option.some.injEq] at hnull
      exact absurd hnull hv
    | cons k first =>
      rw [List.cons_append, List.cons.injEq] at hpath
      obtain ⟨rfl, rfl⟩ := hpath
      rw [at?_cons] at hnull
      obtain ⟨w, hw, hnull⟩ := Option.bind_eq_some_iff.1 hnull
      exact ⟨w, hw, first, rest, rfl, hne, hnull⟩
  · rintro ⟨w, hw, first, rest, rfl, hne, hnull⟩
    refine ⟨key :: first, rest, rfl, hne, ?_⟩
    rw [at?_cons, hw]
    exact hnull

/-! ## Values without keys -/

/-- Only a mapping holds something under a key. -/
theorem get?_eq_none {v : Value} (h : ∀ entries, v ≠ .mapping entries) (key : String) :
    v.get? key = none := by
  cases v with
  | mapping entries => exact absurd rfl (h entries)
  | _ => rfl

theorem at?_cons_eq_none {v : Value} (h : ∀ entries, v ≠ .mapping entries) (key : String)
    (path : List String) : v.at? (key :: path) = none := by
  rw [at?_cons, get?_eq_none h]
  rfl

theorem at?_zero_cons (u : Value) (key : String) (path : List String) :
    u.zero.at? (key :: path) = none := by
  cases u <;> rfl

/-! ## Mappings -/

section Mapping

variable {entries : Entries Value} {key : String} {v : Value} {path : List String}

theorem at?_mapping_none (h : entries.get? key = none) (path : List String) :
    (mapping entries).at? (key :: path) = none := by
  show (entries.get? key).bind (·.at? path) = none
  rw [h]
  rfl

theorem at?_mapping_some (h : entries.get? key = some v) (path : List String) :
    (mapping entries).at? (key :: path) = v.at? path := by
  show (entries.get? key).bind (·.at? path) = v.at? path
  rw [h]
  rfl

theorem not_nullAbove_mapping (h : entries.get? key = none) :
    ¬ (mapping entries).NullAbove (key :: path) := by
  rw [nullAbove_cons (by simp)]
  rintro ⟨w, hw, -⟩
  cases h.symm.trans hw

theorem nullAbove_mapping (h : entries.get? key = some v) :
    (mapping entries).NullAbove (key :: path) ↔ v.NullAbove path := by
  rw [nullAbove_cons (by simp)]
  constructor
  · rintro ⟨w, hw, above⟩
    cases h.symm.trans hw
    exact above
  · intro above
    exact ⟨v, h, above⟩

end Mapping

/-! ## One level of a merge -/

/-- What merging two values amounts to at their own level. -/
inductive Merged : Value → Value → Value → Prop
  | reset (u : Value) : Merged u .null u.zero
  | fill {v : Value} : v ≠ .null → Merged .null v v
  | append (items more : List Value) :
      Merged (.sequence items) (.sequence more) (.sequence (items ++ more))
  | scalar {u v : Value} : u ≠ .null → v ≠ .null → u.isScalar = true → v.isScalar = true →
      Merged u v v
  | entries {base overlay result : Entries Value} :
      mergeEntries base overlay = .ok result →
      Merged (.mapping base) (.mapping overlay) (.mapping result)

/-- A merge that succeeds is one of these. -/
theorem merged_of_merge {u v w : Value} (h : merge u v = .ok w) : Merged u v w := by
  -- A null below takes whatever is above; otherwise the value above decides.
  by_cases hu : u = .null
  · subst hu
    cases v <;> simp [merge, isScalar] at h <;> subst h
    · exact .reset .null
    all_goals exact .fill (by simp)
  · cases v with
    | null =>
      simp only [merge, Except.ok.injEq] at h
      subst h
      exact .reset u
    | sequence more =>
      cases u <;> simp [merge] at h
      · exact absurd rfl hu
      · subst h
        exact .append _ _
    | mapping overlay =>
      cases u <;> simp [merge] at h
      · exact absurd rfl hu
      · next base =>
        cases hm : mergeEntries base overlay with
        | error conflict => simp [hm, Except.map] at h
        | ok result =>
          simp only [hm, Except.map, Except.ok.injEq] at h
          subst h
          exact .entries hm
    | bool _ | number _ | string _ =>
      cases hs : u.isScalar <;> simp [merge, hs] at h
      subst h
      exact .scalar hu (by simp) hs rfl

/-- Each of these is a merge that succeeds. -/
theorem Merged.merge_eq {u v w : Value} (h : Merged u v w) : merge u v = .ok w := by
  cases h with
  | reset => rw [merge]
  | fill => exact merge_null_left v
  | append => rw [merge]
  | scalar _ hv hu hs =>
    cases v with
    | null => exact absurd rfl hv
    | sequence | mapping => cases hs
    | bool | number | string => simp [merge, hu]
  | entries merged =>
    rw [merge_mapping, merged]
    rfl

/-! ## Whole paths -/

/-- What a merge leaves at the end of a path, from what its sides have there. -/
structure PathLaw (u v w : Value) (path : List String) : Prop where
  /-- Something above and nothing below. -/
  added : ∀ y, v.at? path = some y → u.at? path = none → w.at? path = some y
  /-- Something on both sides. -/
  met : ∀ x y, u.at? path = some x → v.at? path = some y →
    ∃ z, merge x y = .ok z ∧ w.at? path = some z
  /-- Nothing above but a null on the way. -/
  cleared : v.at? path = none → v.NullAbove path → w.at? path = none
  /-- Nothing above at all. -/
  kept : v.at? path = none → ¬ v.NullAbove path → w.at? path = u.at? path

/-- A value that takes the place of one without keys is found along every path. -/
theorem PathLaw.replace {u v : Value} (hu : ∀ entries, u ≠ .mapping entries)
    (key : String) (path : List String) : PathLaw u v v (key :: path) where
  added _ hy _ := hy
  met _ _ hx _ := by rw [at?_cons_eq_none hu] at hx; cases hx
  cleared h _ := h
  kept h _ := by rw [h, at?_cons_eq_none hu]

section Below

variable {base overlay result : Entries Value} {key : String} {path : List String}

/-- Below a key that the overlay does not have. -/
theorem PathLaw.untouched (ho : overlay.get? key = none)
    (hr : result.get? key = base.get? key) :
    PathLaw (mapping base) (mapping overlay) (mapping result) (key :: path) where
  added y hy _ := by rw [at?_mapping_none ho] at hy; cases hy
  met x y _ hy := by rw [at?_mapping_none ho] at hy; cases hy
  cleared _ above := absurd above (not_nullAbove_mapping ho)
  kept _ _ := congrArg (·.bind (·.at? path)) hr

/-- Below a key that only the overlay has. -/
theorem PathLaw.arrived {y : Value} (hb : base.get? key = none) (ho : overlay.get? key = some y)
    (hr : result.get? key = some y) :
    PathLaw (mapping base) (mapping overlay) (mapping result) (key :: path) where
  added z hz _ := by rw [at?_mapping_some hr, ← at?_mapping_some ho, hz]
  met x z hx _ := by rw [at?_mapping_none hb] at hx; cases hx
  cleared h _ := by rw [at?_mapping_some hr, ← at?_mapping_some ho, h]
  kept h _ := by rw [at?_mapping_some hr, at?_mapping_none hb, ← at?_mapping_some ho, h]

/-- Below a key that both have, the law is that of what they have there. -/
theorem PathLaw.below {x y z : Value} (hb : base.get? key = some x)
    (ho : overlay.get? key = some y) (hr : result.get? key = some z) (law : PathLaw x y z path) :
    PathLaw (mapping base) (mapping overlay) (mapping result) (key :: path) := by
  obtain ⟨added, met, cleared, kept⟩ := law
  rw [← at?_mapping_some hb, ← at?_mapping_some ho, ← at?_mapping_some hr] at *
  exact ⟨added, met, fun h above => cleared h ((nullAbove_mapping ho).1 above),
    fun h clear => kept h fun above => clear ((nullAbove_mapping ho).2 above)⟩

end Below

/-- **Merging along a path.** -/
theorem at?_merge {u v w : Value} (distinct : v.Distinct) (merged : merge u v = .ok w)
    (path : List String) : PathLaw u v w path := by
  induction path generalizing u v w with
  | nil =>
    refine ⟨fun y _ hu => ?_, fun x y hx hy => ?_, fun hv _ => ?_, fun hv _ => ?_⟩
    · cases hu
    · cases hx
      cases hy
      exact ⟨w, merged, rfl⟩
    · cases hv
    · cases hv
  | cons key path ih =>
    cases merged_of_merge merged with
    | reset u =>
      refine ⟨fun y hy _ => ?_, fun x y _ hy => ?_, fun _ _ => at?_zero_cons u key path,
        fun _ h => absurd (nullAbove_null key path) h⟩ <;> cases hy
    | fill _ => exact .replace (by simp) key path
    | append items more =>
      refine ⟨fun y hy _ => ?_, fun x y _ hy => ?_, fun _ _ => rfl, fun _ _ => rfl⟩ <;> cases hy
    | scalar _ _ hu _ =>
      refine .replace (fun entries he => ?_) key path
      rw [he] at hu
      cases hu
    | @entries base overlay result hm =>
      -- Whatever stands under the first key, the rest of the path is settled there.
      have place := get?_mergeEntries (distinct_mapping.1 distinct).1 hm key
      cases ho : overlay.get? key with
      | none =>
        rw [ho, overlaid_none_right, Except.ok.injEq] at place
        exact .untouched ho place.symm
      | some y =>
        cases hb : base.get? key with
        | none =>
          rw [ho, hb, overlaid_none_left, Except.ok.injEq] at place
          exact .arrived hb ho place.symm
        | some x =>
          rw [ho, hb, overlaid_some] at place
          cases hxy : merge x y with
          | error conflict => simp [hxy, Except.map] at place
          | ok z =>
            rw [hxy, Except.map, Except.ok.injEq] at place
            exact .below hb ho place.symm (ih (distinct.get? ho) hxy)

/-- **Merging documents along a path.** Where both have something, a scalar of the overlay wins,
items of sequences follow one another, and a null leaves the empty value of what was there. -/
theorem at?_mergeEntries {base overlay result : Entries Value}
    (distinct : (mapping overlay).Distinct) (merged : mergeEntries base overlay = .ok result)
    (path : List String) :
    (∀ v, (mapping overlay).at? path = some v → (mapping base).at? path = none →
      (mapping result).at? path = some v) ∧
    (∀ u v, (mapping base).at? path = some u → (mapping overlay).at? path = some v →
      ∃ w, merge u v = .ok w ∧ (mapping result).at? path = some w ∧
        (v.isScalar = true → v ≠ .null → w = v) ∧
        (∀ items more, u = .sequence items → v = .sequence more → w = .sequence (items ++ more)) ∧
        (v = .null → w = u.zero)) ∧
    ((mapping overlay).at? path = none → (mapping overlay).NullAbove path →
      (mapping result).at? path = none) ∧
    ((mapping overlay).at? path = none → ¬ (mapping overlay).NullAbove path →
      (mapping result).at? path = (mapping base).at? path) := by
  have merged' : merge (mapping base) (mapping overlay) = .ok (mapping result) := by
    rw [merge_mapping, merged]
    rfl
  obtain ⟨added, met, cleared, kept⟩ := at?_merge distinct merged' path
  refine ⟨added, fun u v hu hv => ?_, cleared, kept⟩
  obtain ⟨w, hw, hat⟩ := met u v hu hv
  refine ⟨w, hw, hat, fun hs hn => ?_, fun items more hi hm => ?_, fun hn => ?_⟩
  · cases merged_of_merge hw with
    | reset => exact absurd rfl hn
    | fill => rfl
    | append => cases hs
    | scalar => rfl
    | entries => cases hs
  · subst hi hm
    cases merged_of_merge hw with
    | append => rfl
    | scalar _ _ hs => cases hs
  · subst hn
    cases merged_of_merge hw with
    | reset => rfl
    | fill hv => exact absurd rfl hv
    | scalar _ hv => exact absurd rfl hv

/-- A list two keys deep is appended to, beside a null that clears a mapping. -/
theorem at?_mergeEntries_list_and_null :
    (mapping [("users", .null), ("net", .mapping [("dns", .sequence [.string "b"])])]).Distinct ∧
    ∃ result, mergeEntries
        [("net", .mapping [("dns", .sequence [.string "a"]), ("mtu", .null)]),
          ("users", .mapping [("kairos", .bool true)])]
        [("users", .null), ("net", .mapping [("dns", .sequence [.string "b"])])] = .ok result ∧
      (mapping result).at? ["net", "dns"] = some (.sequence [.string "a", .string "b"]) ∧
      (mapping result).at? ["users", "kairos"] = none ∧
      (mapping result).at? ["net", "mtu"] = some .null := by
  have distinct : (mapping
      [("users", .null), ("net", .mapping [("dns", .sequence [.string "b"])])]).Distinct := by
    simp [Distinct, DistinctItems, DistinctEntries, Entries.keys]
  have merged : mergeEntries
      [("net", .mapping [("dns", .sequence [.string "a"]), ("mtu", .null)]),
        ("users", .mapping [("kairos", .bool true)])]
      [("users", .null), ("net", .mapping [("dns", .sequence [.string "b"])])] =
    .ok [("net", .mapping [("dns", .sequence [.string "a", .string "b"]), ("mtu", .null)]),
      ("users", .mapping [])] := rfl
  refine ⟨distinct, _, merged, ?_, ?_, ?_⟩
  · have along := at?_mergeEntries distinct merged ["net", "dns"]
    obtain ⟨w, -, hat, -, appended, -⟩ := along.2.1 _ _ rfl rfl
    rw [appended _ _ rfl rfl] at hat
    exact hat
  · have along := at?_mergeEntries distinct merged ["users", "kairos"]
    exact along.2.2.1 rfl ⟨["users"], ["kairos"], rfl, by simp, rfl⟩
  · have along := at?_mergeEntries distinct merged ["net", "mtu"]
    apply along.2.2.2 rfl
    rw [nullAbove_cons (by simp)]
    rintro ⟨w, hw, above⟩
    cases hw
    obtain ⟨x, hx, -⟩ := (nullAbove_cons (by simp) "mtu" []).1 above
    cases hx

end Provision.Value
