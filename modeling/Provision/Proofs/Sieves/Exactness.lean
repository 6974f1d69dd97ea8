import Provision.Proofs.Sieves.AllowKeys
import Provision.Proofs.Values.Alike

/-!
# What the sieve of keys leaves

The sieve that keeps the listed keys of a mapping takes any bytes:

* **no mapping** — bytes that cannot be read, or say something else, stay as they are;
* **a mapping** — the bytes that are left are read as the entries under listed keys and nothing
  else, below the same heading (`allowKeys_mapping`, `alike_kept`);
* **again** — they have nothing more to lose, and are written in the one way in which the sieve
  writes, so it leaves them as they are (`allowKeys_kept`).
-/

namespace Provision

theorem Entries.restrict_eq_self {α : Type} {keep : String → Bool} {es : Entries α}
    (kept : ∀ key ∈ es.keys, keep key = true) : es.restrict keep = es := by
  apply List.filter_eq_self.2
  intro e he
  exact kept e.1 (List.mem_map_of_mem he)

namespace Sieve

variable {keys : List String} {content : Bytes} {entries : Entries Value}

/-- Nothing is refused. -/
theorem exists_allowKeys (keys : List String) (content : Bytes) :
    ∃ kept, allowKeys keys content = .ok kept := by
  by_cases mapping : ∃ entries, Value.ofBytes content = .ok (.mapping entries)
  · obtain ⟨entries, read⟩ := mapping
    exact ⟨_, allowKeys_of_mapping read⟩
  · have other : ∀ entries, Value.ofBytes content ≠ .ok (.mapping entries) := by
      intro entries read
      exact mapping ⟨entries, read⟩
    exact ⟨content, allowKeys_other keys other⟩

/-- The sorted entries of a mapping. -/
theorem exists_sorted (entries : Entries Value) :
    ∃ es : Entries Value, (Value.mapping entries).sorted = .mapping es ∧
      es.keys.Perm entries.keys := by
  refine ⟨_, Value.sorted_mapping entries, ?_⟩
  have perm := Entries.keys_sorted_perm (Value.sortedEntries entries)
  rwa [Value.keys_sortedEntries] at perm

/-- What is read of the entries that are left is what they held, under each listed key. -/
theorem alike_kept (distinct : (Value.mapping entries).Distinct) {es : Entries Value}
    (sorted : (Value.mapping (entries.restrict keys.contains)).sorted = .mapping es) :
    es.keys.Nodup ∧ ∀ key, Option.Rel Value.Alike (es.get? key)
      (if key ∈ keys then entries.get? key else none) := by
  have kept := distinct.restrict keys.contains
  have hes : (Value.mapping es).Distinct := sorted ▸ kept.sorted
  have nodup := (Value.distinct_mapping.1 hes).1
  have same : (Value.mapping es).sorted =
      (Value.mapping (entries.restrict keys.contains)).sorted := by
    rw [← sorted, Value.sorted_sorted kept]
  refine ⟨nodup, ?_⟩
  intro key
  have alike := (Value.sorted_eq_iff_alike hes kept).1 same
  have held := (Value.alike_mapping_iff nodup (Value.distinct_mapping.1 kept).1).1 alike key
  rw [Entries.get?_restrict] at held
  simpa using held

/-- The sieve leaves what it wrote as it is. -/
theorem allowKeys_kept (unmarked : ∀ key ∈ keys, key.toList.head? ≠ some '\uFEFF')
    (read : Value.ofBytes content = .ok (.mapping entries))
    (short : (Value.mapping entries).Everywhere Value.HasShortKeys) {kept : Bytes}
    (sieved : allowKeys keys content = .ok kept) : allowKeys keys kept = .ok kept := by
  obtain ⟨kept', sieved', heading, again⟩ := allowKeys_mapping unmarked read short
  rw [sieved, Except.ok.injEq] at sieved'
  subst sieved'
  obtain ⟨es, sorted, perm⟩ := exists_sorted (entries.restrict keys.contains)
  have distinct := (Value.distinct_ofBytes read).restrict keys.contains
  rw [sorted] at again
  -- Every key that is left is listed, so a second pass drops nothing.
  have listed : ∀ key ∈ es.keys, keys.contains key = true := by
    intro key hkey
    rw [perm.mem_iff, Entries.keys_restrict] at hkey
    exact (List.mem_filter.1 hkey).2
  have text : (Value.mapping es).toYaml =
      (Value.mapping (entries.restrict keys.contains)).toYaml := by
    apply Value.toYaml_congr
    rw [← sorted, Value.sorted_sorted distinct]
  rw [allowKeys_of_mapping again, heading, Entries.restrict_eq_self listed, ← sieved,
    allowKeys_of_mapping read]
  unfold written
  rw [text]

/-- **The sieve keeps exactly the listed keys.** It refuses nothing. What is no mapping stays as it
is, byte for byte. What is left of a mapping is read as its entries under listed keys, with the
values that they had, has the same heading, and passes the sieve again as it is. -/
theorem allowKeys_exact (keys : List String) (content : Bytes) :
    ∃ kept, allowKeys keys content = .ok kept ∧
      ((∀ entries, Value.ofBytes content ≠ .ok (.mapping entries)) → kept = content) ∧
      ∀ entries, Value.ofBytes content = .ok (.mapping entries) →
        (Value.mapping entries).Everywhere Value.HasShortKeys →
        (∀ key ∈ keys, key.toList.head? ≠ some '\uFEFF') →
        (∃ left : Entries Value, Value.ofBytes kept = .ok (.mapping left) ∧ left.keys.Nodup ∧
          ∀ key, Option.Rel Value.Alike (left.get? key)
            (if key ∈ keys then Entries.get? key entries else none)) ∧
        Heading.ofBytes? kept = Heading.ofBytes? content ∧
        allowKeys keys kept = .ok kept := by
  obtain ⟨kept, sieved⟩ := exists_allowKeys keys content
  refine ⟨kept, sieved, ?_, ?_⟩
  · intro other
    rw [allowKeys_other keys other, Except.ok.injEq] at sieved
    exact sieved.symm
  · intro entries read short unmarked
    obtain ⟨kept', sieved', heading, again⟩ := allowKeys_mapping unmarked read short
    rw [sieved, Except.ok.injEq] at sieved'
    subst sieved'
    obtain ⟨left, sorted, -⟩ := exists_sorted (Entries.restrict keys.contains entries)
    rw [sorted] at again
    exact ⟨⟨left, again, alike_kept (Value.distinct_ofBytes read) sorted⟩, heading,
      allowKeys_kept unmarked read short sieved⟩

/-- One of two keys is left, below a heading that had a comment above it. -/
theorem allowKeys_exact_comment_and_nan :
    let content := Bytes.ofText "# x\n#node-config\nb: .nan\na:\n    - x\n"
    let entries : Entries Value := [("b", .number (.float .nan)), ("a", .sequence [.string "x"])]
    Value.ofBytes content = .ok (.mapping entries) ∧
    (Value.mapping entries).Everywhere Value.HasShortKeys ∧
    (∀ key ∈ ["b"], key.toList.head? ≠ some '\uFEFF') ∧
    ∃ kept left, allowKeys ["b"] content = .ok kept ∧ Value.ofBytes kept = .ok (.mapping left) ∧
      Entries.get? "a" left = none ∧
      Option.Rel Value.Alike (Entries.get? "b" left) (some (.number (.float .nan))) ∧
      Heading.ofBytes? kept = some .nodeConfig ∧ allowKeys ["b"] kept = .ok kept := by
  intro content entries
  have short : (Value.mapping entries).Everywhere Value.HasShortKeys :=
    ⟨by decide, trivial, ⟨trivial, trivial, trivial⟩, trivial⟩
  have read : Value.ofBytes content = .ok (.mapping entries) := by
    have distinct : (Value.mapping entries).Distinct := by
      simp [entries, Value.Distinct, Value.DistinctItems, Value.DistinctEntries, Entries.keys]
    have shown : "# x\n#node-config\nb: .nan\na:\n    - x\n".toList.all
        (fun x => x == '\n' || !Text.isControl x) = true := by decide
    rw [Value.ofBytes, Bytes.text?_ofText]
    apply Value.ofYaml_of_tokens distinct
    -- Both comment lines are a gap before the mapping.
    refine Yaml.tokens_of_gap short ?_ rfl (by decide) (by decide)
    intro x hx
    simpa [Yaml.Writing.IsShown] using List.all_eq_true.1 shown x hx
  have headed : Heading.ofBytes? content = some .nodeConfig := by decide +kernel
  have unmarked : ∀ key ∈ ["b"], key.toList.head? ≠ some '\uFEFF' := by decide
  refine ⟨read, short, unmarked, ?_⟩
  obtain ⟨kept, sieved, -, mapping⟩ := allowKeys_exact ["b"] content
  obtain ⟨⟨left, again, -, held⟩, heading, idempotent⟩ := mapping entries read short unmarked
  refine ⟨kept, left, sieved, again, ?_, held "b", heading.trans headed, idempotent⟩
  have dropped := held "a"
  generalize Entries.get? "a" left = found at dropped ⊢
  cases dropped
  rfl

end Sieve

end Provision
