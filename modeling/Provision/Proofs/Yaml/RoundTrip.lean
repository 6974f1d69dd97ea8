import Provision.Document
import Provision.Proofs.Values.Sorted
import Provision.Proofs.Yaml.Assembling
import Provision.Proofs.Yaml.WrittenDocuments

/-!
# Reading what was written

A canonical text is read as the value that was written, with its entries sorted
(`Value.ofYaml_toYaml`), and so is a document below its heading (`Document.ofText_toText`). Both
need keys that are not too long for the reader. A byte order mark at the start is not read as part
of a text, so that a value whose text starts with one does not come back; a heading keeps it from
the start.
-/

namespace Provision

open Yaml.Writing (document valueTokens)

theorem Yaml.dropByteOrderMark_of_head? {cs : List Char} (h : cs.head? ≠ some '\uFEFF') :
    Yaml.dropByteOrderMark cs = cs := by
  unfold Yaml.dropByteOrderMark
  split
  · exact absurd rfl h
  · rfl

/-- A text with the events of a node is read as what the node says. -/
theorem Value.ofYaml_of_events {text : String} {node : Yaml.Node} {v : Value}
    {anchored : Yaml.Anchored}
    (events : Yaml.events? (Yaml.tokens (Yaml.dropByteOrderMark text.toList)) = some node.events)
    (value : node.value [] = .ok (v, anchored)) : Value.ofYaml text = .ok v := by
  unfold Value.ofYaml
  rw [events]
  show (Yaml.assemble _).mapError _ = _
  rw [Yaml.assemble_events, value]
  rfl

/-- A text with the tokens of a value is read as the value. -/
theorem Value.ofYaml_of_tokens {v : Value} (distinct : v.Distinct) {text : String}
    (h : Yaml.tokens (Yaml.dropByteOrderMark text.toList) = valueTokens v ++ [.streamEnd]) :
    Value.ofYaml text = .ok v := by
  refine Value.ofYaml_of_events ?_ (Yaml.Writing.value_node distinct [])
  rw [h]
  exact Yaml.events?_valueTokens v rfl

theorem Value.toList_toYaml (v : Value) : v.toYaml.toList = document v.sorted :=
  String.toList_ofList

/-- The canonical text of a value is read as the value, its entries sorted. -/
theorem Value.ofYaml_toYaml {v : Value} (distinct : v.Distinct)
    (short : v.Everywhere Value.HasShortKeys) (unmarked : v.toYaml.toList.head? ≠ some '\uFEFF') :
    Value.ofYaml v.toYaml = .ok v.sorted := by
  apply Value.ofYaml_of_tokens distinct.sorted
  rw [Yaml.dropByteOrderMark_of_head? unmarked, Value.toList_toYaml]
  exact Yaml.tokens_document (Value.everywhere_hasShortKeys_sorted short)

/-- Below a heading, the canonical text of a value is read as the same. -/
theorem Value.ofYaml_heading (h : Heading) {v : Value} (distinct : v.Distinct)
    (short : v.Everywhere Value.HasShortKeys) :
    Value.ofYaml (h.text ++ "\n\n" ++ v.toYaml) = .ok v.sorted := by
  obtain ⟨comment, hcomment, hall⟩ : ∃ comment, h.text.toList = '#' :: comment ∧
      comment.all (fun x => !Text.isControl x) = true := by
    cases h <;> exact ⟨_, rfl, by decide⟩
  have hvisible : ∀ x ∈ comment, Text.isControl x = false := by
    intro x hx
    simpa using List.all_eq_true.1 hall x hx
  have hlist : (h.text ++ "\n\n" ++ v.toYaml).toList =
      '#' :: comment ++ '\n' :: '\n' :: document v.sorted := by
    rw [String.toList_append, String.toList_append, hcomment, Value.toList_toYaml]
    simp
  apply Value.ofYaml_of_tokens distinct.sorted
  rw [Yaml.dropByteOrderMark_of_head? (by rw [hlist]; simp), hlist]
  exact Yaml.tokens_heading (Value.everywhere_hasShortKeys_sorted short) hvisible

/-- The text of a document is read as the document, its entries sorted. -/
theorem Document.ofText_toText {d : Document} (distinct : d.toValue.Distinct)
    (short : d.toValue.Everywhere Value.HasShortKeys) :
    Document.ofText d.toText = Document.ofValue d.toValue.sorted := by
  rw [Document.ofText, Document.toText, Value.ofYaml_heading .cloudConfig distinct short]
  rfl

/-- The bytes of a document say its value, if its entries are in order at every depth. -/
theorem Document.value_ofBytes_toText {d : Document} (distinct : d.toValue.Distinct)
    (short : d.toValue.Everywhere Value.HasShortKeys) (ordered : d.toValue.sorted = d.toValue) :
    Value.ofBytes (Bytes.ofText d.toText) = .ok d.toValue := by
  have hread := Value.ofYaml_heading .cloudConfig distinct short
  rw [ordered] at hread
  rw [Value.ofBytes, Bytes.text?_ofText]
  exact hread

/-! ### Documents of scalars -/

/-- The document holds scalars only, under keys that are in order and not too long. -/
structure Document.IsFlat (d : Document) : Prop where
  ordered : d.entries.keys.Pairwise (· < ·)
  short : d.toValue.HasShortKeys
  scalar : ∀ e ∈ d.entries, e.2.isScalar = true

namespace Document.IsFlat

variable {d : Document}

theorem distinct (flat : d.IsFlat) : d.toValue.Distinct :=
  Value.distinct_mapping.2 ⟨flat.ordered.imp fun h => String.ne_of_lt h,
    fun e he => Value.distinct_of_isScalar (flat.scalar e he)⟩

theorem everywhere_short (flat : d.IsFlat) : d.toValue.Everywhere Value.HasShortKeys :=
  Value.everywhere_mapping.2 ⟨flat.short, fun e he =>
    Value.everywhere_of_isScalar (flat.scalar e he)
      (Value.hasShortKeys_of_isScalar (flat.scalar e he))⟩

theorem sorted_eq (flat : d.IsFlat) : d.toValue.sorted = d.toValue :=
  Value.sorted_mapping_of_ordered
    ((List.pairwise_map.1 flat.ordered).imp fun h => Std.le_of_lt h)
    fun e he => Value.sorted_of_isScalar (flat.scalar e he)

/-- A document of scalars comes back from its bytes. -/
theorem value_ofBytes_toText (flat : d.IsFlat) :
    Value.ofBytes (Bytes.ofText d.toText) = .ok d.toValue :=
  Document.value_ofBytes_toText flat.distinct flat.everywhere_short flat.sorted_eq

theorem ofBytes_toText (flat : d.IsFlat) : Document.ofBytes (Bytes.ofText d.toText) = .ok d := by
  rw [Document.ofBytes, flat.value_ofBytes_toText]
  rfl

end Document.IsFlat

/-- Values without a NaN come back equal from their text, and so do documents. -/
theorem reads_back_equal :
    (∀ v : Value, v.Distinct → v.Everywhere Value.IsNumber → v.Everywhere Value.HasShortKeys →
      v.toYaml.toList.head? ≠ some '\uFEFF' →
      Value.ofYaml v.toYaml = .ok v.sorted ∧ v.sorted.same v = true) ∧
    (∀ d : Document, d.toValue.Distinct → d.toValue.Everywhere Value.IsNumber →
      d.toValue.Everywhere Value.HasShortKeys →
      ∃ e, Document.ofText d.toText = .ok e ∧ e.toValue = d.toValue.sorted ∧
        e.toValue.same d.toValue = true) := by
  constructor
  · intro v distinct numbers short unmarked
    exact ⟨Value.ofYaml_toYaml distinct short unmarked, Value.same_sorted distinct numbers⟩
  · intro d distinct numbers short
    exact ⟨_, Document.ofText_toText distinct short, rfl, Value.same_sorted distinct numbers⟩

/-- A string that looks like a number, and a key with a colon in it, come back. -/
theorem reads_back_equal_numeral_and_colon :
    Value.ofYaml (Value.sequence [.string "12", .mapping [("a: b", .null)]]).toYaml =
        .ok (.sequence [.string "12", .mapping [("a: b", .null)]]) ∧
      ∃ e, Document.ofText (Document.toText ⟨[("a: b", .string "12")]⟩) = .ok e ∧
        e.toValue = .mapping [("a: b", .string "12")] := by
  have hkey : ∀ key ∈ Entries.keys [("a: b", Value.null)],
      (Yaml.Writing.stringText key.toList).length ≤ Value.keyLimit := by decide
  have hsorted (v : Value) (h : v.sorted = v) :
      (Value.mapping [("a: b", v)]).sorted = .mapping [("a: b", v)] := by
    simp [Value.sorted_mapping, Value.sortedEntries, Entries.sorted, h]
  constructor
  · have h := (reads_back_equal.1 (.sequence [.string "12", .mapping [("a: b", .null)]])
      (by simp [Value.Distinct, Value.DistinctItems, Value.DistinctEntries, Entries.keys])
      (by simp [Value.Everywhere, Value.EverywhereItems, Value.EverywhereEntries, Value.IsNumber])
      ⟨trivial, trivial, ⟨hkey, trivial, trivial⟩, trivial⟩ (by
        rw [Value.toList_toYaml, Value.sorted_sequence, List.map_cons, List.map_cons, hsorted _ rfl]
        decide)).1
    rw [h, Value.sorted_sequence, List.map_cons, List.map_cons, hsorted _ rfl]
    rfl
  · obtain ⟨e, hread, hvalue, -⟩ := reads_back_equal.2 ⟨[("a: b", .string "12")]⟩
      (by simp [Document.toValue, Value.Distinct, Value.DistinctEntries, Entries.keys])
      (by simp [Document.toValue, Value.Everywhere, Value.EverywhereEntries, Value.IsNumber])
      ⟨hkey, trivial, trivial⟩
    exact ⟨e, hread, hvalue.trans (hsorted _ rfl)⟩

end Provision
