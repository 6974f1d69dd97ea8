import Provision.Proofs.Yaml.DecidedTokens
import Provision.Proofs.Yaml.RoundTrip

/-!
# Text behind the first document

A document that was written and the marker of another one are read before anything that follows the
marker is looked at:

* **the marker** — it closes whatever the writer leaves open, and no key is pending behind it
  (`Stands.documentStart`), so that the tokens so far are decided (`Keeps.of_tokens`);
* **the tokens** — whatever comes then, the tokens of the stream start with these
  (`tokens_document_append`);
* **the value** — the grammar looks at no token behind the marker, so that the value comes back
  (`reads_first_document`).
-/

namespace Provision

namespace Yaml

open TokenReader Writing

theorem streamText_document_append (v : Value) (u : List Char) :
    streamText (document v ++ "---\n".toList ++ u) =
      document v ++ '-' :: '-' :: '-' :: '\n' :: streamText u := by
  have hclean : ∀ x ∈ document v ++ "---\n".toList, x ≠ '\x00' ∧ x ≠ '\r' :=
    List.forall_mem_append.2 ⟨fun x hx => (isShown_document v x hx).ne, by simp⟩
  rw [streamText_append hclean, List.append_assoc]
  rfl

/-- The tokens of a written document and of the marker behind it, whatever follows. -/
theorem tokens_document_append {v : Value} (short : v.Everywhere Value.HasShortKeys)
    (u : List Char) :
    ∃ more, tokens (document v ++ "---\n".toList ++ u) =
      valueTokens v ++ .documentStart :: more := by
  let tail : List Char := '-' :: '-' :: '-' :: '\n' :: streamText u
  have hgap := skipGap?_spaces (-1) (document v ++ tail).length (n := 0)
    (c := { rest := document v ++ tail }) rfl (startsToken_document v tail)
  obtain ⟨r, s, known, hr, hsize, hstands, hknown, hrun⟩ := exists_run_of_gap short hgap rfl rfl
    (.cons (by decide) (by decide) _) (.marker rfl)
  obtain ⟨r', hact, hended, hindex, hcursor, hpending, houter, htokens⟩ :=
    hstands.documentStart rfl
  obtain ⟨-, hrun'⟩ := run_eq_of_act hr hact hended hindex hcursor hsize
  obtain ⟨more, hmore⟩ := (Keeps.of_tokens hpending houter htokens).exists_run _
  refine ⟨more, ?_⟩
  unfold tokens
  rw [streamText_document_append, hrun, hrun', hmore, hknown]
  simp

end Yaml

/-- What follows the marker of another document, well-formed or not, does not change what the first
one is read as. -/
theorem reads_first_document (v : Value) (distinct : v.Distinct)
    (numbers : v.Everywhere Value.IsNumber) (short : v.Everywhere Value.HasShortKeys)
    (unmarked : v.toYaml.toList.head? ≠ some '\uFEFF') (u : String) :
    Value.ofYaml (v.toYaml ++ "---\n" ++ u) = .ok v.sorted ∧ v.sorted.same v = true := by
  refine ⟨?_, Value.same_sorted distinct numbers⟩
  have hlist : (v.toYaml ++ "---\n" ++ u).toList =
      Yaml.Writing.document v.sorted ++ "---\n".toList ++ u.toList := by
    rw [String.toList_append, String.toList_append, Value.toList_toYaml]
  have hmark : (v.toYaml ++ "---\n" ++ u).toList.head? ≠ some '\uFEFF' := by
    rw [Value.toList_toYaml] at unmarked
    rw [hlist, List.append_assoc]
    cases hdocument : Yaml.Writing.document v.sorted with
    | nil => simp
    | cons x cs => rwa [hdocument] at unmarked
  obtain ⟨more, hmore⟩ := Yaml.tokens_document_append
    (Value.everywhere_hasShortKeys_sorted short) u.toList
  refine Value.ofYaml_of_events ?_ (Yaml.Writing.value_node distinct.sorted [])
  rw [Yaml.dropByteOrderMark_of_head? hmark, hlist, hmore]
  exact Yaml.events?_valueTokens v.sorted rfl

/-- An open quote and an open bracket behind the marker. -/
theorem reads_first_document_before_open_quote :
    Value.ofYaml ((Value.sequence [.string "12", .mapping [("a: b", .null)]]).toYaml ++ "---\n" ++
        "\"x: [\n... *y") = .ok (.sequence [.string "12", .mapping [("a: b", .null)]]) := by
  have hkey : ∀ key ∈ Entries.keys [("a: b", Value.null)],
      (Yaml.Writing.stringText key.toList).length ≤ Value.keyLimit := by decide
  have hsorted : (Value.sequence [.string "12", .mapping [("a: b", .null)]]).sorted =
      .sequence [.string "12", .mapping [("a: b", .null)]] := by
    have hmapping : (Value.mapping [("a: b", .null)]).sorted = .mapping [("a: b", .null)] := by
      simp [Value.sorted_mapping, Value.sortedEntries, Entries.sorted,
        show Value.null.sorted = .null from rfl]
    rw [Value.sorted_sequence, List.map_cons, List.map_cons, hmapping]
    rfl
  have h := (reads_first_document (.sequence [.string "12", .mapping [("a: b", .null)]])
    (by simp [Value.Distinct, Value.DistinctItems, Value.DistinctEntries, Entries.keys])
    (by simp [Value.Everywhere, Value.EverywhereItems, Value.EverywhereEntries, Value.IsNumber])
    ⟨trivial, trivial, ⟨hkey, trivial, trivial⟩, trivial⟩
    (by
      rw [Value.toList_toYaml, hsorted]
      decide)
    "\"x: [\n... *y").1
  rwa [hsorted] at h

end Provision
