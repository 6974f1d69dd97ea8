import Provision.Gather.BootLine
import Provision.Proofs.Yaml.RoundTrip

/-!
# Boot documents are read back

The document of a boot command line is written as a text, and read from it like that of any other
source. What holds of strings and truth values, and of a mapping into which such a value is put,
holds of everything that a line assigns (`BootLine.entries_induction`). So no line makes a key twice
or a number, and a document comes back from its text, whatever characters are in it and however long
its values are, if its keys are short enough for the reader (`BootLine.ofText_document`).
-/

namespace Provision.BootLine

open Value (IsNumber HasShortKeys)

/-- A property of values that a mapping has if everything put into it has it. -/
structure Hereditary (p : Value → Prop) : Prop where
  empty : p (.mapping [])
  put {entries : Entries Value} {key : String} {v : Value} :
    p (.mapping entries) → p v → p (.mapping (entries.put key v))
  get {entries : Entries Value} {key : String} {v : Value} :
    p (.mapping entries) → entries.get? key = some v → p v

theorem hereditary_distinct : Hereditary Value.Distinct where
  empty := ⟨List.nodup_nil, trivial⟩
  put h hv := h.put _ hv
  get h hget := h.get? hget

theorem hereditary_numbers : Hereditary (Value.Everywhere IsNumber) where
  empty := ⟨nofun, trivial⟩
  put h hv := by
    rw [Value.everywhere_mapping] at h ⊢
    refine ⟨nofun, fun e he => ?_⟩
    rcases Entries.mem_of_mem_put he with rfl | he
    · exact hv
    · exact h.2 e he
  get h hget := (Value.everywhere_mapping.1 h).2 _ (Entries.mem_of_get? hget)

/-! ## Assignments -/

section Assignments

variable {p : Value → Prop} (hereditary : Hereditary p)

include hereditary in
/-- Assigning at a path keeps what putting under a key keeps. -/
theorem assign_induction {v : Value} (hv : p v) (path : List String) {entries : Entries Value}
    (h : p (.mapping entries)) : p (.mapping (assign v path entries)) := by
  induction path generalizing entries with
  | nil => exact h
  | cons key path ih =>
    cases path with
    | nil => exact hereditary.put h hv
    | cons next path =>
      -- What stands in the way is entered if it is a mapping, and gives way to an empty one if not.
      have hinner : p (.mapping (((entries.get? key).bind Value.entries?).getD [])) := by
        cases hkey : entries.get? key with
        | none => exact hereditary.empty
        | some w =>
          have hw := hereditary.get h hkey
          cases w with
          | mapping inner => exact hw
          | _ => exact hereditary.empty
      exact hereditary.put h (ih hinner)

theorem value_assignment? (truth : ∀ b, p (.bool b)) (text : ∀ s, p (.string s)) {word : String}
    {a : Assignment} (h : assignment? word = some a) : p a.value := by
  unfold assignment? at h
  simp only at h
  split at h <;> cases h
  dsimp only
  split
  · exact truth true
  · exact text _

include hereditary in
theorem foldl_assign_induction {as : List Assignment} (has : ∀ a ∈ as, p a.value)
    {entries : Entries Value} (h : p (.mapping entries)) :
    p (.mapping (as.foldl (fun es a => assign a.value a.path es) entries)) := by
  induction as generalizing entries with
  | nil => exact h
  | cons a as ih =>
    rw [List.forall_mem_cons] at has
    exact ih has.2 (assign_induction hereditary has.1 a.path h)

include hereditary in
/-- What holds of truth values and strings, and of the mappings into which they are put, holds of
what a line assigns. -/
theorem entries_induction (truth : ∀ b, p (.bool b)) (text : ∀ s, p (.string s)) (line : String) :
    p (.mapping (entries line)) := by
  refine foldl_assign_induction hereditary (fun a ha => ?_) hereditary.empty
  obtain ⟨word, -, hword⟩ := List.mem_filterMap.1 ha
  exact value_assignment? truth text hword

end Assignments

/-! ## Documents -/

/-- No line assigns a key twice. -/
theorem distinct_document (line : String) : (document line).toValue.Distinct :=
  entries_induction hereditary_distinct (fun _ => trivial) (fun _ => trivial) line

/-- No line assigns a number. -/
theorem numbers_document (line : String) : (document line).toValue.Everywhere IsNumber :=
  entries_induction hereditary_numbers (fun _ => nofun) (fun _ => nofun) line

/-- The document of a line is read back from its text, if no key in it is too long in writing. -/
theorem ofText_document (line : String) (short : (document line).toValue.Everywhere HasShortKeys) :
    ∃ d, Document.ofText (document line).toText = .ok d ∧
      d.toValue.same (document line).toValue = true :=
  ⟨_, Document.ofText_toText (distinct_document line) short,
    Value.same_sorted (distinct_document line) (numbers_document line)⟩

/-- A quoted value with a colon, a path, and a key that would start a comment come back. -/
theorem ofText_document_quotes_and_path :
    ∃ d, Document.ofText (document "a.b=\"x: y\" quiet '#'=\t7").toText = .ok d ∧
      d.toValue.same (.mapping [("a", .mapping [("b", .string "x: y")]), ("quiet", .bool true),
        ("#", .string ""), ("7", .bool true)]) = true := by
  have hentries : entries "a.b=\"x: y\" quiet '#'=\t7" =
      [("a", .mapping [("b", .string "x: y")]), ("quiet", .bool true), ("#", .string ""),
        ("7", .bool true)] := rfl
  have hshort : (document "a.b=\"x: y\" quiet '#'=\t7").toValue.Everywhere HasShortKeys := by
    rw [document, Document.toValue, hentries]
    exact ⟨by decide, ⟨by decide, trivial, trivial⟩, trivial, trivial, trivial, trivial⟩
  obtain ⟨d, hread, hsame⟩ := ofText_document _ hshort
  rw [document, Document.toValue, hentries] at hsame
  exact ⟨d, hread, hsame⟩

end Provision.BootLine
