import Provision.Gather.Sieve
import Provision.Proofs.Headings.Lines
import Provision.Proofs.Values.Sorted
import Provision.Proofs.Yaml.WrittenLines

/-!
# Headings of written documents

A heading that is written above a mapping is found again, and without one none is found
(`Heading.ofBytes?_written`). The text of a mapping starts with a key, which is no comment, and the
line of the key has a colon in it, which no heading has. Only a byte order mark at the start of the
first key could hide that: without it the line may look like a comment, and then it is the next line
that is neither a comment nor blank (`Yaml.Writing.document_mapping_line`).
-/

namespace Provision

/-- Only white space is taken from the end. -/
theorem Text.exists_trimEnd_append (cs : List Char) :
    ∃ blanks, (∀ x ∈ blanks, isSpace x = true) ∧ cs = trimEnd cs ++ blanks := by
  refine ⟨(cs.reverse.takeWhile isSpace).reverse, fun x hx => ?_, ?_⟩
  · exact List.all_eq_true.1 List.all_takeWhile x (List.mem_reverse.1 hx)
  · rw [trimEnd, ← List.reverse_append, List.takeWhile_append_dropWhile, List.reverse_reverse]

theorem Text.trimEnd_prefix (cs : List Char) : Text.trimEnd cs <+: cs := by
  obtain ⟨blanks, -, hcs⟩ := exists_trimEnd_append cs
  exact ⟨blanks, hcs.symm⟩

theorem Text.mem_trimEnd {cs : List Char} {x : Char} (h : x ∈ cs)
    (shown : Text.isSpace x = false) : x ∈ Text.trimEnd cs := by
  obtain ⟨blanks, hblanks, hcs⟩ := exists_trimEnd_append cs
  rw [hcs, List.mem_append] at h
  refine h.resolve_right fun hx => ?_
  rw [hblanks x hx] at shown
  cases shown

namespace Yaml.Writing

/-- A string starts with a quote in writing, or with its own first character. -/
theorem head?_stringText {cs : List Char} {x : Char} (h : (stringText cs).head? = some x) :
    x = '"' ∨ x = '\'' ∨ cs.head? = some x := by
  unfold stringText at h
  split at h
  · cases h
    exact .inl rfl
  · split at h
    · cases h
      exact .inr (.inl rfl)
    · exact .inr (.inr h)

/-- Whether the first line of a text is neither a comment nor blank. -/
def Shows (cs : List Char) : Prop :=
  ∃ start after, cs = start ++ after ∧ '\n' ∉ start ∧ start.head? ≠ some '#' ∧
    start.all Text.isSpace = false

theorem Shows.append {cs : List Char} (h : Shows cs) (after : List Char) : Shows (cs ++ after) := by
  obtain ⟨start, more, rfl, hstart⟩ := h
  exact ⟨start, more ++ after, List.append_assoc _ _ _, hstart⟩

theorem Shows.spaces {cs : List Char} (h : Shows cs) (n : Nat) : Shows (spaces n ++ cs) := by
  obtain ⟨start, more, rfl, hunbroken, hhead, hshown⟩ := h
  refine ⟨Writing.spaces n ++ start, more, (List.append_assoc _ _ _).symm, ?_, ?_, ?_⟩
  · simp [Writing.spaces, hunbroken]
  · cases n with
    | zero => exact hhead
    | succ n => simp [Writing.spaces, List.replicate_succ]
  · rw [List.all_append, hshown, Bool.and_false]

theorem shows_itemLines (column : Nat) (v : Value) (vs : List Value) :
    Shows (itemLines column (v :: vs)) :=
  ⟨['-'], _, rfl, by decide, by decide, by decide⟩

theorem shows_entryLines (column step : Nat) (e : String × Value) (es : List (String × Value)) :
    Shows (entryLines column step (e :: es)) := by
  have hform := scalarText_stringText e.1.toList
  rw [entryLines_cons, entryText_eq, List.append_assoc, List.cons_append,
    List.append_cons]
  refine ⟨_, _, rfl, by simp [hform.unbroken], ?_, ?_⟩
  · obtain ⟨x, text, htext⟩ := List.exists_cons_of_length_pos hform.pos
    have hstart := hform.startsToken []
    rw [htext] at hstart ⊢
    simpa using (hstart x rfl).2
  · simp [show Text.isSpace ':' = false by decide]

theorem shows_block {v : Value} (collection : inlineText? v = none) (column step : Nat) :
    Shows (block column step v) := by
  rcases inlineText?_eq_none_cases collection with ⟨w, ws, rfl⟩ | ⟨e, es, rfl⟩
  · exact shows_itemLines column w ws
  · exact shows_entryLines column step e es

/-- The lines of a mapping: the first one has a colon in it, and the next one, if there is one, is
neither a comment nor blank. -/
theorem document_mapping_line (e : String × Value) (es : Entries Value) :
    ∃ line after, document (.mapping (e :: es)) =
        stringText e.1.toList ++ ':' :: (line ++ '\n' :: after) ∧
      '\n' ∉ line ∧ (after = [] ∨ Shows after) := by
  refine ⟨entryLine e.2, entryBelow 0 indentation e.2 ++
    (if es.isEmpty then [] else spaces 0 ++ entryLines 0 indentation es), ?_,
    unbroken_entryLine e.2, ?_⟩
  · show entryLines 0 indentation (e :: es) = _
    rw [entryLines_cons, entryText_eq]
    simp only [List.append_assoc, List.cons_append]
  · unfold entryBelow
    cases hv : inlineText? e.2 with
    | some text =>
      cases es with
      | nil => exact .inl rfl
      | cons f es => exact .inr (shows_entryLines 0 indentation f es)
    | none => exact .inr (((shows_block hv _ _).spaces _).append _)

/-- The text of a mapping is neither a comment nor blank. -/
theorem shows_document_mapping (entries : Entries Value) : Shows (document (.mapping entries)) := by
  cases entries with
  | nil => exact ⟨['{'], ['}', '\n'], rfl, by decide, by decide, by decide⟩
  | cons e es => exact shows_entryLines 0 indentation e es

end Yaml.Writing

/-- The canonical text of a mapping does not start with a byte order mark unless a key does. -/
theorem Value.head?_toYaml_mapping {entries : Entries Value}
    (unmarked : ∀ key ∈ entries.keys, key.toList.head? ≠ some '\uFEFF') :
    (mapping entries).toYaml.toList.head? ≠ some '\uFEFF' := by
  rw [toYaml, String.toList_ofList, sorted_mapping]
  have hkeys (key : String) (h : key ∈ Entries.keys (Entries.sorted (sortedEntries entries))) :
      key.toList.head? ≠ some '\uFEFF' := by
    rw [(Entries.keys_sorted_perm _).mem_iff, keys_sortedEntries] at h
    exact unmarked key h
  cases hsorted : Entries.sorted (sortedEntries entries) with
  | nil => decide
  | cons e es =>
    obtain ⟨line, after, htext, -⟩ := Yaml.Writing.document_mapping_line e es
    obtain ⟨x, text, hx⟩ :=
      List.exists_cons_of_length_pos (Yaml.Writing.scalarText_stringText e.1.toList).pos
    rw [htext, hx]
    rintro ⟨⟩
    have hhead : (Yaml.Writing.stringText e.1.toList).head? = some '\uFEFF' := by rw [hx]; rfl
    rcases Yaml.Writing.head?_stringText hhead with h | h | h
    · exact absurd h (by decide)
    · exact absurd h (by decide)
    · exact hkeys e.1 (by rw [hsorted]; exact List.mem_cons_self) h

namespace Heading

/-- A heading of its own line is found. -/
theorem ofBytes?_heading (h : Heading) (below : String) :
    ofBytes? (Bytes.ofText (h.text ++ "\n\n" ++ below)) = some h := by
  have hlist : (h.text ++ "\n\n" ++ below).toList =
      h.text.toList ++ '\n' :: '\n' :: below.toList := by
    simp
  have unmarked : (h.text ++ "\n\n" ++ below).toList.head? ≠ some '\uFEFF' := by
    rw [hlist]
    cases h <;> simp [text]
  have clean : '\n' ∉ h.text.toList := by cases h <;> decide
  have hline : ofLine? (Bytes.ofText (String.ofList h.text.toList)) = some h := by
    rw [String.ofList_toList, ofLine?_ofText]
    cases h <;> decide
  rw [ofBytes?, dropByteOrderMark_ofText unmarked, Text.pieces_ofText, hlist,
    Text.pieces_append clean (Text.pieces_separator _ _), List.append_nil, List.map_cons, ofLines?,
    hline]

/-- No line is a heading that does not start like one. -/
theorem ofLine?_eq_none_of_head? {line : List Char} (hash : line.head? ≠ some '#') :
    ofLine? (Bytes.ofText (String.ofList line)) = none := by
  rw [ofLine?_ofText, String.toList_ofList, List.find?_eq_none]
  intro h _ heq
  obtain ⟨rest, hrest⟩ := Text.trimEnd_prefix line
  rw [← beq_iff_eq.1 heq] at hrest
  rw [← hrest] at hash
  cases h <;> exact hash rfl

/-- No line with a colon in it is a heading. -/
theorem ofLine?_eq_none_of_colon {line : List Char} (colon : ':' ∈ line) :
    ofLine? (Bytes.ofText (String.ofList line)) = none := by
  rw [ofLine?_ofText, String.toList_ofList, List.find?_eq_none]
  intro h _ heq
  have hcolon := Text.mem_trimEnd colon (by decide)
  rw [← beq_iff_eq.1 heq] at hcolon
  cases h <;> exact absurd hcolon (by decide)

/-- No heading is found where the first line is neither a comment nor blank. -/
theorem ofLines?_of_shows {cs : List Char} (h : Yaml.Writing.Shows cs) :
    ofLines? ((Text.pieces '\n' cs).map fun line => Bytes.ofText (String.ofList line)) = none := by
  obtain ⟨start, after, rfl, hunbroken, hhead, hshown⟩ := h
  obtain ⟨piece, more, hpieces⟩ := List.exists_cons_of_ne_nil (Text.pieces_ne_nil '\n' after)
  have hhead' : (start ++ piece).head? ≠ some '#' := by
    cases start with
    | nil => cases hshown
    | cons x start => exact hhead
  have hfiller : isFiller (Bytes.ofText (String.ofList (start ++ piece))) = false := by
    rw [isFiller_ofText, String.toList_ofList, List.all_append, hshown, Bool.false_and,
      Bool.or_false]
    simpa using hhead'
  rw [Text.pieces_append hunbroken hpieces, List.map_cons, ofLines?,
    ofLine?_eq_none_of_head? hhead', hfiller]
  rfl

/-- The canonical text of a mapping has no heading. -/
theorem ofBytes?_toYaml_mapping (entries : Entries Value) :
    ofBytes? (Bytes.ofText (Value.mapping entries).toYaml) = none := by
  rw [Value.toYaml, Value.sorted_mapping]
  generalize Entries.sorted (Value.sortedEntries entries) = entries
  have hshows := Yaml.Writing.shows_document_mapping entries
  by_cases hmark : (Yaml.Writing.document (.mapping entries)).head? = some '\uFEFF'
  · cases entries with
    | nil => exact absurd hmark (by decide)
    | cons e es =>
      -- Behind the mark is the rest of the first key, which may look like the start of a comment.
      obtain ⟨line, after, htext, hunbroken, hafter⟩ := Yaml.Writing.document_mapping_line e es
      have hform := Yaml.Writing.scalarText_stringText e.1.toList
      obtain ⟨x, key, hx⟩ := List.exists_cons_of_length_pos hform.pos
      have hclean := hform.unbroken
      rw [htext, hx, List.cons_append, List.head?_cons, Option.some.injEq] at hmark
      subst hmark
      rw [hx, List.mem_cons, not_or] at hclean
      have hcut : '\n' ∉ key ++ ':' :: line := by simp [hclean.2, hunbroken]
      have hlines : Text.pieces '\n' (key ++ ':' :: (line ++ '\n' :: after)) =
          (key ++ ':' :: line) :: Text.pieces '\n' after := by
        have := Text.pieces_append hcut (Text.pieces_separator '\n' after)
        simpa using this
      rw [htext, hx, List.cons_append, ofBytes?, dropByteOrderMark_ofText_mark, Text.pieces_ofText,
        String.toList_ofList, hlines, List.map_cons, ofLines?, ofLine?_eq_none_of_colon (by simp)]
      dsimp only
      split
      · rcases hafter with rfl | hafter
        · decide
        · exact ofLines?_of_shows hafter
      · rfl
  · rw [ofBytes?, dropByteOrderMark_ofText (by rwa [String.toList_ofList]), Text.pieces_ofText,
      String.toList_ofList]
    exact ofLines?_of_shows hshows

/-- The heading that a document is written with is found in it. -/
theorem ofBytes?_written (heading : Option Heading) (entries : Entries Value) :
    ofBytes? (Sieve.written heading entries) = heading := by
  cases heading with
  | some h => exact ofBytes?_heading h _
  | none => exact ofBytes?_toYaml_mapping entries

end Heading

end Provision
