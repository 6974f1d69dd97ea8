import Provision.Proofs.Headings.Written
import Provision.Proofs.Yaml.Fillers
import Provision.Proofs.Yaml.RoundTrip

/-!
# What stands above a heading

A heading is found below lines that are comments or white space (`Heading.ofBytes?_iff_cutAt`). The
reader of documents takes those lines for filler as well where it cuts them at the same places and
knows their white space: the part of the text above the heading then is read as null.

The two disagree about two things. The reader of documents ends a line at a carriage return, too, so
that a comment may go on as content; and of white space it knows blanks only, so that a line with
other white space on it is content. Either way a heading may stand below content.
-/

namespace Provision

namespace Text

/-- A text whose last piece is empty is made of lines that are ended. -/
theorem exists_lines_of_getLast? {cs : List Char} (h : (pieces '\n' cs).getLast? = some []) :
    ∃ ls, (∀ l ∈ ls, '\n' ∉ l) ∧ cs = ls.flatMap (· ++ ['\n']) ∧ pieces '\n' cs = ls ++ [[]] := by
  obtain ⟨ls, hls⟩ := List.getLast?_eq_some_iff.1 h
  have hunbroken : ∀ l ∈ ls, '\n' ∉ l := fun l hl =>
    separator_notMem_of_mem_pieces (by rw [hls]; exact List.mem_append_left _ hl)
  refine ⟨ls, hunbroken, ?_, hls⟩
  have hpieces := pieces_lines hunbroken []
  rw [List.append_nil] at hpieces
  rw [← join_pieces '\n' cs, hls, ← join_pieces '\n' (ls.flatMap _), hpieces]
  rfl

end Text

namespace Heading

/-- Whether a line of text may stand above a heading: it is none itself, and it starts like a
comment or is white space. -/
def MayStandAbove (line : List Char) : Prop :=
  (∀ h : Heading, Text.trimEnd line ≠ h.text.toList) ∧
    (line.head? = some '#' ∨ ∀ x ∈ line, Text.isSpace x = true)

/-- A text is cut at its heading: `top` is what stands above the line of the heading, a mark of the
byte order included, and `below` what stands behind that line. -/
structure CutAt (text : List Char) (h : Heading) (top line below : List Char) : Prop where
  text_eq : text = top ++ (line ++ below)
  top_ended : (Text.pieces '\n' (Yaml.dropByteOrderMark top)).getLast? = some []
  top_above : ∀ l ∈ Text.pieces '\n' (Yaml.dropByteOrderMark top), MayStandAbove l
  heading : Text.trimEnd line = h.text.toList
  unbroken : '\n' ∉ line
  line_ended : ∀ x ∈ below.head?, x = '\n'

theorem eq_of_text {h k : Heading} (same : h.text.toList = k.text.toList) : h = k := by
  cases h <;> cases k <;> first | rfl | exact absurd same (by decide)

theorem ofLine?_eq_some_iff (line : List Char) (h : Heading) :
    ofLine? (Bytes.ofText (String.ofList line)) = some h ↔
      Text.trimEnd line = h.text.toList := by
  rw [ofLine?_ofText, String.toList_ofList]
  constructor
  · intro hfind
    have htext := List.find?_some hfind
    exact (beq_iff_eq.1 htext).symm
  · intro htext
    have hsome : (all.find? fun k => k.text.toList == Text.trimEnd line).isSome := by
      rw [List.find?_isSome]
      exact ⟨h, by cases h <;> decide, beq_iff_eq.2 htext.symm⟩
    obtain ⟨k, hk⟩ := Option.isSome_iff_exists.1 hsome
    have hkey := List.find?_some hk
    rw [hk, eq_of_text ((beq_iff_eq.1 hkey).trans htext)]

theorem ofLine?_eq_none_iff (line : List Char) :
    ofLine? (Bytes.ofText (String.ofList line)) = none ↔
      ∀ h : Heading, Text.trimEnd line ≠ h.text.toList := by
  simp only [Option.eq_none_iff_forall_not_mem, Option.mem_def, ofLine?_eq_some_iff, ne_eq]

theorem isFiller_iff (line : List Char) :
    isFiller (Bytes.ofText (String.ofList line)) = true ↔
      line.head? = some '#' ∨ ∀ x ∈ line, Text.isSpace x = true := by
  simp [isFiller_ofText]

/-- The heading of a text is looked for among its lines. -/
theorem ofBytes?_ofText (s : String) :
    ofBytes? (Bytes.ofText s) =
      ofLines? ((Text.pieces '\n' (Yaml.dropByteOrderMark s.toList)).map fun line =>
        Bytes.ofText (String.ofList line)) := by
  by_cases hmark : s.toList.head? = some '\uFEFF'
  · obtain ⟨cs, hcs⟩ := List.head?_eq_some_iff.1 hmark
    have hs : s = String.ofList ('\uFEFF' :: cs) := by rw [← hcs, String.ofList_toList]
    rw [hs, ofBytes?, dropByteOrderMark_ofText_mark, Text.pieces_ofText, String.toList_ofList,
      String.toList_ofList]
    rfl
  · rw [ofBytes?, dropByteOrderMark_ofText hmark, Text.pieces_ofText,
      Yaml.dropByteOrderMark_of_head? hmark]

/-- A line may stand above a heading if it is filler and no heading. -/
theorem mayStandAbove_iff (line : List Char) :
    MayStandAbove line ↔ ofLine? (Bytes.ofText (String.ofList line)) = none ∧
      isFiller (Bytes.ofText (String.ofList line)) = true := by
  rw [ofLine?_eq_none_iff, isFiller_iff]
  rfl

/-- The heading among lines of text is the first line that is one. -/
theorem ofLines?_eq_some_iff (ls : List (List Char)) (h : Heading) :
    ofLines? (ls.map fun line => Bytes.ofText (String.ofList line)) = some h ↔
      ∃ above line below, ls = above ++ line :: below ∧ (∀ l ∈ above, MayStandAbove l) ∧
        Text.trimEnd line = h.text.toList := by
  rw [ofLines?_iff_run]
  constructor
  · rintro ⟨_, _, _, hls, habove, hline⟩
    obtain ⟨above, _, rfl, rfl, hrest⟩ := List.map_eq_append_iff.1 hls
    obtain ⟨line, below, rfl, rfl, rfl⟩ := List.map_eq_cons_iff.1 hrest
    rw [List.forall_mem_map] at habove
    exact ⟨above, line, below, rfl, fun l hl => (mayStandAbove_iff l).2 (habove l hl),
      (ofLine?_eq_some_iff line h).1 hline⟩
  · rintro ⟨above, line, below, rfl, habove, hline⟩
    refine ⟨_, _, _, List.map_append, ?_, (ofLine?_eq_some_iff line h).2 hline⟩
    rw [List.forall_mem_map]
    exact fun l hl => (mayStandAbove_iff l).1 (habove l hl)

/-! ## The text above a heading -/

theorem mayStandAbove_nil : MayStandAbove [] :=
  ⟨fun h => by cases h <;> decide, .inr nofun⟩

/-- A heading starts with the character of comments. -/
theorem head?_of_trimEnd {line : List Char} {h : Heading}
    (heading : Text.trimEnd line = h.text.toList) : line.head? = some '#' := by
  obtain ⟨more, hmore⟩ := Text.trimEnd_prefix line
  rw [← hmore, heading]
  cases h <;> rfl

/-- A byte order mark stands above the heading. -/
theorem dropByteOrderMark_append {top line : List Char} (hash : line.head? = some '#')
    (below : List Char) :
    Yaml.dropByteOrderMark (top ++ (line ++ below)) =
      Yaml.dropByteOrderMark top ++ (line ++ below) := by
  obtain ⟨rest, rfl⟩ := List.head?_eq_some_iff.1 hash
  cases top with
  | nil => rfl
  | cons x top =>
    by_cases hx : x = '\uFEFF'
    · subst hx
      rfl
    · rw [Yaml.dropByteOrderMark_of_head? (by simpa using hx),
        Yaml.dropByteOrderMark_of_head? (by simpa using hx)]

/-- Where a text is cut at its heading, its lines are those above, the heading and those below. -/
theorem CutAt.pieces_eq {text top line below : List Char} {h : Heading}
    (cut : CutAt text h top line below) :
    ∃ above more, Text.pieces '\n' (Yaml.dropByteOrderMark text) = above ++ line :: more ∧
      Text.pieces '\n' (Yaml.dropByteOrderMark top) = above ++ [[]] := by
  obtain ⟨ls, hunbroken, htop, hpieces⟩ := Text.exists_lines_of_getLast? cut.top_ended
  have htext : Yaml.dropByteOrderMark text =
      ls.flatMap (· ++ ['\n']) ++ (line ++ below) := by
    rw [cut.text_eq, dropByteOrderMark_append (head?_of_trimEnd cut.heading), htop]
  obtain ⟨more, hmore⟩ := Text.exists_pieces_eq_append_cons_iff.2
    ⟨hunbroken, cut.unbroken, below, htext, cut.line_ended⟩
  exact ⟨ls, more, hmore, hpieces⟩

/-- A text is its byte order mark, if it has one, and the rest. -/
theorem exists_mark (text : List Char) :
    ∃ mark, text = mark ++ Yaml.dropByteOrderMark text ∧
      (mark = ['\uFEFF'] ∨ mark = [] ∧ text.head? ≠ some '\uFEFF') := by
  by_cases hmark : text.head? = some '\uFEFF'
  · obtain ⟨cs, rfl⟩ := List.head?_eq_some_iff.1 hmark
    exact ⟨_, rfl, .inl rfl⟩
  · exact ⟨[], (Yaml.dropByteOrderMark_of_head? hmark).symm, .inr ⟨rfl, hmark⟩⟩

/-- A text among whose lines a heading is found is cut there. -/
theorem exists_cutAt {text : List Char} {h : Heading} {above below : List (List Char)}
    {line : List Char}
    (lines : Text.pieces '\n' (Yaml.dropByteOrderMark text) = above ++ line :: below)
    (filler : ∀ l ∈ above, MayStandAbove l) (heading : Text.trimEnd line = h.text.toList) :
    ∃ top rest, CutAt text h top line rest := by
  obtain ⟨hunbroken, hline, rest, hcut, hended⟩ :=
    Text.exists_pieces_eq_append_cons_iff.1 ⟨below, lines⟩
  obtain ⟨mark, htext, hmark⟩ := exists_mark text
  have htop : Text.pieces '\n' (above.flatMap (· ++ ['\n'])) = above ++ [[]] := by
    have := Text.pieces_lines hunbroken []
    rwa [List.append_nil] at this
  -- Without its mark the text starts with these lines, and so they are no mark themselves.
  have hdrop : Yaml.dropByteOrderMark (mark ++ above.flatMap (· ++ ['\n'])) =
      above.flatMap (· ++ ['\n']) := by
    rcases hmark with rfl | ⟨rfl, hnone⟩
    · rfl
    · rw [List.nil_append]
      refine Yaml.dropByteOrderMark_of_head? fun h => hnone ?_
      rw [htext, hcut, List.nil_append, List.head?_append, h]
      rfl
  refine ⟨mark ++ above.flatMap (· ++ ['\n']), rest, ?_, ?_, ?_, heading, hline, hended⟩
  · rw [List.append_assoc, ← hcut]
    exact htext
  · rw [hdrop, htop, List.getLast?_concat]
  · rw [hdrop, htop]
    exact List.forall_mem_append.2 ⟨filler, List.forall_mem_singleton.2 mayStandAbove_nil⟩

/-- A text has a heading if it can be cut there, and then the part above the heading is read as null
where each line of it, cut at its carriage returns, is blanks or a comment. -/
theorem ofBytes?_iff_cutAt (s : String) (h : Heading) :
    ofBytes? (Bytes.ofText s) = some h ↔
      ∃ top line below, CutAt s.toList h top line below ∧
        ((∀ part ∈ Yaml.lineParts (Yaml.dropByteOrderMark top), Yaml.IsFillerLine part) →
          Value.ofYaml (String.ofList top) = .ok .null) := by
  rw [ofBytes?_ofText, ofLines?_eq_some_iff]
  constructor
  · rintro ⟨above, line, below, hlines, habove, hline⟩
    obtain ⟨top, rest, hcut⟩ := exists_cutAt hlines habove hline
    refine ⟨top, line, rest, hcut, fun hparts => Value.ofYaml_of_fillers fun l hl => ?_⟩
    rw [String.toList_ofList] at hl
    exact Yaml.isFillerLine_of_mem_lines hl hparts
  · rintro ⟨top, line, below, hcut, -⟩
    obtain ⟨above, more, hlines, htop⟩ := hcut.pieces_eq
    refine ⟨above, line, more, hlines, fun l hl => hcut.top_above l ?_, hcut.heading⟩
    rw [htop]
    exact List.mem_append_left _ hl

/-- Comments that end with a carriage return and blanks are filler for both readers. -/
example : ofBytes? (Bytes.ofText "# note\r\n \t\r\n#node-config\n") = some .nodeConfig ∧
    ∀ part ∈ Yaml.lineParts "# note\r\n \t\r\n".toList, Yaml.IsFillerLine part := by
  decide +kernel

/-- A carriage return ends the comment above a heading for the reader of documents only. -/
example : ofBytes? (Bytes.ofText "# note\rname: a\n#node-config\n") = some .nodeConfig ∧
    Value.ofYaml "# note\rname: a\n" = .ok (.mapping [("name", .string "a")]) := by
  cbv

/-- A line with a space that is no blank is white space above a heading, but it is content. -/
example : ofBytes? (Bytes.ofText "\u00a0\n#node-config\n") = some .nodeConfig ∧
    Value.ofYaml "\u00a0\n" = .ok (.string "\u00a0") := by
  cbv

end Heading

end Provision
