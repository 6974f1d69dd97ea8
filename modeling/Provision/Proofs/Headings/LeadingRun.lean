import Provision.Proofs.Headings.Above

/-!
# The lines that decide the heading

Which heading bytes have depends on their leading run and on nothing else: on the lines down to the
one that names a heading, or to the first one that may not stand above it. The lines are bytes and
need not be text, so that what a line is has to be said of its bytes:

* **lines** — `IsWhite` lines are the encodings of white space, and a line `Names` a heading if it
  is the heading's text with white space behind it; the two tests of a line say just that
  (`ofLine?_eq_some_iff_names`, `standsAbove_iff`);
* **the mark** — a byte order mark is looked for before the first line only, and no line of the run
  starts with one (`dropByteOrderMark_endedLines`);
* **the run** — a `LeadingRun` ends with the line that names the heading
  (`leading_run_decides`).
-/

namespace Provision.Heading

/-! ## Lines of bytes -/

/-- White space in UTF-8. -/
def IsWhite (line : Bytes) : Prop :=
  ∃ blanks : List Char, (∀ x ∈ blanks, Text.isSpace x = true) ∧
    line = Bytes.ofText (String.ofList blanks)

/-- The text of a heading, with nothing but white space behind it. -/
def Names (h : Heading) (line : Bytes) : Prop :=
  ∃ blanks, IsWhite blanks ∧ line = Bytes.ofText h.text ++ blanks

/-- A line that may stand above a heading: it is none itself, and it starts like a comment or is
white space. -/
def StandsAbove (line : Bytes) : Prop :=
  (∀ h : Heading, ¬ Names h line) ∧ (line.head? = some hashByte ∨ IsWhite line)

/-- Characters at the start of white space are white space. -/
theorem IsWhite.of_prefix {line : Bytes} (white : IsWhite line) {cs : List Char}
    (starts : cs.flatMap String.utf8EncodeChar <+: line) : ∀ x ∈ cs, Text.isSpace x = true := by
  obtain ⟨blanks, hblanks, rfl⟩ := white
  obtain ⟨rest, hrest⟩ := starts
  have hblank : cs <+: blanks := by
    have h := Bytes.isPrefix_of_ofText rest hrest.symm
    rwa [String.toList_ofList] at h
  exact fun x hx => hblanks x (hblank.subset hx)

theorem IsWhite.head?_ne {line : Bytes} (white : IsWhite line) : line.head? ≠ some hashByte := by
  intro hhead
  obtain ⟨rest, rfl⟩ := List.head?_eq_some_iff.1 hhead
  have hstarts : ['#'].flatMap String.utf8EncodeChar <+: hashByte :: rest := ⟨rest, rfl⟩
  exact absurd (white.of_prefix hstarts '#' (List.mem_singleton_self _)) (by decide)

theorem Names.head?_eq {h : Heading} {line : Bytes} (names : Names h line) :
    line.head? = some hashByte := by
  obtain ⟨blanks, -, rfl⟩ := names
  cases h <;> rfl

/-- A blank line may stand above a heading. -/
theorem IsWhite.standsAbove {line : Bytes} (white : IsWhite line) : StandsAbove line :=
  ⟨fun _ names => white.head?_ne names.head?_eq, .inr white⟩

theorem ofLine?_eq_some_iff_names (line : Bytes) (h : Heading) :
    ofLine? line = some h ↔ Names h line := by
  constructor
  · intro hline
    obtain ⟨s, hs, -⟩ := Option.bind_eq_some_iff.1 hline
    obtain rfl := Bytes.text?_eq_some_iff.1 hs
    rw [← String.ofList_toList (s := s)] at hline ⊢
    have htrim := (ofLine?_eq_some_iff s.toList h).1 hline
    obtain ⟨blanks, hblanks, hcs⟩ := Text.exists_trimEnd_append s.toList
    refine ⟨_, ⟨blanks, hblanks, rfl⟩, ?_⟩
    rw [hcs, htrim, Bytes.ofText_append]
  · rintro ⟨_, ⟨blanks, hblanks, rfl⟩, rfl⟩
    rw [Bytes.ofText_append, ofLine?_eq_some_iff, Text.trimEnd, List.reverse_append,
      List.dropWhile_append_of_pos fun x hx => hblanks x (List.mem_reverse.1 hx)]
    cases h <;> decide

theorem isFiller_iff_isWhite (line : Bytes) :
    isFiller line = true ↔ line.head? = some hashByte ∨ IsWhite line := by
  rw [isFiller, Bool.or_eq_true, beq_iff_eq, Option.any_eq_true]
  refine or_congr_right ⟨?_, ?_⟩
  · rintro ⟨s, hs, hall⟩
    refine ⟨s.toList, List.all_eq_true.1 hall, ?_⟩
    rw [String.ofList_toList, Bytes.text?_eq_some_iff.1 hs]
  · rintro ⟨blanks, hblanks, rfl⟩
    refine ⟨_, Bytes.text?_ofText _, ?_⟩
    rw [String.toList_ofList]
    exact List.all_eq_true.2 hblanks

theorem standsAbove_iff (line : Bytes) :
    StandsAbove line ↔ ofLine? line = none ∧ isFiller line = true := by
  rw [isFiller_iff_isWhite, Option.eq_none_iff_forall_not_mem]
  simp only [Option.mem_def, ofLine?_eq_some_iff_names]
  rfl

/-! ## The byte order mark -/

/-- A byte that is not of the mark stands behind it, if the mark is there. -/
theorem dropByteOrderMark_append_cons {b : UInt8} (other : b ∉ byteOrderMark) (top rest : Bytes) :
    dropByteOrderMark (top ++ b :: rest) = dropByteOrderMark top ++ b :: rest := by
  have hiff : byteOrderMark <+: top ++ b :: rest ↔ byteOrderMark <+: top := by
    refine ⟨fun h => ?_, fun h => h.trans (List.prefix_append _ _)⟩
    rcases List.prefix_or_prefix_of_prefix h (List.prefix_append top _) with h' | ⟨more, hmore⟩
    · exact h'
    · rw [← hmore, List.prefix_append_right_inj] at h
      cases more with
      | nil => exact ⟨[], by rw [← hmore, List.append_nil, List.append_nil]⟩
      | cons x more =>
        obtain ⟨rfl, -⟩ := List.cons_prefix_cons.1 h
        exact absurd (by rw [← hmore]; simp) other
  by_cases hmark : byteOrderMark <+: top
  · obtain ⟨more, rfl⟩ := hmark
    rw [List.append_assoc, dropByteOrderMark_mark_append, dropByteOrderMark_mark_append]
  · rw [dropByteOrderMark_of_unmarked hmark, dropByteOrderMark_of_unmarked (mt hiff.1 hmark)]

theorem StandsAbove.dropByteOrderMark_eq {line : Bytes} (stands : StandsAbove line) :
    dropByteOrderMark line = line := by
  refine dropByteOrderMark_of_unmarked fun hmark => ?_
  rcases stands.2 with hhead | hwhite
  · obtain ⟨rest, rfl⟩ := List.head?_eq_some_iff.1 hhead
    exact absurd (List.cons_prefix_cons.1 hmark).1 (by decide)
  · have hstarts : ['\uFEFF'].flatMap String.utf8EncodeChar <+: line := hmark
    exact absurd (hwhite.of_prefix hstarts '\uFEFF' (List.mem_singleton_self _)) (by decide)

/-- Lines, each with its end. -/
def endedLines (lines : List Bytes) : Bytes := lines.flatMap (· ++ [lineFeed])

/-- Lines that may stand above a heading put nothing like a mark before the content. -/
theorem dropByteOrderMark_endedLines {above : List Bytes} (stands : ∀ l ∈ above, StandsAbove l)
    {content : Bytes} (unmarked : dropByteOrderMark content = content) :
    dropByteOrderMark (endedLines above ++ content) = endedLines above ++ content := by
  cases above with
  | nil => exact unmarked
  | cons l ls =>
    have hcut : endedLines (l :: ls) ++ content = l ++ lineFeed :: (endedLines ls ++ content) := by
      simp [endedLines]
    rw [hcut, dropByteOrderMark_append_cons (by decide),
      (stands l List.mem_cons_self).dropByteOrderMark_eq]

/-! ## The leading run -/

/-- The lines down to a heading: lines that may stand above it, and the one that names it. -/
structure LeadingRun (h : Heading) (above : List Bytes) (line : Bytes) : Prop where
  unbroken : ∀ l ∈ above, lineFeed ∉ l
  stands : ∀ l ∈ above, StandsAbove l
  line_unbroken : lineFeed ∉ line
  names : Names h line

theorem ofLines?_append {above : List Bytes} (stands : ∀ l ∈ above, StandsAbove l)
    (ls : List Bytes) : ofLines? (above ++ ls) = ofLines? ls := by
  induction above with
  | nil => rfl
  | cons l above ih =>
    obtain ⟨hl, habove⟩ := List.forall_mem_cons.1 stands
    obtain ⟨hnone, hfiller⟩ := (standsAbove_iff l).1 hl
    rw [List.cons_append, ofLines?, hnone]
    dsimp only
    rw [if_pos hfiller, ih habove]

/-- Bytes have a heading if they start with a run of lines that ends with it. -/
theorem ofBytes?_iff_leadingRun (content : Bytes) (h : Heading) :
    ofBytes? content = some h ↔
      ∃ above line below, LeadingRun h above line ∧ (∀ b ∈ below.head?, b = lineFeed) ∧
        dropByteOrderMark content = endedLines above ++ (line ++ below) := by
  rw [ofBytes?, ofLines?_iff_run]
  simp only [ofLine?_eq_some_iff_names, ← standsAbove_iff]
  constructor
  · rintro ⟨above, line, below, hlines, habove, hline⟩
    obtain ⟨hunbroken, hended, rest, hcut, hrest⟩ :=
      Text.exists_pieces_eq_append_cons_iff.1 ⟨below, hlines⟩
    exact ⟨above, line, rest, ⟨hunbroken, habove, hended, hline⟩, hrest, hcut⟩
  · rintro ⟨above, line, rest, hrun, hrest, hcut⟩
    obtain ⟨below, hlines⟩ := Text.exists_pieces_eq_append_cons_iff.2
      ⟨hrun.unbroken, hrun.line_unbroken, rest, hcut, hrest⟩
    exact ⟨above, line, below, hlines, hrun.stands, hrun.names⟩

/-- Lines that may stand above a heading change nothing in front of bytes without a mark. -/
theorem ofBytes?_endedLines_append {content : Bytes} (unmarked : ¬ byteOrderMark <+: content)
    {above : List Bytes} (stands : ∀ l ∈ above, lineFeed ∉ l ∧ StandsAbove l) :
    ofBytes? (endedLines above ++ content) = ofBytes? content := by
  have hcontent := dropByteOrderMark_of_unmarked unmarked
  have habove : ∀ l ∈ above, StandsAbove l := fun l hl => (stands l hl).2
  rw [ofBytes?, dropByteOrderMark_endedLines habove hcontent, endedLines,
    Text.pieces_lines fun l hl => (stands l hl).1, ofLines?_append habove, ofBytes?, hcontent]

/-- What follows the line of the heading does not matter. -/
theorem LeadingRun.ofBytes?_eq {h : Heading} {above : List Bytes} {line : Bytes}
    (run : LeadingRun h above line) {top below : Bytes}
    (above_eq : dropByteOrderMark top = endedLines above)
    (ended : ∀ b ∈ below.head?, b = lineFeed) : ofBytes? (top ++ (line ++ below)) = some h := by
  refine (ofBytes?_iff_leadingRun _ h).2 ⟨above, line, below, run, ended, ?_⟩
  -- The line starts with the character of comments, so a mark before it is in what is above.
  obtain ⟨rest, rfl⟩ := List.head?_eq_some_iff.1 run.names.head?_eq
  rw [List.cons_append, dropByteOrderMark_append_cons (by decide), above_eq]

/-- The first line that is not blank is a heading or a comment, or there is no heading. -/
theorem ofBytes?_eq_none_of_shown {content : Bytes} {blanks : List Bytes} {line below : Bytes}
    (cut : dropByteOrderMark content = endedLines blanks ++ (line ++ below))
    (white : ∀ l ∈ blanks, lineFeed ∉ l ∧ IsWhite l) (unbroken : lineFeed ∉ line)
    (shown : ¬ IsWhite line) (hash : line.head? ≠ some hashByte)
    (ended : ∀ b ∈ below.head?, b = lineFeed) : ofBytes? content = none := by
  obtain ⟨more, hlines⟩ := Text.exists_pieces_eq_append_cons_iff.2
    ⟨fun l hl => (white l hl).1, unbroken, below, cut, ended⟩
  have hnone : ofLine? line = none := by
    rw [Option.eq_none_iff_forall_not_mem]
    exact fun h hh => hash ((ofLine?_eq_some_iff_names line h).1 hh).head?_eq
  have hfiller : ¬ isFiller line = true := by
    rw [isFiller_iff_isWhite, not_or]
    exact ⟨hash, shown⟩
  rw [ofBytes?, hlines, ofLines?_append fun l hl => (white l hl).2.standsAbove, ofLines?, hnone]
  dsimp only
  rw [if_neg hfiller]

/-- The leading run decides which heading bytes have: a heading is the line that ends the run (1);
lines that may stand above a heading may be put in front (2); what follows the line of the heading
may be replaced (3); and without a comment or a heading as the first line that is not blank there
is no heading (4). -/
theorem leading_run_decides :
    (∀ content h, ofBytes? content = some h ↔
      ∃ above line below, LeadingRun h above line ∧ (∀ b ∈ below.head?, b = lineFeed) ∧
        dropByteOrderMark content = endedLines above ++ (line ++ below)) ∧
    (∀ content above, ¬ byteOrderMark <+: content →
      (∀ l ∈ above, lineFeed ∉ l ∧ StandsAbove l) →
      ofBytes? (endedLines above ++ content) = ofBytes? content) ∧
    (∀ h top above line below below', dropByteOrderMark top = endedLines above →
      LeadingRun h above line → (∀ b ∈ below.head?, b = lineFeed) →
      (∀ b ∈ below'.head?, b = lineFeed) →
      ofBytes? (top ++ (line ++ below')) = ofBytes? (top ++ (line ++ below))) ∧
    (∀ content blanks line below,
      dropByteOrderMark content = endedLines blanks ++ (line ++ below) →
      (∀ l ∈ blanks, lineFeed ∉ l ∧ IsWhite l) → lineFeed ∉ line → ¬ IsWhite line →
      line.head? ≠ some hashByte → (∀ b ∈ below.head?, b = lineFeed) →
      ofBytes? content = none) := by
  refine ⟨ofBytes?_iff_leadingRun, ?_, ?_, ?_⟩
  · intro content above unmarked stands
    exact ofBytes?_endedLines_append unmarked stands
  · intro h top above line below below' htop run hbelow hbelow'
    rw [run.ofBytes?_eq htop hbelow, run.ofBytes?_eq htop hbelow']
  · intro content blanks line below hcut hwhite hline hshown hhash hbelow
    exact ofBytes?_eq_none_of_shown hcut hwhite hline hshown hhash hbelow

/-- Bytes that are no text: in a comment above the heading, behind the heading, and as the first
line that is not blank. -/
theorem leading_run_decides_not_text :
    ofBytes? (endedLines [[hashByte, 0xFF]] ++ Bytes.ofText "#node-config") =
        ofBytes? (Bytes.ofText "#node-config") ∧
      ofBytes? (byteOrderMark ++ [lineFeed] ++ (Bytes.ofText "#node-config\r" ++
          [lineFeed, 0xFF])) =
        ofBytes? (byteOrderMark ++ [lineFeed] ++ (Bytes.ofText "#node-config\r" ++ [])) ∧
      ofBytes? ([0xC2, 0xA0, lineFeed] ++ ([0xFF] ++ Bytes.ofText "\n#node-config")) = none := by
  refine ⟨leading_run_decides.2.1 _ _ (by decide) ?_, leading_run_decides.2.2.1 .nodeConfig
    _ [[]] _ _ _ rfl ⟨?_, ?_, by decide, ?_⟩ nofun (by rintro b ⟨⟩; rfl),
    leading_run_decides.2.2.2 _ [[0xC2, 0xA0]] _ (Bytes.ofText "\n#node-config") rfl ?_
      (by decide) ?_ (by decide) (by rintro b ⟨⟩; rfl)⟩
  · refine List.forall_mem_singleton.2 ⟨by decide, (standsAbove_iff _).2 ?_⟩
    decide +kernel
  · exact List.forall_mem_singleton.2 List.not_mem_nil
  · exact List.forall_mem_singleton.2 (IsWhite.standsAbove ⟨[], nofun, rfl⟩)
  · exact ⟨_, ⟨['\r'], List.forall_mem_singleton.2 rfl, rfl⟩, rfl⟩
  · exact List.forall_mem_singleton.2 ⟨by decide, ['\u00a0'],
      List.forall_mem_singleton.2 rfl, rfl⟩
  · intro white
    exact absurd ((isFiller_iff_isWhite _).2 (.inr white)) (by decide +kernel)

end Provision.Heading
