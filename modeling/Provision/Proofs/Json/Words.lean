import Provision.Proofs.Json.Numbers
import Provision.Proofs.Yaml.Gaps

/-!
# Words of JSON texts

The reader takes numbers and the three words of JSON for plain scalars (`WordText`). A plain scalar
goes on over gaps, so it takes the white space behind a word as well, up to the flow mark that
follows inside a collection, or up to the end of the stream (`Yaml.Plain.read?_wordText`).
-/

namespace Provision.Json

/-- A character of words: a letter, a digit, a point or a sign. -/
def isWordChar (c : Char) : Bool := c.isAlphanum || c == '.' || c == '+' || c == '-'

/-- A text that is read as a plain scalar: its characters are those of words, and it starts with a
letter or a digit, perhaps after a minus. -/
structure WordText (w : List Char) : Prop where
  start : ∃ c rest, w = c :: rest ∧
    (c.isAlphanum = true ∨ c = '-' ∧ ∃ d more, rest = d :: more ∧ d.isAlphanum = true)
  chars : ∀ x ∈ w, isWordChar x = true

theorem wordText_number (n : NumberText) : WordText n.text := by
  obtain ⟨c, rest, hbody, hc⟩ := n.exists_body
  have hchars : ∀ x ∈ n.body, isWordChar x = true := by
    intro x hx
    rcases n.chars_body x hx with h | h
    · simp [isWordChar, Char.isAlphanum, h]
    · simp only [List.mem_cons, List.not_mem_nil, or_false] at h
      rcases h with rfl | rfl | rfl | rfl | rfl <;> decide
  have hdigit : c.isAlphanum = true := by simp [Char.isAlphanum, hc]
  rw [hbody] at hchars
  rw [n.text_eq, hbody, Number.withSign]
  cases n.negative
  · exact ⟨⟨c, rest, rfl, .inl hdigit⟩, hchars⟩
  · exact ⟨⟨'-', c :: rest, rfl, .inr ⟨rfl, c, rest, rfl, hdigit⟩⟩,
      List.forall_mem_cons.2 ⟨by decide, hchars⟩⟩

theorem isWordChar_ne {c x : Char} (h : isWordChar c = true) (hx : isWordChar x = false) :
    c ≠ x := by
  rintro rfl
  rw [h] at hx
  cases hx

/-- A character of words separates nothing. -/
theorem isWordChar_inert {c : Char} (h : isWordChar c = true) :
    Yaml.isGap c = false ∧ Yaml.isFlowMark c = false ∧ c ≠ ':' ∧ c ≠ '#' := by
  have hne (x : Char) (hx : isWordChar x = false) : (c == x) = false :=
    beq_eq_false_iff_ne.2 (isWordChar_ne h hx)
  refine ⟨?_, ?_, isWordChar_ne h (by decide), isWordChar_ne h (by decide)⟩
  · simp [Yaml.isGap, Yaml.isBlank, hne ' ' (by decide), hne '\t' (by decide), hne '\n' (by decide)]
  · simp [Yaml.isFlowMark, hne ',' (by decide), hne '[' (by decide), hne ']' (by decide),
      hne '{' (by decide), hne '}' (by decide)]

theorem isWordChar_of_isAlphanum {c : Char} (h : c.isAlphanum = true) : isWordChar c = true := by
  simp [isWordChar, h]

/-- A word is in the stream as it stands. -/
theorem WordText.clean {w : List Char} (h : WordText w) : ∀ x ∈ w, x ≠ '\x00' ∧ x ≠ '\r' :=
  fun x hx =>
    ⟨isWordChar_ne (h.chars x hx) (by decide), isWordChar_ne (h.chars x hx) (by decide)⟩

end Provision.Json

namespace Provision.Yaml.Plain

open Json (WordText isWordChar isWordChar_inert isWordChar_of_isAlphanum)

/-! ## Behind the text -/

/-- What has been read behind the text of a plain scalar: nothing, or a gap. -/
inductive Idle : State → Prop
  | text : Idle .text
  | blanks (seen : List Char) : Idle (.blanks seen)
  | lines (more : Nat) : Idle (.lines more)

/-- What ends a plain scalar for good: a mark of the flow collection around it, or the end of the
stream. -/
def Ends (flow : Bool) (tail : List Char) : Prop :=
  tail = [] ∨ flow = true ∧ atFlowMark tail = true

/-- A mark of a flow collection is no part of a plain scalar. -/
theorem Idle.step?_flowMark {state : State} (idle : Idle state) {x : Char}
    (mark : isFlowMark x = true) (column : Nat) (after : List Char) :
    step? true 0 state column x after = some .stop := by
  have hmark : x = ',' ∨ x = '[' ∨ x = ']' ∨ x = '{' ∨ x = '}' := by
    simpa [isFlowMark, or_assoc] using mark
  have hplain : x ≠ '\n' ∧ isBlank x = false ∧ x ≠ '-' ∧ x ≠ '\t' := by
    rcases hmark with rfl | rfl | rfl | rfl | rfl <;> decide
  obtain ⟨hlf, hblank, hdash, htab⟩ := hplain
  have hallowed : allowed true x after = false := by simp [allowed, mark]
  have hword (gap : List Char) : word? true column gap x after = some .stop := by
    unfold word?
    split
    · rfl
    · rw [hallowed]
      simp [hdash]
  cases idle with
  | text => simp [step?, hlf, hblank, hallowed]
  | blanks seen => simp [step?, hlf, hblank, hword]
  | lines more => simp [step?, hlf, hblank, hword]

/-- A gap behind the text belongs to the scalar, but adds nothing to its text. -/
theorem Idle.step?_gap {state : State} (idle : Idle state) (flow : Bool) {x : Char}
    (gap : isGap x = true) (column : Nat) (after : List Char) :
    ∃ state', step? flow 0 state column x after = some (.next [] state') ∧ Idle state' := by
  by_cases hlf : x = '\n'
  · subst hlf
    cases idle with
    | text => exact ⟨_, rfl, .lines 0⟩
    | blanks seen => exact ⟨_, rfl, .lines 0⟩
    | lines more => exact ⟨_, rfl, .lines (more + 1)⟩
  · have hblank : isBlank x = true := by simpa [isGap, hlf] using gap
    cases idle with
    | text => exact ⟨.blanks [x], by simp [step?, hlf, hblank], .blanks _⟩
    | blanks seen => exact ⟨.blanks (x :: seen), by simp [step?, hlf, hblank], .blanks _⟩
    | lines more => exact ⟨.lines more, by simp [step?, hlf, hblank], .lines more⟩

theorem Idle.read?_gap {state : State} (idle : Idle state) {flow : Bool} {gap tail : List Char}
    (white : ∀ x ∈ gap, isGap x = true) (ends : Ends flow tail) (column : Nat) :
    read? flow 0 state column (gap ++ tail) = some ([], gap.length) := by
  induction gap generalizing state column with
  | nil =>
    cases tail with
    | nil => rfl
    | cons x after =>
      obtain ⟨rfl, hmark⟩ := ends.resolve_left (List.cons_ne_nil _ _)
      rw [List.nil_append, read?, idle.step?_flowMark hmark]
      rfl
  | cons x gap ih =>
    obtain ⟨hx, hgap⟩ := List.forall_mem_cons.1 white
    obtain ⟨state', hstep, hidle⟩ := idle.step?_gap flow hx column (gap ++ tail)
    rw [List.cons_append, read?, hstep]
    simp only
    rw [ih hidle hgap]
    rfl

/-! ## The text -/

theorem step?_wordChar (flow : Bool) {c : Char} (h : isWordChar c = true) (column : Nat)
    (after : List Char) : step? flow 0 .text column c after = some (.next [c] .text) := by
  obtain ⟨hgap, hmark, hcolon, -⟩ := isWordChar_inert h
  have hlf : c ≠ '\n' := ne_of_isGap hgap rfl
  simp [step?, hlf, isBlank_of_isGap hgap, allowed, hcolon, hmark]

/-- The characters of a word are read as they stand, and then what follows them. -/
theorem read?_wordChars (flow : Bool) {w : List Char} (chars : ∀ x ∈ w, isWordChar x = true)
    (column : Nat) (after : List Char) :
    read? flow 0 .text column (w ++ after) =
      (read? flow 0 .text (column + w.length) after).map fun p => (w ++ p.1, p.2 + w.length) := by
  induction w generalizing column with
  | nil => simp
  | cons c w ih =>
    obtain ⟨hc, hw⟩ := List.forall_mem_cons.1 chars
    have hlf : c ≠ '\n' := ne_of_isGap (isWordChar_inert hc).1 rfl
    rw [List.cons_append, read?, step?_wordChar flow hc]
    simp only [if_neg hlf]
    rw [ih hw]
    simp [Option.map_map, Function.comp_def, Nat.add_assoc, Nat.add_comm 1]

/-- A word starts a plain scalar and no document marker. -/
theorem step?_start (flow : Bool) {c : Char} {w : List Char} (h : WordText (c :: w)) (column : Nat)
    (after : List Char) :
    step? flow 0 .start column c (w ++ after) = some (.next [c] .text) ∧
      atDocumentMarker (c :: (w ++ after)) = false := by
  obtain ⟨-, hmark, hcolon, hash⟩ := isWordChar_inert (h.chars c List.mem_cons_self)
  have hallowed (after : List Char) : allowed flow c after = true := by
    simp [allowed, hcolon, hmark]
  obtain ⟨_, _, hw, hstart⟩ := h.start
  cases hw
  rcases hstart with halpha | ⟨rfl, d, more, rfl, hd⟩
  · have hdash : c ≠ '-' := by rintro rfl; cases halpha
    have hdot : c ≠ '.' := by rintro rfl; cases halpha
    have hmarker : atDocumentMarker (c :: (w ++ after)) = false := by
      simp [atDocumentMarker, atDocumentStart, atDocumentEnd, hdash, hdot]
    simp [step?, word?, hmarker, hash, hdash, hallowed]
  · have hdash : d ≠ '-' := by rintro rfl; cases hd
    have hflow : isFlowMark d = false := (isWordChar_inert (isWordChar_of_isAlphanum hd)).2.1
    have hmarker : atDocumentMarker ('-' :: d :: (more ++ after)) = false := by
      simp [atDocumentMarker, atDocumentStart, atDocumentEnd, hdash]
    have hmarker' : atDocumentMarker ('-' :: (d :: more ++ after)) = false := hmarker
    simp [step?, word?, hmarker, atFlowMark, hflow, hallowed]

/-- A word is read as it stands, together with the gap behind it. -/
theorem read?_wordText {w : List Char} (h : WordText w) {flow : Bool} {gap tail : List Char}
    (white : ∀ x ∈ gap, isGap x = true) (ends : Ends flow tail) (column : Nat) :
    read? flow 0 .start column (w ++ (gap ++ tail)) = some (w, w.length + gap.length) := by
  obtain ⟨c, rest, rfl, -⟩ := h.start
  obtain ⟨hc, hrest⟩ := List.forall_mem_cons.1 h.chars
  have hlf : c ≠ '\n' := ne_of_isGap (isWordChar_inert hc).1 rfl
  rw [List.cons_append, read?, (step?_start flow h column _).1]
  simp only [if_neg hlf]
  rw [read?_wordChars flow hrest, Idle.text.read?_gap white ends]
  simp
  omega

end Provision.Yaml.Plain
