import Provision.Proofs.Yaml.PlainTexts
import Provision.Proofs.Yaml.QuotedTexts
import Provision.Proofs.Yaml.Standing

/-!
# Scalars of written documents

A scalar is written plain, between double quotes or between single quotes (`ScalarText`). In all
three forms the reader takes the whole of it, whether the colon of a key or the end of its line
follows (`ScalarText.act?`).
-/

namespace Provision.Yaml

open Margin (Opening Covers)
open Writing (spaces doubleQuoted singleQuoted escapedChar)

/-- A text that is read as a scalar: whether it is plain, and the text of the scalar. -/
inductive ScalarText : List Char → Bool → List Char → Prop
  | plain {cs : List Char} : PlainText cs → ScalarText cs true cs
  | double (cs : List Char) : ScalarText (doubleQuoted cs) false cs
  | single {cs : List Char} : (∀ x ∈ cs, Text.isControl x = false) →
      ScalarText (singleQuoted cs) false cs

theorem ScalarText.startsToken {text content : List Char} {plain : Bool}
    (h : ScalarText text plain content) (after : List Char) : StartsToken (text ++ after) := by
  cases h with
  | plain h => exact Plain.startsToken h after
  | double => exact .cons rfl (by decide) _
  | single => exact .cons rfl (by decide) _

/-- No control character is in the text of a scalar. -/
theorem ScalarText.visible {text content : List Char} {plain : Bool}
    (h : ScalarText text plain content) : ∀ x ∈ text, Text.isControl x = false := by
  cases h with
  | plain h => exact h.visible
  | double => exact Quoted.visible_doubleQuoted
  | single h => exact Quoted.visible_singleQuoted h

theorem ScalarText.unbroken {text content : List Char} {plain : Bool}
    (h : ScalarText text plain content) : '\n' ∉ text :=
  fun hx => Text.ne_of_visible (h.visible _ hx) rfl rfl

theorem ScalarText.pos {text content : List Char} {plain : Bool}
    (h : ScalarText text plain content) : 0 < text.length := by
  cases h with
  | plain h => exact List.length_pos_iff.2 h.nonempty
  | double => exact Nat.succ_pos _
  | single => exact Nat.succ_pos _

namespace TokenReader

/-- A reader that has taken a scalar of so many characters; what it knows of pending keys is what it
knew at the start of the scalar. -/
structure HasTaken (s : TokenReader) (n : Nat) (scalar : Token) (r : TokenReader) : Prop
    extends Outside r where
  cursor_eq : r.cursor = s.cursor.advance n
  margins_eq : r.margins = s.margins ∨ r.margins = Margin.dropLoose s.margins
  tokens_eq : r.tokens = scalar :: s.tokens
  pending_eq : r.pending = s.markKey.pending

theorem markKey_eq (s : TokenReader) : s.markKey = { s with pending := s.markKey.pending } := by
  unfold markKey
  split <;> rfl

/-! ## Plain scalars -/

/-- What a plain scalar leaves once its text is read. -/
theorem plain?_of_read {s : TokenReader} (outside : s.Outside) {text : List Char} {n : Nat}
    (nonempty : text ≠ [])
    (read : Plain.read? false (Margin.indent (Margin.dropLoose s.margins) + 1).toNat .start
      s.cursor.column s.cursor.rest = some (text, n)) :
    ∃ r, s.plain? = some r ∧ HasTaken s n (.scalar true text) r ∧
      r.keyAllowed = (s.cursor.advance n).fresh := by
  let r : TokenReader :=
    { s with
      cursor := s.cursor.advance n
      pending := s.markKey.pending
      margins := Margin.dropLoose s.margins
      keyAllowed := (s.cursor.advance n).fresh
      tokens := .scalar true text :: s.tokens }
  refine ⟨r, ?_,
    ⟨⟨outside.outer, outside.inPair, rfl, outside.ended⟩, rfl, .inr rfl, rfl, rfl⟩, rfl⟩
  unfold plain?
  rw [markKey_eq]
  simp [inFlow, outside.outer, indent, read, nonempty, push, r]

/-! ## Quoted scalars -/

theorem mayFollowQuoted_eq_true {s : TokenReader} {c : Cursor} {x : Char} {after : List Char}
    (rest : c.rest = x :: after) (follows : x = ':' ∨ x = '\n') (line : Nat)
    (same : line = c.line) : s.mayFollowQuoted line c = true := by
  unfold mayFollowQuoted
  rw [rest]
  rcases follows with rfl | rfl <;> simp [same]

/-- What a quoted scalar leaves once its text is read and the gap behind it is passed. -/
theorem quoted?_of_read {s : TokenReader} (outside : s.Outside) {style : Quoted.Style}
    {text after content : List Char} (rest : s.cursor.rest = text ++ after) (unbroken : '\n' ∉ text)
    (read : Quoted.read? style s.indent .text s.cursor.step.column s.cursor.step.rest =
      some (content, text.length - 1)) (pos : 0 < text.length)
    (follows : after.head? = some ':' ∨ after.head? = some '\n') {n : Nat} {newLine : Bool}
    (gap : skipGap? s.indent (after.length + 1) (s.cursor.advance text.length) =
      some (s.cursor.advance n, newLine)) :
    ∃ r, s.quoted? style = some r ∧ HasTaken s n (.scalar false content) r ∧
      r.keyAllowed = newLine := by
  let r : TokenReader :=
    { s with
      cursor := s.cursor.advance n
      pending := s.markKey.pending
      adjacent := (s.cursor.advance n).index
      keyAllowed := newLine
      tokens := .scalar false content :: s.tokens }
  refine ⟨r, ?_,
    ⟨⟨outside.outer, outside.inPair, rfl, outside.ended⟩, rfl, .inl rfl, rfl, rfl⟩, rfl⟩
  have hplace := Cursor.advance_line rest unbroken
  have hstep : s.cursor.step.advance (text.length - 1) = s.cursor.advance text.length := by
    obtain ⟨n, hn⟩ := Nat.exists_eq_succ_of_ne_zero (Nat.ne_of_gt pos)
    rw [hn]
    rfl
  obtain ⟨x, after, rfl⟩ : ∃ x after', after = x :: after' := by
    cases after with
    | nil => simp at follows
    | cons x after => exact ⟨x, after, rfl⟩
  have hx : x = ':' ∨ x = '\n' := by simpa using follows
  have hrest : (s.cursor.advance text.length).rest = x :: after := by rw [hplace]
  have hblanks : (s.cursor.advance text.length).blanksAndComment? isBlank =
      some ([], s.cursor.advance text.length) := by
    refine Cursor.blanksAndComment?_spaces (n := 0) hrest fun y hy => ?_
    cases hy
    rcases hx with rfl | rfl <;> exact ⟨rfl, by decide⟩
  -- `simp` makes other readers of `s` on the way, so this is said of all of them.
  have hmay : ∀ r : TokenReader,
      r.mayFollowQuoted s.cursor.line (s.cursor.advance text.length) = true := fun r =>
    mayFollowQuoted_eq_true hrest hx _ (by rw [hplace])
  have hread : Quoted.read? style (Margin.indent s.margins) .text s.cursor.step.column
      s.cursor.step.rest = some (content, text.length - 1) := read
  have hgap : skipGap? (Margin.indent s.margins) (after.length + 1 + 1)
      (s.cursor.advance text.length) = some (s.cursor.advance n, newLine) := gap
  unfold quoted?
  rw [markKey_eq]
  simp [inFlow, outside.outer, indent, hread, hstep, hblanks, hmay, moveTo, skipToToken?, hrest,
    hgap, push, r]

/-! ## Keys and values -/

theorem lexeme?_plain {s : TokenReader} (outside : s.Outside)
    (indent : ¬ s.cursor.column < s.indent) {x : Char} {cs : List Char} (h : PlainText (x :: cs))
    (after : List Char) :
    s.lexeme? x (cs ++ after) = s.plain? := by
  have hx := Plain.notMem_indicators h
  have hgap := fun hx => Plain.atGap_eq_false h hx after
  have hlist : Writing.indicators =
      [',', '[', ']', '{', '}', '#', '&', '*', '!', '|', '>', '\'', '"', '%', '@', '\x60'] := by
    decide
  rw [hlist] at hx
  simp only [List.mem_cons, not_or, List.not_mem_nil, not_false_eq_true, and_true] at hx
  -- The three signs that may start a plain text are indicators only before a gap.
  have hdash : ¬ (x = '-' ∧ atGap (cs ++ after) = true) := fun h => by
    simp [hgap (.inl h.1)] at h
  have hquestion : ¬ (x = '?' ∧ atGap (cs ++ after) = true) := fun h => by
    simp [hgap (.inr (.inl h.1))] at h
  have hcolon : ¬ (x = ':' ∧ atGap (cs ++ after) = true) := fun h => by
    simp [hgap (.inr (.inr h.1))] at h
  unfold lexeme?
  simp [indent, hx, hdash, hquestion, hcolon, inFlow, outside.outer]

end TokenReader

open TokenReader

section Act

variable {s : TokenReader} {after : List Char}

/-- The reader behind a plain scalar, which takes the gap with its text. -/
theorem PlainText.act? {text : List Char} (h : PlainText text) (outside : s.Outside)
    (indent : ¬ s.cursor.column < s.indent) (rest : s.cursor.rest = text ++ after)
    (follows : after.head? = some ':' ∨ after.head? = some '\n') {n : Nat}
    (read : Plain.read? false (Margin.indent (Margin.dropLoose s.margins) + 1).toNat .start
      s.cursor.column (text ++ after) = some (text, n)) :
    ∃ r, s.act? = r.dropStale? ∧ HasTaken s n (.scalar true text) r ∧
      r.keyAllowed = (s.cursor.advance n).fresh := by
  obtain ⟨x, cs, rfl⟩ := List.exists_cons_of_ne_nil h.nonempty
  rw [← rest] at read
  obtain ⟨r, hr, htaken, hkey⟩ := plain?_of_read outside h.nonempty read
  refine ⟨r, ?_, htaken, hkey⟩
  have hdirective : x ≠ '%' := by
    rintro rfl
    exact Plain.notMem_indicators h (by decide)
  have hfollows : ∀ y ∈ after.head?, y ≠ '-' ∧ y ≠ '.' := fun y hy => by
    rcases follows with hf | hf <;> rw [hf] at hy <;> cases hy <;> decide
  have hmarker := Plain.atDocumentMarker_eq_false h hfollows
  rw [act?_eq_lexeme? rest hdirective fun _ => hmarker]
  show (s.lexeme? x (cs ++ after)).bind _ = _
  rw [lexeme?_plain outside indent h, hr, Option.bind_some]

/-- The reader behind a text between double quotes and the gap after it. -/
theorem act?_doubleQuoted {content : List Char} (outside : s.Outside)
    (indent : ¬ s.cursor.column < s.indent) (rest : s.cursor.rest = doubleQuoted content ++ after)
    (follows : after.head? = some ':' ∨ after.head? = some '\n') {n : Nat} {newLine : Bool}
    (gap : skipGap? s.indent (after.length + 1)
      (s.cursor.advance (doubleQuoted content).length) = some (s.cursor.advance n, newLine)) :
    ∃ r, s.act? = r.dropStale? ∧ HasTaken s n (.scalar false content) r ∧
      r.keyAllowed = newLine := by
  have hread : Quoted.read? .double s.indent .text s.cursor.step.column s.cursor.step.rest =
      some (content, (doubleQuoted content).length - 1) := by
    rw [Cursor.rest_step, rest]
    simpa [doubleQuoted] using
      Quoted.read?_doubleQuoted s.indent content s.cursor.step.column after
  obtain ⟨r, hr, htaken, hkey⟩ := quoted?_of_read outside rest
    (ScalarText.double content).unbroken hread (Nat.succ_pos _) follows gap
  have hlexeme (after : List Char) : s.lexeme? '"' after = s.quoted? .double := by
    simp [lexeme?, indent]
  refine ⟨r, ?_, htaken, hkey⟩
  rw [act?_eq_lexeme? rest (by decide) fun _ => rfl]
  show (s.lexeme? '"' _).bind _ = _
  rw [hlexeme, hr, Option.bind_some]

/-- The reader behind a text between single quotes and the gap after it. A quote that followed would
be taken for one of the text. -/
theorem act?_singleQuoted {content : List Char}
    (visible : ∀ x ∈ content, Text.isControl x = false) (outside : s.Outside)
    (indent : ¬ s.cursor.column < s.indent) (rest : s.cursor.rest = singleQuoted content ++ after)
    (follows : after.head? = some ':' ∨ after.head? = some '\n') {n : Nat} {newLine : Bool}
    (gap : skipGap? s.indent (after.length + 1)
      (s.cursor.advance (singleQuoted content).length) = some (s.cursor.advance n, newLine)) :
    ∃ r, s.act? = r.dropStale? ∧ HasTaken s n (.scalar false content) r ∧
      r.keyAllowed = newLine := by
  have htab : '\t' ∉ content := fun hx => Text.ne_of_visible (visible _ hx) rfl rfl
  have hlf : '\n' ∉ content := fun hx => Text.ne_of_visible (visible _ hx) rfl rfl
  have hquote : after.head? ≠ some '\'' := by
    rcases follows with hf | hf <;> rw [hf] <;> decide
  have hread : Quoted.read? .single s.indent .text s.cursor.step.column s.cursor.step.rest =
      some (content, (singleQuoted content).length - 1) := by
    have hwritten : singleQuoted content =
        '\'' :: (content.flatMap Quoted.doubledQuote ++ ['\'']) := rfl
    rw [Cursor.rest_step, rest, hwritten]
    simpa using Quoted.read?_singleQuoted s.indent htab hlf s.cursor.step.column hquote
  obtain ⟨r, hr, htaken, hkey⟩ := quoted?_of_read outside rest
    (ScalarText.single visible).unbroken hread (Nat.succ_pos _) follows gap
  have hlexeme (after : List Char) : s.lexeme? '\'' after = s.quoted? .single := by
    simp [lexeme?, indent]
  refine ⟨r, ?_, htaken, hkey⟩
  rw [act?_eq_lexeme? rest (by decide) fun _ => rfl]
  show (s.lexeme? '\'' _).bind _ = _
  rw [hlexeme, hr, Option.bind_some]

/-- The reader behind a scalar that the colon of a key or the end of its line follows. -/
theorem ScalarText.act? {text content : List Char} {plain : Bool}
    (h : ScalarText text plain content) (outside : s.Outside)
    (indent : ¬ s.cursor.column < s.indent) (rest : s.cursor.rest = text ++ after)
    (follows : after.head? = some ':' ∨ after.head? = some '\n') {n : Nat} {newLine : Bool}
    (read : PlainText text →
      Plain.read? false (Margin.indent (Margin.dropLoose s.margins) + 1).toNat .start
        s.cursor.column (text ++ after) = some (text, n))
    (gap : skipGap? s.indent (after.length + 1) (s.cursor.advance text.length) =
      some (s.cursor.advance n, newLine)) :
    ∃ r, s.act? = r.dropStale? ∧ HasTaken s n (.scalar plain content) r ∧
      (r.keyAllowed = newLine ∨ r.keyAllowed = (s.cursor.advance n).fresh) := by
  cases h with
  | plain h =>
    obtain ⟨r, hact, htaken, hkey⟩ := h.act? outside indent rest follows (read h)
    exact ⟨r, hact, htaken, .inr hkey⟩
  | double =>
    obtain ⟨r, hact, htaken, hkey⟩ := act?_doubleQuoted outside indent rest follows gap
    exact ⟨r, hact, htaken, .inl hkey⟩
  | single visible =>
    obtain ⟨r, hact, htaken, hkey⟩ := act?_singleQuoted visible outside indent rest follows gap
    exact ⟨r, hact, htaken, .inl hkey⟩

end Act

end Provision.Yaml
