import Provision.Proofs.Json.Marks
import Provision.Proofs.Json.Strings
import Provision.Proofs.Json.Words

/-!
# Scalars of JSON texts

A number or one of the three words is a plain scalar (`At.word`), and a string is a quoted one
(`At.string`), unless it has a half of a pair in it (`At.string_unreadable`). The white space behind
either belongs to the lexeme.
-/

namespace Provision.Json

open Yaml Yaml.TokenReader

variable {s : TokenReader} {gap rest tail : List Char} {tokens : List Token}
  {outer : List (Option PendingKey)} {braced : Bool}

/-! ## Words -/

/-- What may follow a value: the end of the text, or a mark of the collection around it. -/
def Stops (outer : List (Option PendingKey)) (tail : List Char) : Prop :=
  tail = [] ∨ outer ≠ [] ∧ ∃ x after, tail = x :: after ∧ (x = ',' ∨ x = ']' ∨ x = '}')

theorem Stops.starts (h : Stops outer tail) : Starts tail := by
  rcases h with rfl | ⟨-, x, after, rfl, hx⟩
  · exact nofun
  · exact starts_cons (by rcases hx with rfl | rfl | rfl <;> decide) after

theorem Stops.ends (h : Stops outer tail) : Plain.Ends (!outer.isEmpty) (streamText tail) := by
  rcases h with rfl | ⟨hflow, x, after, rfl, hx⟩
  · exact .inl rfl
  · refine .inr ⟨by simpa using hflow, ?_⟩
    rcases hx with rfl | rfl | rfl <;> rw [streamText_cons (by decide) (by decide)] <;> rfl

theorem WordText.lexeme? {c : Char} {w : List Char} (hw : WordText (c :: w))
    (h : At s rest tokens outer braced) (after : List Char) :
    s.lexeme? c (w ++ after) = s.plain? := by
  have hcolumn := h.column_le
  have hne (x : Char) (hx : isWordChar x = false) : c ≠ x :=
    isWordChar_ne (hw.chars c List.mem_cons_self) hx
  have hdash : ¬ (c = '-' ∧ atGap (w ++ after) = true) := by
    rintro ⟨rfl, hgap⟩
    obtain ⟨_, _, heq, hstart⟩ := hw.start
    cases heq
    rcases hstart with hstart | ⟨-, d, more, rfl, hd⟩
    · cases hstart
    · have hd' := (isWordChar_inert (isWordChar_of_isAlphanum hd)).1
      rw [List.cons_append, atGap, hd'] at hgap
      cases hgap
  unfold TokenReader.lexeme?
  simp [hcolumn, hdash, hne '[' (by decide), hne ']' (by decide), hne '{' (by decide),
    hne '}' (by decide), hne ',' (by decide), hne '?' (by decide), hne ':' (by decide),
    hne '*' (by decide), hne '&' (by decide), hne '!' (by decide), hne '|' (by decide),
    hne '>' (by decide), hne '\'' (by decide), hne '"' (by decide), hne '%' (by decide),
    hne '@' (by decide), hne '\x60' (by decide)]

/-- Reading a word passes the white space behind it as well. -/
theorem At.plain? {w : List Char} (hw : WordText w)
    (h : At s (w ++ (gap ++ tail)) tokens outer braced) (white : White gap)
    (stops : Stops outer tail) :
    ∃ n, (s.cursor.advance (w.length + n)).rest = streamText tail ∧
      s.plain? = some { s with
        cursor := s.cursor.advance (w.length + n)
        tokens := .scalar true w :: s.tokens
        pending := s.markKey.pending
        margins := []
        keyAllowed := (s.cursor.advance (w.length + n)).fresh } := by
  obtain ⟨g, hg, hgap, -⟩ := exists_gap white tail
  have hrest : s.cursor.rest = w ++ (g ++ streamText tail) := by
    rw [h.rest_eq, streamText_append hw.clean, hgap]
  have hread : Plain.read? s.inFlow 0 .start s.cursor.column s.cursor.rest =
      some (w, w.length + g.length) := by
    rw [hrest, h.inFlow_eq]
    exact Plain.read?_wordText hw hg stops.ends _
  have hnonempty : w ≠ [] := by
    obtain ⟨c, more, rfl, -⟩ := hw.start
    exact List.cons_ne_nil _ _
  refine ⟨g.length, ?_, ?_⟩
  · rw [Cursor.rest_advance, hrest, ← List.append_assoc, List.drop_left' List.length_append]
  · unfold TokenReader.plain?
    rw [markKey_eq]
    simp only [h.margins_eq]
    show (if s.inFlow && decide (s.cursor.column < 0) then none
      else (Plain.read? s.inFlow 0 .start s.cursor.column s.cursor.rest).bind _) = _
    rw [hread]
    simp [hnonempty, push, Margin.dropLoose]

/-- A number or one of the three words, with the white space behind it. -/
theorem At.word {w : List Char} (hw : WordText w)
    (h : At s (w ++ (gap ++ tail)) tokens outer braced) (white : White gap)
    (stops : Stops outer tail) :
    ∃ s', Follows s s' ∧ At s' tail (.scalar true w :: tokens) outer braced := by
  obtain ⟨n, hrest, hplain⟩ := h.plain? hw white stops
  obtain ⟨c, w, rfl, -⟩ := hw.start
  obtain ⟨hc, hclean⟩ := List.forall_mem_cons.1 hw.clean
  have hchar := hw.chars c List.mem_cons_self
  obtain ⟨hgap, -, -, hash⟩ := isWordChar_inert hchar
  have hstream : streamText (w ++ (gap ++ tail)) = w ++ streamText (gap ++ tail) :=
    streamText_append hclean _
  have hmarker : atDocumentMarker (c :: streamText (w ++ (gap ++ tail))) = false := by
    rw [hstream]
    exact (Plain.step?_start false hw 0 _).2
  have hlexeme : s.lexeme? c (streamText (w ++ (gap ++ tail))) = s.plain? := by
    rw [hstream, WordText.lexeme? hw h]
  have hmoved : s.cursor.advance ((c :: w).length + n) = s.cursor.advance (w.length + n + 1) :=
    congrArg (Cursor.advance · s.cursor) (Nat.add_right_comm w.length 1 n)
  obtain ⟨s', hfollows, hs', -⟩ := h.follows_here (starts_cons ⟨hgap, hash, hc.2, hc.1⟩ _)
    (isWordChar_ne hchar (by decide)) hmarker (hlexeme.trans hplain) hmoved
    { h with
      rest_eq := hrest
      tokens_eq := congrArg (Token.scalar true (c :: w) :: ·) h.tokens_eq
      margins_eq := rfl
      free := h.free_markKey }
    stops.starts
  exact ⟨s', hfollows, hs'⟩

/-! ## Strings -/

/-- Nothing between the quotes of a string breaks a line or ends the stream. -/
theorem clean_piecesText (pieces : List Piece) :
    ∀ x ∈ piecesText pieces, x ≠ '\x00' ∧ x ≠ '\r' := by
  intro x hx
  obtain ⟨p, -, hp⟩ := List.mem_flatMap.1 hx
  cases p with
  | unescaped c valid =>
    rw [Piece.text, List.mem_singleton] at hp
    rw [hp]
    exact ⟨isUnescaped_ne valid (by decide), isUnescaped_ne valid (by decide)⟩
  | escape e =>
    have hletter : e.letter ≠ '\x00' ∧ e.letter ≠ '\r' := by cases e <;> decide
    rw [Piece.text, List.mem_cons, List.mem_singleton] at hp
    rcases hp with rfl | rfl
    · decide
    · exact hletter
  | code u =>
    have hdigit : ∀ y ∈ u.digits, y ≠ '\x00' ∧ y ≠ '\r' := by
      intro y hy
      have hhex := List.all_eq_true.1 u.hexadecimal y hy
      constructor <;> rintro rfl <;> revert hhex <;> decide
    exact List.forall_mem_cons.2 ⟨by decide, List.forall_mem_cons.2 ⟨by decide, hdigit⟩⟩ x hp

/-- What may follow a string: what may follow a value, or the colon behind a name. -/
def StringStops (outer : List (Option PendingKey)) (tail : List Char) : Prop :=
  Stops outer tail ∨ outer ≠ [] ∧ ∃ after, tail = ':' :: after

theorem StringStops.starts (h : StringStops outer tail) : Starts tail := by
  rcases h with h | ⟨-, after, rfl⟩
  · exact h.starts
  · exact starts_cons (by decide) after

/-- White space and what may follow a string may stand behind its quotes. -/
theorem StringStops.mayFollowQuoted {r : TokenReader} (h : StringStops outer tail)
    (flow : r.inFlow = !outer.isEmpty) {c : Cursor}
    (eq : c.rest = streamText (gap ++ tail))
    (broken : gap ≠ [] → (streamText (gap ++ tail)).head? = some '\n') (line : Nat) :
    r.mayFollowQuoted line c = true := by
  unfold TokenReader.mayFollowQuoted
  rw [eq]
  by_cases hgap : gap = []
  · subst hgap
    rw [List.nil_append]
    rcases h with (rfl | ⟨hflow, x, after, rfl, hx⟩) | ⟨hflow, after, rfl⟩
    · rfl
    · have hinFlow : r.inFlow = true := by simpa [flow] using hflow
      rcases hx with rfl | rfl | rfl <;> rw [streamText_cons (by decide) (by decide)] <;>
        simp [hinFlow]
    · have hinFlow : r.inFlow = true := by simpa [flow] using hflow
      rw [streamText_cons (by decide) (by decide)]
      simp [hinFlow]
  · obtain ⟨after, hafter⟩ := List.head?_eq_some_iff.1 (broken hgap)
    rw [hafter]
    rfl

theorem At.lexeme?_quote (h : At s rest tokens outer braced) (after : List Char) :
    s.lexeme? '"' after = s.quoted? .double := by
  have hcolumn := h.column_le
  simp [lexeme?, hcolumn]

variable {pieces : List Piece}

/-- The stream behind the first quote of a string. -/
theorem At.rest_step_quote (h : At s (stringText pieces ++ (gap ++ tail)) tokens outer braced) :
    s.cursor.step.rest = piecesText pieces ++ '"' :: streamText (gap ++ tail) := by
  have hcut : stringText pieces ++ (gap ++ tail) =
      '"' :: (piecesText pieces ++ '"' :: (gap ++ tail)) := by simp [stringText]
  rw [hcut] at h
  rw [h.rest_step (starts_cons (by decide) _), streamText_append (clean_piecesText pieces),
    streamText_cons (by decide) (by decide)]

/-- A string that has a half of a pair in it cannot be read. -/
theorem At.string_unreadable (h : At s (stringText pieces ++ (gap ++ tail)) tokens outer braced)
    (unreadable : pieces.all Piece.isReadable = false) : s.act? = none := by
  have hread : Quoted.read? .double s.indent .text s.cursor.step.column s.cursor.step.rest =
      none := by
    rw [h.rest_step_quote, Quoted.read?_piecesText, unreadable]
    rfl
  refine h.act?_eq_none (starts_cons (by decide) _) (by decide) rfl ?_
  rw [h.lexeme?_quote]
  unfold quoted?
  rw [markKey_eq]
  show ((Quoted.read? .double s.indent .text s.cursor.step.column s.cursor.step.rest).bind _) = _
  rw [hread]
  rfl

/-- Reading a string passes the white space behind it as well. -/
theorem At.quoted? (h : At s (stringText pieces ++ (gap ++ tail)) tokens outer braced)
    (white : White gap) (stops : StringStops outer tail)
    (readable : pieces.all Piece.isReadable = true) :
    ∃ n keyAllowed, (s.cursor.advance (n + 1)).rest = streamText tail ∧
      s.quoted? .double = some { s with
        cursor := s.cursor.advance (n + 1)
        tokens := .scalar false (decode pieces) :: s.tokens
        pending := s.markKey.pending
        keyAllowed := keyAllowed
        adjacent := (s.cursor.advance (n + 1)).index } := by
  have hread : Quoted.read? .double s.indent .text s.cursor.step.column s.cursor.step.rest =
      some (decode pieces, (piecesText pieces).length + 1) := by
    rw [h.rest_step_quote, Quoted.read?_piecesText, readable]
    rfl
  -- Behind the second quote the reader first passes blanks, and then the lines that follow.
  let behind : Cursor := s.cursor.step.advance ((piecesText pieces).length + 1)
  have hbehind : behind.rest = streamText (gap ++ tail) := by
    rw [Cursor.rest_advance, h.rest_step_quote, ← List.drop_drop, List.drop_left]
    rfl
  obtain ⟨gap', -, hwhite, hblanks, hrest, hbroken⟩ :=
    blanksAndComment?_white white stops.starts hbehind
  generalize (gap.takeWhile isBlank).length = n at hblanks hrest
  obtain ⟨g, hg, hgap, -⟩ := exists_gap hwhite tail
  have hskipped : (behind.advance n).rest = g ++ streamText tail := by rw [hrest, hgap]
  obtain ⟨newLine, hskip⟩ := skipGap?_gap hg hskipped stops.starts.startsToken
    (n := (behind.advance n).rest.length + 1) (by rw [hskipped, List.length_append]; omega)
  have hmoved : (behind.advance n).advance g.length =
      s.cursor.advance ((piecesText pieces).length + 1 + n + g.length + 1) := by
    show ((s.cursor.step.advance _).advance n).advance g.length = _
    rw [← Cursor.advance_add, ← Cursor.advance_add, ← Nat.add_assoc]
    rfl
  refine ⟨(piecesText pieces).length + 1 + n + g.length, false || (newLine && !s.inFlow), ?_, ?_⟩
  · rw [← hmoved, Cursor.rest_advance, hskipped, List.drop_left]
  · let r : TokenReader := { s with pending := s.markKey.pending, keyAllowed := false }
    have hmay : r.mayFollowQuoted s.cursor.line (behind.advance n) = true :=
      stops.mayFollowQuoted h.inFlow_eq hrest hbroken _
    have hnext : (r.moveTo (behind.advance n)).skipToToken? =
        some { r with
          cursor := (behind.advance n).advance g.length
          keyAllowed := false || (newLine && !s.inFlow) } := by
      show (skipGap? s.indent _ (behind.advance n)).map _ = _
      rw [h.indent_eq]
      show (skipGap? (-1) ((behind.advance n).rest.length + 1) (behind.advance n)).map _ = _
      rw [hskip]
      rfl
    unfold TokenReader.quoted?
    rw [markKey_eq]
    show ((Quoted.read? .double s.indent .text s.cursor.step.column s.cursor.step.rest).bind _) = _
    rw [hread]
    show ((behind.blanksAndComment? isBlank).bind _) = _
    rw [hblanks]
    show (if r.mayFollowQuoted s.cursor.line (behind.advance n) then
      (r.moveTo (behind.advance n)).skipToToken?.bind _ else none) = _
    rw [if_pos hmay, hnext, hmoved]
    rfl

/-- A string, with the white space behind it. A colon that follows may belong to it. -/
theorem At.string (h : At s (stringText pieces ++ (gap ++ tail)) tokens outer braced)
    (white : White gap) (stops : StringStops outer tail)
    (readable : pieces.all Piece.isReadable = true) :
    ∃ s', Follows s s' ∧ At s' tail (.scalar false (decode pieces) :: tokens) outer braced ∧
      (outer ≠ [] → s'.adjacent = s'.cursor.index ∧ s'.pending = s.markKey.pending) := by
  obtain ⟨n, keyAllowed, hrest, hquoted⟩ := h.quoted? white stops readable
  obtain ⟨s', hfollows, hs', hsame⟩ := h.follows_here (starts_cons (by decide) _) (by decide) rfl
    ((h.lexeme?_quote _).trans hquoted) rfl
    { h with
      rest_eq := hrest
      tokens_eq := congrArg (Token.scalar false (decode pieces) :: ·) h.tokens_eq
      free := h.free_markKey }
    stops.starts
  refine ⟨s', hfollows, hs', fun hflow => ?_⟩
  obtain rfl := hsame hflow
  exact ⟨rfl, rfl⟩

end Provision.Json
