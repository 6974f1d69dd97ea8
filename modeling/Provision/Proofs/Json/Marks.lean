import Provision.Proofs.Json.Places
import Provision.Proofs.Yaml.EmptyCollections

/-!
# Marks of JSON texts

One lemma for each mark of a JSON text: from where the reader stands before it, it comes to stand
before the next token (`At.open`, `At.close`, `At.comma`, `At.colon`). Two things stop it: a flow
collection beyond the limit (`At.open_full`), and tabs alone between a colon and a word
(`At.colon_stuck`).
-/

namespace Provision.Json

open Yaml Yaml.TokenReader

/-- The bracket that opens a collection. -/
def opener (sequence : Bool) : Char := if sequence then '[' else '\x7b'

/-- The bracket that closes a collection. -/
def closer (sequence : Bool) : Char := if sequence then ']' else '\x7d'

variable {s : TokenReader} {gap rest : List Char} {tokens : List Token}
  {outer : List (Option PendingKey)} {braced : Bool}

theorem starts_cons {x : Char} (h : isGap x = false ∧ x ≠ '#' ∧ x ≠ '\r' ∧ x ≠ '\x00')
    (cs : List Char) : Starts (x :: cs) := by
  rintro y ⟨⟩
  exact h

theorem starts_opener (sequence : Bool) (cs : List Char) : Starts (opener sequence :: cs) :=
  starts_cons (by cases sequence <;> decide) cs

theorem starts_closer (sequence : Bool) (cs : List Char) : Starts (closer sequence :: cs) :=
  starts_cons (by cases sequence <;> decide) cs

/-! ## What lexemes have in common -/

theorem At.column_le (h : At s rest tokens outer braced) :
    ¬ (s.cursor.column : Int) < s.indent := by
  rw [h.indent_eq]
  omega

/-- A pending key is no longer pending once it is given up. -/
theorem At.dropKey? (h : At s rest tokens outer braced) :
    s.dropKey? = some { s with pending := none } := by
  unfold TokenReader.dropKey?
  cases hkey : s.pending with
  | none =>
    obtain ⟨_, _, _, _, _, _, _, _, _, _, _⟩ := s
    obtain rfl : _ = none := hkey
    rfl
  | some key => simp [h.free key hkey]

theorem skipBlanks?_white {r : TokenReader} (white : White gap) (starts : Starts rest)
    (eq : r.cursor.rest = streamText (gap ++ rest)) :
    ∃ n gap', r.skipBlanks? = some (r.moveTo (r.cursor.advance n)) ∧
      (r.cursor.advance n).rest = streamText (gap' ++ rest) ∧ White gap' := by
  obtain ⟨gap', -, hwhite, hblanks, hrest, -⟩ := blanksAndComment?_white white starts eq
  refine ⟨_, gap', ?_, hrest, hwhite⟩
  rw [skipBlanks?, hblanks, Option.map_some]

/-- A key that is marked in a JSON text may be none. -/
theorem At.free_markKey (h : At s rest tokens outer braced) :
    ∀ key ∈ s.markKey.pending, key.required = false := by
  unfold markKey
  split
  · rintro key ⟨⟩
    simp [h.margins_eq]
  · exact h.free

/-- Without block collections, there is no margin to move. -/
theorem At.shiftMargin (h : At s rest tokens outer braced) : s.shiftMargin = s := by
  unfold TokenReader.shiftMargin
  split
  · rfl
  · obtain ⟨_, _, _, _, _, _, _, _, _, _, _⟩ := s
    obtain rfl := h.margins_eq
    rfl

theorem At.act?_eq_none {x : Char} {after : List Char} (h : At s (x :: after) tokens outer braced)
    (starts : Starts (x :: after)) (directive : x ≠ '%')
    (marker : atDocumentMarker (x :: streamText after) = false)
    (lexeme : s.lexeme? x (streamText after) = none) : s.act? = none := by
  obtain ⟨-, -, hreturn, hzero⟩ := starts x rfl
  have hrest : s.cursor.rest = x :: streamText after := by
    rw [h.rest_eq, streamText_cons hzero hreturn]
  rw [act?_eq_lexeme? hrest directive fun _ => marker, lexeme]
  rfl

/-- The stream behind a character. -/
theorem At.rest_step {x : Char} {after : List Char} (h : At s (x :: after) tokens outer braced)
    (starts : Starts (x :: after)) : s.cursor.step.rest = streamText after := by
  obtain ⟨-, -, hreturn, hzero⟩ := starts x rfl
  rw [Cursor.rest_step, h.rest_eq, streamText_cons hzero hreturn, List.drop_one, List.tail_cons]

/-! ## Brackets and commas -/

theorem At.lexeme?_opener (h : At s rest tokens outer braced) (sequence : Bool)
    (after : List Char) : s.lexeme? (opener sequence) after = s.openFlow? sequence := by
  have hcolumn := h.column_le
  cases sequence <;> simp [lexeme?, opener, hcolumn]

/-- The reader behind an opening bracket, and behind the blanks that follow it. -/
theorem At.openFlow? (sequence : Bool)
    (h : At s (opener sequence :: (gap ++ rest)) tokens outer braced) (white : White gap)
    (starts : Starts rest) (room : outer.length < flowLimit) :
    ∃ n gap', (s.cursor.step.advance n).rest = streamText (gap' ++ rest) ∧ White gap' ∧
      s.openFlow? sequence = some { s with
        cursor := s.cursor.step.advance n
        tokens := flowStart sequence :: s.tokens
        outer := s.markKey.pending :: s.outer
        pending := none
        keyAllowed := true
        braced := s.braced || !sequence } := by
  let r : TokenReader :=
    { s with
      cursor := s.cursor.step
      outer := s.markKey.pending :: s.outer
      pending := none
      keyAllowed := true
      braced := s.braced || !sequence }
  have hrest : r.cursor.rest = streamText (gap ++ rest) := h.rest_step (starts_opener sequence _)
  obtain ⟨n, gap', hblanks, hbehind, hwhite⟩ := skipBlanks?_white white starts hrest
  refine ⟨n, gap', hbehind, hwhite, ?_⟩
  have hmark : At s.markKey (opener sequence :: (gap ++ rest)) tokens outer braced := by
    rw [markKey_eq]
    exact { h with free := h.free_markKey }
  have hroom : ¬ flowLimit ≤ s.outer.length := by
    rw [h.outer_eq]
    exact Nat.not_le.2 room
  unfold TokenReader.openFlow?
  rw [hmark.shiftMargin, markKey_eq, if_neg hroom]
  show r.skipBlanks?.map _ = _
  rw [hblanks]
  rfl

/-- A collection opens, if not too many are open. -/
theorem At.open (sequence : Bool) (h : At s (opener sequence :: (gap ++ rest)) tokens outer braced)
    (white : White gap) (starts : Starts rest) (room : outer.length < flowLimit) :
    ∃ s', Follows s s' ∧
      At s' rest (flowStart sequence :: tokens) (s.markKey.pending :: outer)
        (braced || !sequence) ∧ s'.keyAllowed = true := by
  obtain ⟨n, gap', hrest, hwhite, hopen⟩ := h.openFlow? sequence white starts room
  obtain ⟨s', hfollows, hs', hkey, -⟩ := h.follows (starts_opener sequence _)
    (by cases sequence <;> decide) (by cases sequence <;> rfl)
    ((h.lexeme?_opener sequence _).trans hopen) rfl
    { h with
      rest_eq := hrest
      tokens_eq := congrArg (flowStart sequence :: ·) h.tokens_eq
      outer_eq := congrArg (s.markKey.pending :: ·) h.outer_eq
      free := nofun
      braced_of := fun hbraced => by
        rw [Bool.or_eq_true] at hbraced ⊢
        exact hbraced.imp_left h.braced_of }
    hwhite starts
  exact ⟨s', hfollows, hs', hkey rfl⟩

/-- No more collections can be open than the limit says. -/
theorem At.open_full (sequence : Bool)
    (h : At s (opener sequence :: (gap ++ rest)) tokens outer braced)
    (full : flowLimit ≤ outer.length) : s.act? = none := by
  refine h.act?_eq_none (starts_opener sequence _) (by cases sequence <;> decide)
    (by cases sequence <;> rfl) ?_
  have hlimit : flowLimit ≤ s.markKey.shiftMargin.outer.length := by
    have houter : s.markKey.shiftMargin.outer = s.outer := by
      rw [markKey_eq]
      unfold TokenReader.shiftMargin
      split <;> rfl
    rw [houter, h.outer_eq]
    exact full
  rw [h.lexeme?_opener]
  unfold TokenReader.openFlow?
  simp only [if_pos hlimit]

theorem At.lexeme?_closer (h : At s rest tokens outer braced) (sequence : Bool)
    (after : List Char) : s.lexeme? (closer sequence) after = s.closeFlow? sequence := by
  have hcolumn := h.column_le
  cases sequence <;> simp [lexeme?, closer, hcolumn]

/-- A collection closes, and the key that it could be is pending again. -/
theorem At.close (sequence : Bool) {pending : Option PendingKey}
    (h : At s (closer sequence :: (gap ++ rest)) tokens (pending :: outer) braced)
    (white : White gap) (starts : Starts rest) (free : ∀ key ∈ pending, key.required = false) :
    ∃ s', Follows s s' ∧ At s' rest (flowEnd sequence :: tokens) outer braced := by
  let r₁ : TokenReader :=
    { s with cursor := s.cursor.step, outer := outer, pending := pending, keyAllowed := false }
  have hcloser := starts_closer sequence (gap ++ rest)
  obtain ⟨n, gap', hblanks, hrest, hwhite⟩ :=
    skipBlanks?_white (r := r₁) white starts (h.rest_step hcloser)
  let r₂ : TokenReader := r₁.moveTo (s.cursor.step.advance n)
  let r : TokenReader :=
    { r₂ with
      adjacent := if r₂.inFlow then r₂.cursor.index else r₂.adjacent
      tokens := flowEnd sequence :: r₂.tokens }
  have hclose : s.closeFlow? sequence = some r := by
    have hpair : TokenReader.closePair
        { s with pending := pending, outer := outer, keyAllowed := false } =
          { s with pending := pending, outer := outer, keyAllowed := false } := by
      simp [closePair, h.inPair_eq]
    unfold closeFlow?
    rw [h.dropKey?]
    show ((TokenReader.closePair _).moveTo _).skipBlanks?.bind _ = _
    simp only [h.outer_eq, hpair]
    show r₁.skipBlanks?.bind _ = _
    rw [hblanks]
    show some ((if r₂.inFlow then { r₂ with adjacent := r₂.cursor.index } else r₂).push _) = some r
    cases hflow : r₂.inFlow <;> simp [r, hflow, push, flowEnd]
  have hr : At r (gap' ++ rest) (flowEnd sequence :: tokens) outer braced :=
    { h with
      rest_eq := hrest
      tokens_eq := congrArg (flowEnd sequence :: ·) h.tokens_eq
      outer_eq := rfl
      free := free }
  obtain ⟨s', hfollows, hs', -⟩ := h.follows hcloser (by cases sequence <;> decide)
    (by cases sequence <;> rfl) ((h.lexeme?_closer sequence _).trans hclose) rfl hr hwhite starts
  exact ⟨s', hfollows, hs'⟩

/-- A comma, behind which a key may start. -/
theorem At.comma (h : At s (',' :: (gap ++ rest)) tokens outer braced) (white : White gap)
    (starts : Starts rest) :
    ∃ s', Follows s s' ∧ At s' rest (.flowEntry :: tokens) outer braced ∧ s'.keyAllowed = true := by
  let r₁ : TokenReader := { s with cursor := s.cursor.step, pending := none, keyAllowed := true }
  have hcomma : Starts (',' :: (gap ++ rest)) := starts_cons (by decide) _
  obtain ⟨n, gap', hblanks, hrest, hwhite⟩ :=
    skipBlanks?_white (r := r₁) white starts (h.rest_step hcomma)
  let r : TokenReader := (r₁.moveTo (s.cursor.step.advance n)).push .flowEntry
  have hentry : s.flowEntry? = some r := by
    have hpair : TokenReader.closePair { s with pending := none, keyAllowed := true } =
        { s with pending := none, keyAllowed := true } := by simp [closePair, h.inPair_eq]
    unfold flowEntry?
    rw [h.dropKey?]
    show ((TokenReader.closePair _).moveTo _).skipBlanks?.bind _ = _
    simp only [hpair]
    show r₁.skipBlanks?.bind _ = _
    rw [hblanks]
    rfl
  have hr : At r (gap' ++ rest) (.flowEntry :: tokens) outer braced :=
    { h with
      rest_eq := hrest
      tokens_eq := congrArg (Token.flowEntry :: ·) h.tokens_eq
      free := fun _ hpending => by cases hpending }
  have hlexeme : s.lexeme? ',' (streamText (gap ++ rest)) = some r := by
    have hcolumn := h.column_le
    simp [lexeme?, hcolumn, hentry]
  obtain ⟨s', hfollows, hs', hkey, -⟩ :=
    h.follows hcomma (by decide) rfl hlexeme rfl hr hwhite starts
  exact ⟨s', hfollows, hs', hkey rfl⟩

/-! ## Colons -/

/-- Tabs and nothing else, which do not separate a colon from a word. -/
def isTabs (gap : List Char) : Bool := !gap.isEmpty && gap.all (· == '\t')

/-- Whether a word comes next, or something that the reader takes for one. -/
def atWord : List Char → Bool
  | [] => false
  | x :: _ => isNameChar x

/-- Behind a colon and a tab the blanks are looked at, and what follows them. -/
theorem afterColon?_tab {c : Cursor} {blanks : List Char} {n : Nat}
    (tab : c.step.rest.head? = some '\t')
    (eq : c.step.blanksAndComment? isBlank = some (blanks, c.step.advance n)) :
    afterColon? c =
      if !blanks.contains ' ' && atWord (c.step.advance n).rest then none
      else some (c.step.advance n) := by
  unfold afterColon?
  simp only [if_pos tab]
  rw [eq]
  rfl

theorem atWord_streamText (starts : Starts rest) : atWord (streamText rest) = atWord rest := by
  cases rest with
  | nil => rfl
  | cons x after =>
    obtain ⟨-, -, hreturn, hzero⟩ := starts x rfl
    rw [streamText_cons hzero hreturn]
    rfl

/-- Blanks without a space are tabs. -/
theorem isTabs_of_not_contains (blank : ∀ x ∈ gap, isBlank x = true) (nonempty : gap ≠ [])
    (h : gap.contains ' ' = false) : isTabs gap = true := by
  have htabs : gap.all (· == '\t') = true := by
    rw [List.all_eq_true]
    intro x hx
    have hx' := blank x hx
    rw [isBlank, Bool.or_eq_true, beq_iff_eq] at hx'
    refine hx'.resolve_left ?_
    rintro rfl
    rw [List.contains_iff_mem.2 hx] at h
    cases h
  simp [isTabs, htabs, nonempty]

/-- The place behind a colon, and what is left of the white space there. -/
theorem afterColon?_white {c : Cursor} (white : White gap) (starts : Starts rest)
    (eq : c.step.rest = streamText (gap ++ rest)) (apart : (isTabs gap && atWord rest) = false) :
    ∃ n gap', afterColon? c = some (c.step.advance n) ∧
      (c.step.advance n).rest = streamText (gap' ++ rest) ∧ White gap' := by
  by_cases htab : c.step.rest.head? = some '\t'
  · obtain ⟨gap', hgap, hwhite, hblanks, hrest, hbreak⟩ := blanksAndComment?_white white starts eq
    refine ⟨_, gap', ?_, hrest, hwhite⟩
    have hfree : (!(gap.takeWhile isBlank).contains ' ' &&
        atWord (c.step.advance (gap.takeWhile isBlank).length).rest) = false := by
      rw [hrest]
      by_cases hbroken : gap' = []
      · subst hbroken
        rw [List.append_nil] at hgap
        rw [List.nil_append, atWord_streamText starts, ← hgap, Bool.and_eq_false_iff]
        refine (Bool.and_eq_false_iff.1 apart).imp_left fun htabs => ?_
        by_contra hspace
        have hnonempty : gap ≠ [] := by
          rintro rfl
          rw [eq, List.nil_append] at htab
          exact absurd (starts.startsToken _ htab).1 (by decide)
        rw [isTabs_of_not_contains (fun x hx => ?_) hnonempty (by simpa using hspace)] at htabs
        · cases htabs
        · rw [hgap] at hx
          exact List.mem_takeWhile_imp hx
      · obtain ⟨after, hafter⟩ := List.head?_eq_some_iff.1 (hbreak hbroken)
        rw [hafter]
        exact Bool.and_false _
    rw [afterColon?_tab htab hblanks, hfree]
    rfl
  · exact ⟨0, gap, by simp [afterColon?, htab, Cursor.advance], eq, white⟩

/-- Behind a colon and tabs no word may stand. -/
theorem afterColon?_stuck {c : Cursor} (starts : Starts rest)
    (eq : c.step.rest = streamText (gap ++ rest)) (tabs : isTabs gap = true)
    (word : atWord rest = true) : afterColon? c = none := by
  simp only [isTabs, Bool.and_eq_true, List.all_eq_true, beq_iff_eq, Bool.not_eq_true',
    List.isEmpty_eq_false_iff] at tabs
  obtain ⟨hnonempty, htabs⟩ := tabs
  have hclean : ∀ x ∈ gap, x ≠ '\x00' ∧ x ≠ '\r' := fun x hx => by
    rw [htabs x hx]
    decide
  have hblank : ∀ x ∈ gap, isBlank x = true := fun x hx => by
    rw [htabs x hx]
    rfl
  have hrest : c.step.rest = gap ++ streamText rest := by rw [eq, streamText_append hclean]
  have hblanks : c.step.blanksAndComment? isBlank = some (gap, c.step.advance gap.length) :=
    Cursor.blanksAndComment?_blanks hrest hblank fun x hx => by
      obtain ⟨hgap, hash⟩ := starts.startsToken x hx
      exact ⟨isBlank_of_isGap hgap, hash⟩
  have htab : c.step.rest.head? = some '\t' := by
    obtain ⟨x, more, rfl⟩ := List.exists_cons_of_ne_nil hnonempty
    rw [hrest, htabs x List.mem_cons_self]
    rfl
  have hspace : gap.contains ' ' = false := by
    rw [← Bool.not_eq_true, List.contains_iff_mem]
    exact fun hx => absurd (htabs _ hx) (by decide)
  rw [afterColon?_tab htab hblanks, hspace, Cursor.rest_advance, hrest, List.drop_left,
    atWord_streamText starts, word]
  rfl

theorem At.lexeme?_colon (h : At s (':' :: (gap ++ rest)) tokens outer braced) (flow : outer ≠ [])
    (adjacent : s.adjacent = s.cursor.index) (after : List Char) :
    s.lexeme? ':' after = s.value? := by
  have hcolumn := h.column_le
  have hflow : s.inFlow = true := by simpa [h.inFlow_eq] using flow
  simp [lexeme?, hcolumn, hflow, adjacent]

variable {key : PendingKey} {scalar : Token}

/-- The colon behind the name of a member, which shows that the name was one. -/
theorem At.colon (h : At s (':' :: (gap ++ rest)) (scalar :: key.earlier) outer true)
    (flow : outer ≠ []) (pending : s.pending = some key) (adjacent : s.adjacent = s.cursor.index)
    (white : White gap) (starts : Starts rest) (apart : (isTabs gap && atWord rest) = false) :
    ∃ s', Follows s s' ∧ At s' rest (.value :: scalar :: .key :: key.earlier) outer true := by
  have hcolon : Starts (':' :: (gap ++ rest)) := starts_cons (by decide) _
  obtain ⟨n, gap', hafter, hrest, hwhite⟩ :=
    afterColon?_white white starts (h.rest_step hcolon) apart
  have hflow : s.inFlow = true := by simpa [h.inFlow_eq] using flow
  have hbraced : s.braced = true := h.braced_of rfl
  let r : TokenReader :=
    { s with
      cursor := s.cursor.step.advance n
      tokens := .value :: scalar :: .key :: key.earlier
      pending := none
      inPair := false
      keyAllowed := false }
  have hvalue : s.value? = some r := by
    have hinsert : insertAt key [.key] s.tokens = scalar :: .key :: key.earlier := by
      rw [h.tokens_eq, insertAt, List.length_cons, Nat.add_sub_cancel_left]
      rfl
    unfold value?
    simp only [hflow, hbraced, pending]
    rw [hafter]
    simp [inFlow, h.outer_eq, flow, hbraced, hinsert, TokenReader.shiftMargin, push, r]
  have hr : At r (gap' ++ rest) (.value :: scalar :: .key :: key.earlier) outer true :=
    { h with
      rest_eq := hrest
      tokens_eq := rfl
      inPair_eq := rfl
      free := fun _ hpending => by cases hpending }
  obtain ⟨s', hfollows, hs', -⟩ := h.follows hcolon (by decide) rfl
    ((h.lexeme?_colon flow adjacent _).trans hvalue) rfl hr hwhite starts
  exact ⟨s', hfollows, hs'⟩

/-- Tabs alone do not separate a colon from a word. -/
theorem At.colon_stuck (h : At s (':' :: (gap ++ rest)) tokens outer braced) (flow : outer ≠ [])
    (adjacent : s.adjacent = s.cursor.index) (starts : Starts rest) (tabs : isTabs gap = true)
    (word : atWord rest = true) : s.act? = none := by
  have hcolon : Starts (':' :: (gap ++ rest)) := starts_cons (by decide) _
  have hafter : afterColon? s.cursor = none :=
    afterColon?_stuck starts (h.rest_step hcolon) tabs word
  refine h.act?_eq_none hcolon (by decide) rfl ?_
  rw [h.lexeme?_colon flow adjacent]
  unfold value?
  simp only
  rw [hafter]
  rfl

/-! ## The end -/

/-- At the end of the text the reader is done. -/
theorem At.finish (h : At s [] tokens [] braced) :
    ∃ r, s.act? = some r ∧ r.ended = true ∧ r.tokens = .streamEnd :: tokens := by
  let r : TokenReader :=
    { s with
      tokens := .streamEnd :: tokens, pending := none, keyAllowed := false, ended := true }
  have hrequired : s.pending.any (·.required) = false := by
    cases hkey : s.pending with
    | none => rfl
    | some key => exact h.free key hkey
  have hfinish : s.finish? = some r := by
    unfold finish?
    simp [hrequired, h.outer_eq, TokenReader.closeTo, inFlow, h.margins_eq, h.tokens_eq, push,
      Margin.close, r]
  refine ⟨r, ?_, rfl, rfl⟩
  have hrest : s.cursor.rest = [] := h.rest_eq
  unfold act?
  rw [hrest]
  simp only [hfinish]
  exact dropStale?_of_none (r := r) rfl

end Provision.Json
