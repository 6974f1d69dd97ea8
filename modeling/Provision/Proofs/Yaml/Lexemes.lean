import Provision.Proofs.Yaml.Scalars

/-!
# Lexemes of written documents

One lemma for each lexeme that the writer makes: what the reader does where it stands before a dash,
a key with its colon or a scalar, and where it stands then.
-/

namespace Provision.Yaml.TokenReader

open Margin (Opening Covers ValueEnds leave)
open Writing (spaces)
open Relation (ReflTransGen)

/-! ## Dashes -/

/-- The margins behind the dash of an item. A flow mark after it moves the margin; nothing else
depends on what follows. -/
def marginsAtDash (rest : List Char) (column : Nat) (ground : List Margin) : List Margin :=
  if atFlowMark rest then Margin.shift (⟨column, true⟩ :: ground) else ⟨column, true⟩ :: ground

theorem covers_marginsAtDash (rest : List Char) (column : Nat) (ground : List Margin) :
    Covers (marginsAtDash rest column ground) (⟨column, true⟩ :: ground) := by
  unfold marginsAtDash
  split
  · exact (Covers.block column ground).shift
  · exact .block column ground

/-- The reader behind the dash of an item. -/
theorem Stands.act?_dash {s : TokenReader} {rest : List Char} {column : Nat}
    {ms ground : List Margin} {ts : List Token} {opened : Bool}
    (stands : Stands s ('-' :: ' ' :: rest) column (ms, ts) true)
    (opening : Opening column ms ground opened) (token : StartsToken rest) :
    ∃ r, s.act? = some r ∧ r.Outside ∧ r.cursor = s.cursor.advance 2 ∧
      r.margins = marginsAtDash rest column ground ∧
      r.tokens = .blockEntry :: (if opened then .blockSequenceStart :: ts else ts) ∧
      r.pending = none ∧ r.keyAllowed = true := by
  have hindent := stands.indent_le_column
  obtain ⟨⟨outer, inPair, untagged, ended⟩, hrest, hcolumn, hmargins, htokens, hpending, hkey, -⟩ :=
    stands
  have hlexeme : s.lexeme? '-' (' ' :: rest) = s.blockEntry? := by
    simp [lexeme?, hindent, atGap, isGap, isBlank]
  have hopen : Margin.openAt s.cursor.column s.margins = (⟨column, true⟩ :: ground, opened) := by
    rw [hcolumn, hmargins]
    exact opening.openAt
  have hstep : s.cursor.step.rest = spaces 1 ++ rest := by rw [Cursor.rest_step, hrest]; rfl
  have hafter : (s.cursor.step.advance 1).rest = rest := by
    rw [Cursor.rest_advance, hstep]
    rfl
  have hblanks := Cursor.blanksAndComment?_spaces hstep fun x hx =>
    ⟨isBlank_of_isGap (token x hx).1, (token x hx).2⟩
  have hbreak : rest.head? ≠ some '\n' := fun h => ne_of_isGap (token '\n' h).1 rfl rfl
  let r : TokenReader :=
    { s with
      cursor := s.cursor.step.advance 1
      margins := marginsAtDash rest column ground
      tokens := .blockEntry :: if opened then .blockSequenceStart :: ts else ts
      keyAllowed := true }
  have hentry : s.blockEntry? = some r := by
    unfold blockEntry?
    cases hmark : atFlowMark rest <;>
      simp [hkey, untagged, openHere, hopen, hblanks, spaces, atBlockEntry, moveTo, hafter,
        dropKey?, hbreak, hmark, hpending, htokens, shiftMargin, inFlow, outer, push, r,
        marginsAtDash]
  refine ⟨r, ?_, ⟨outer, inPair, rfl, ended⟩, rfl, rfl, rfl, hpending, rfl⟩
  rw [act?_eq_lexeme? hrest (by decide) fun _ => rfl, hlexeme, hentry]
  exact dropStale?_of_none (show r.pending = none from hpending)

/-- A dash before a value on its line. -/
theorem Stands.dash {s : TokenReader} {rest : List Char} {column : Nat} {ms ground : List Margin}
    {ts : List Token} {opened : Bool} (stands : Stands s ('-' :: ' ' :: rest) column (ms, ts) true)
    (opening : Opening column ms ground opened) (token : StartsToken rest) :
    ∃ s' ms', Follows s s' ∧ Covers ms' (⟨column, true⟩ :: ground) ∧
      Stands s' rest (column + 2)
        (ms', .blockEntry :: if opened then .blockSequenceStart :: ts else ts) true := by
  obtain ⟨r, hact, houtside, hcursor, hmargins, htokens, hpending, hkey⟩ :=
    stands.act?_dash opening token
  have hcovers := covers_marginsAtDash rest column ground
  have hplace := Cursor.advance_line (show s.cursor.rest = ['-', ' '] ++ rest from stands.rest_eq)
    (by decide)
  have hrest : r.cursor.rest = rest := by
    rw [hcursor]
    exact congrArg Cursor.rest hplace
  have hcolumn : r.cursor.column = column + 2 := by
    rw [hcursor, ← stands.column_eq]
    exact congrArg Cursor.column hplace
  have hshorter : r.cursor.rest.length < s.cursor.rest.length := by
    rw [hrest, stands.rest_eq, List.length_cons, List.length_cons]
    omega
  obtain ⟨s', hfollows, hstands⟩ :=
    houtside.follows_spaces hact hcursor (n := 0) hrest hshorter token hpending
  -- The reader is right of the dash, so the column leaves nothing.
  have hindent : Margin.indent (marginsAtDash rest column ground) ≤ column + 1 := hcovers.indent_le
  rw [Nat.add_zero, hcolumn, hmargins, htokens, hkey, Margin.leave_of_le (by omega)] at hstands
  exact ⟨s', _, hfollows, hcovers, hstands⟩

/-! ## Colons -/

/-- A settled reader at the colon of a key that started at a column, with the scalar of the key and
the tokens before it. -/
structure StandsAtColon (s : TokenReader) (after : List Char) (column : Nat)
    (ground : List Margin) (opened : Bool) (scalar : Token) (ts : List Token) : Prop
    extends Outside s where
  rest_eq : s.cursor.rest = ':' :: after
  column_lt : column < s.cursor.column
  opening : Opening column s.margins ground opened
  tokens_eq : s.tokens = scalar :: ts
  pending_eq : ∃ key, s.pending = some key ∧ key.earlier = ts ∧ key.column = column

/-- A reader with a key pending near enough has settled where its next token starts. -/
theorem settled?_of_near {r : TokenReader} (outside : r.Outside) (token : StartsToken r.cursor.rest)
    {key : PendingKey} (pending : r.pending = some key) (line : key.line = r.cursor.line)
    (near : r.cursor.index ≤ key.index + 1024)
    (indent : Margin.indent r.margins ≤ r.cursor.column) : r.settled? = some r := by
  have hskip : r.skipToToken? = some r := by
    have hgap := skipGap?_spaces r.indent r.cursor.rest.length (c := r.cursor) (n := 0) rfl token
    rw [skipToToken?, hgap]
    simp [Cursor.advance]
  have hclose : r.closeTo r.cursor.column = r := by
    have hflow : r.inFlow = false := by rw [inFlow, outside.outer]; rfl
    have hleave := Margin.leave_of_le indent r.tokens
    simp only [leave, Prod.mk.injEq, List.append_left_eq_self] at hleave
    unfold closeTo
    simp only [hflow, Bool.false_eq_true, if_false, hleave.1, hleave.2, List.nil_append]
  simp [settled?, hskip, dropStale?_of_near pending line near, hclose]

/-- A key of a block mapping up to its colon. -/
theorem Stands.key {s : TokenReader} {text content after : List Char} {plain : Bool} {column : Nat}
    {ms ground : List Margin} {opened : Bool} {ts : List Token}
    (stands : Stands s (text ++ ':' :: after) column (ms, ts) true)
    (h : ScalarText text plain content) (gap : atGap after = true)
    (opening : Opening column ms ground opened) (short : text.length ≤ 1024) :
    ∃ s', Follows s s' ∧
      StandsAtColon s' after column ground opened (.scalar plain content) ts := by
  have hindent := stands.indent_le_column
  obtain ⟨houtside, hrest, hcolumn, hmargins, htokens, hpending, hkey, -⟩ := stands
  have hcursor := Cursor.advance_line hrest h.unbroken
  have hgap : skipGap? s.indent ((':' :: after).length + 1) (s.cursor.advance text.length) =
      some (s.cursor.advance text.length, false) :=
    skipGap?_spaces _ _ (n := 0) (by rw [hcursor]; rfl) (.cons rfl (by decide) after)
  obtain ⟨r, hact, htaken, -⟩ := h.act? houtside hindent hrest (.inl rfl)
    (fun h => Plain.read?_key h _ _ gap) hgap
  have hplace : r.cursor = s.cursor.advance text.length := htaken.cursor_eq
  rw [hcursor] at hplace
  -- The key has been pending since its first character.
  obtain ⟨key, hkeyeq, hline, hindex, hearlier, hcol⟩ : ∃ key, r.pending = some key ∧
      key.line = s.cursor.line ∧ key.index = s.cursor.index ∧ key.earlier = ts ∧
      key.column = column := by
    refine ⟨_, htaken.pending_eq.trans (by rw [markKey, if_pos hkey]), rfl, rfl, htokens, hcolumn⟩
  have hline' : key.line = r.cursor.line := by rw [hplace, hline]
  have hnear : r.cursor.index ≤ key.index + 1024 := by
    rw [hplace, hindex]
    exact Nat.add_le_add_left short _
  have hopening : Opening column r.margins ground opened := by
    obtain rfl : s.margins = ms := hmargins
    rcases htaken.margins_eq with hm | hm <;> rw [hm]
    · exact opening
    · exact opening.dropLoose
  have hright : column < r.cursor.column := by
    have := h.pos
    rw [hplace, hcolumn]
    show column < column + text.length
    omega
  have hsettled : r.settled? = some r :=
    settled?_of_near htaken.toOutside (by rw [hplace]; exact .cons rfl (by decide) after) hkeyeq
      hline' hnear (by have := hopening.indent_le; omega)
  refine ⟨r, ⟨r, ?_, htaken.ended, ?_, ?_, hsettled⟩, htaken.toOutside, by rw [hplace], hright,
    hopening, by rw [htaken.tokens_eq, htokens], ⟨key, hkeyeq, hearlier, hcol⟩⟩
  · rw [hact, dropStale?_of_near hkeyeq hline' hnear]
  · have := h.pos
    rw [hplace]
    show s.cursor.index < s.cursor.index + text.length
    omega
  · rw [htaken.cursor_eq, Cursor.size_advance]

/-- Where more than a key may start, the key that a value could be is not required. -/
theorem Stands.pending_here {s : TokenReader} {rest : List Char} {column : Nat} {ms : List Margin}
    {ts : List Token} {keyAllowed : Bool} (stands : Stands s rest column (ms, ts) keyAllowed)
    (free : keyAllowed = true → ms.head? ≠ some ⟨column, true⟩) :
    ∀ key ∈ s.markKey.pending,
      key.required = false ∧ key.line = s.cursor.line ∧ key.index = s.cursor.index := by
  intro key hmem
  rw [markKey, stands.keyAllowed_eq] at hmem
  cases keyAllowed with
  | false =>
    rw [if_neg (by decide), stands.pending_eq] at hmem
    cases hmem
  | true =>
    rw [if_pos rfl] at hmem
    cases hmem
    exact ⟨by simp [stands.margins_eq, stands.column_eq, free rfl], rfl, rfl⟩

/-- The reader behind a scalar at the end of its line, which may not start where only a key may. It
has taken the gap as well, and has given up what could have been a key before the break. -/
theorem Stands.act?_scalar {s : TokenReader} {text content tail : List Char} {plain : Bool}
    {column d : Nat} {ms ground : List Margin} {ts : List Token} {keyAllowed : Bool}
    (stands : Stands s (text ++ '\n' :: (spaces d ++ tail)) column (ms, ts) keyAllowed)
    (h : ScalarText text plain content) (covers : Covers ms ground)
    (free : keyAllowed = true → ms.head? ≠ some ⟨column, true⟩) (token : StartsToken tail)
    (ends : ValueEnds ground d tail) :
    ∃ r, s.act? = some r ∧ r.Outside ∧ r.cursor = s.cursor.advance (text.length + (d + 1)) ∧
      (r.margins = ms ∨ r.margins = ground) ∧ r.tokens = .scalar plain content :: ts ∧
      r.pending = none ∧ r.keyAllowed = true := by
  have hindent := stands.indent_le_column
  have hpendingHere := stands.pending_here free
  obtain ⟨houtside, hrest, hcolumn, hmargins, htokens, -, -, -⟩ := stands
  have hnext := Cursor.advance_gap hrest h.unbroken
  have hgap : skipGap? s.indent (('\n' :: (spaces d ++ tail)).length + 1)
      (s.cursor.advance text.length) = some (s.cursor.advance (text.length + (d + 1)), true) := by
    have hbreak : (s.cursor.advance text.length).rest = '\n' :: (spaces d ++ tail) := by
      rw [Cursor.advance_line hrest h.unbroken]
    rw [Cursor.advance_add, ← skipGap?_indentation s.indent hbreak token, hbreak]
  have hread (h : PlainText text) : Plain.read? false
      (Margin.indent (Margin.dropLoose s.margins) + 1).toNat .start s.cursor.column
        (text ++ '\n' :: (spaces d ++ tail)) = some (text, text.length + (d + 1)) := by
    rw [hmargins, covers.dropLoose, Nat.add_comm text.length]
    refine Plain.read?_line h _ token ?_
    cases ends with
    | inside hle => exact .inl (by omega)
    | stream => exact .inr (.inr rfl)
    | marker hmarker => exact .inr (.inl ⟨rfl, hmarker⟩)
  obtain ⟨r, hact, htaken, hallowed⟩ := h.act? houtside hindent hrest (.inr rfl) hread hgap
  have hstale : ∀ key ∈ r.pending, key.required = false ∧ key.line < r.cursor.line := by
    intro key hmem
    rw [htaken.pending_eq] at hmem
    obtain ⟨hrequired, hline, -⟩ := hpendingHere key hmem
    refine ⟨hrequired, ?_⟩
    rw [htaken.cursor_eq, hnext, hline]
    exact Nat.lt_succ_self _
  refine ⟨{ r with pending := none }, ?_,
    ⟨htaken.outer, htaken.inPair, htaken.untagged, htaken.ended⟩, htaken.cursor_eq, ?_,
    htaken.tokens_eq.trans (by rw [htokens]), rfl, ?_⟩
  · rw [hact, dropStale?_of_line_lt htaken.outer hstale]
  · rcases htaken.margins_eq with hm | hm
    · exact .inl (hm.trans hmargins)
    · exact .inr (hm.trans (by rw [hmargins, covers.dropLoose]))
  · rcases hallowed with hk | hk
    · exact hk
    · exact hk.trans (by rw [hnext])

/-- A scalar at the end of its line. -/
theorem Stands.scalar {s : TokenReader} {text content tail : List Char} {plain : Bool}
    {column d : Nat} {ms ground : List Margin} {ts : List Token} {keyAllowed : Bool}
    (stands : Stands s (text ++ '\n' :: (spaces d ++ tail)) column (ms, ts) keyAllowed)
    (h : ScalarText text plain content) (covers : Covers ms ground)
    (free : keyAllowed = true → ms.head? ≠ some ⟨column, true⟩) (token : StartsToken tail)
    (ends : ValueEnds ground d tail) :
    ∃ s', Follows s s' ∧
      Stands s' tail d (leave d (ground, .scalar plain content :: ts)) true := by
  obtain ⟨r, hact, houtside, hcursor, hmargins, htokens, hpending, hkey⟩ :=
    stands.act?_scalar h covers free token ends
  have hplace := hcursor.trans (Cursor.advance_gap stands.rest_eq h.unbroken)
  have hrest : r.cursor.rest = spaces 0 ++ tail := by
    rw [hplace]
    rfl
  have hcolumn : r.cursor.column = d := by rw [hplace]
  have hshorter : r.cursor.rest.length < s.cursor.rest.length := by
    rw [hrest, stands.rest_eq]
    simp [spaces]
    omega
  -- The column of the next token leaves the margins that the value had on top of its ground.
  have hleave : leave d (r.margins, r.tokens) = leave d (ground, .scalar plain content :: ts) := by
    rw [htokens]
    rcases hmargins with hm | hm
    · rw [hm]
      exact covers.leave_eq ends.le_indent _
    · rw [hm]
  obtain ⟨s', hfollows, hstands⟩ :=
    houtside.follows_spaces hact hcursor hrest hshorter token hpending
  rw [Nat.add_zero, hcolumn, hkey, hleave] at hstands
  exact ⟨s', hfollows, hstands⟩

/-- The tokens of a key and its colon, the last one first. -/
def keyTokens (opened : Bool) (scalar : Token) (ts : List Token) : List Token :=
  .value :: scalar :: .key :: if opened then .blockMappingStart :: ts else ts

/-- The reader behind the colon of a key. -/
theorem StandsAtColon.act? {s : TokenReader} {after : List Char} {column : Nat}
    {ground : List Margin} {opened : Bool} {scalar : Token} {ts : List Token}
    (stands : StandsAtColon s after column ground opened scalar ts) (gap : atGap after = true)
    (tab : after.head? ≠ some '\t') :
    ∃ r, s.act? = some r ∧ r.Outside ∧ r.cursor = s.cursor.advance 1 ∧
      r.margins = ⟨column + 1, false⟩ :: ⟨column, true⟩ :: ground ∧
      r.tokens = keyTokens opened scalar ts ∧ r.pending = none ∧ r.keyAllowed = false := by
  obtain ⟨⟨outer, inPair, untagged, ended⟩, hrest, hlt, hopening, htokens,
    ⟨key, hpending, hearlier, hcolumn⟩⟩ := stands
  have hindent : ¬ s.cursor.column < s.indent := by
    have := hopening.indent_le
    unfold indent
    omega
  have hlexeme : s.lexeme? ':' after = s.value? := by
    simp [lexeme?, hindent, gap]
  have hcolon : afterColon? s.cursor = some s.cursor.step := by
    have hstep : s.cursor.step.rest = after := by rw [Cursor.rest_step, hrest]; rfl
    unfold afterColon?
    simp only [hstep, if_neg tab]
  -- The tokens of the key belong before its scalar, where they were when it was marked.
  have hinsert (start : List Token) :
      insertAt key start s.tokens = scalar :: (start.reverse ++ ts) := by
    simp [insertAt, htokens, hearlier]
  let r : TokenReader :=
    { s with
      cursor := s.cursor.step
      margins := ⟨column + 1, false⟩ :: ⟨column, true⟩ :: ground
      tokens := keyTokens opened scalar ts
      pending := none
      keyAllowed := false }
  have hvalue : s.value? = some r := by
    unfold value?
    cases opened <;>
      simp [inFlow, outer, hcolon, hpending, hcolumn, hopening.openAt, hinsert, shiftMargin,
        Margin.shift, push, keyTokens, inPair, r]
  refine ⟨r, ?_, ⟨outer, inPair, rfl, ended⟩, rfl, rfl, rfl, rfl, rfl⟩
  rw [act?_eq_lexeme? hrest (by decide) (fun h => by omega), hlexeme, hvalue]
  exact dropStale?_of_none (show r.pending = none from rfl)

/-- A colon before a value on its line. -/
theorem StandsAtColon.colon_space {s : TokenReader} {rest : List Char} {column : Nat}
    {ground : List Margin} {opened : Bool} {scalar : Token} {ts : List Token}
    (stands : StandsAtColon s (' ' :: rest) column ground opened scalar ts)
    (token : StartsToken rest) :
    ∃ s' column', Follows s s' ∧
      Stands s' rest column'
        (⟨column + 1, false⟩ :: ⟨column, true⟩ :: ground, keyTokens opened scalar ts) false := by
  obtain ⟨r, hact, houtside, hcursor, hmargins, htokens, hpending, hkey⟩ :=
    stands.act? rfl (by simp)
  have hlt := stands.column_lt
  have hplace := Cursor.advance_line (show s.cursor.rest = [':'] ++ ' ' :: rest from stands.rest_eq)
    (by decide)
  have hrest : r.cursor.rest = spaces 1 ++ rest := by
    rw [hcursor, Cursor.rest_advance, stands.rest_eq]
    rfl
  have hcolumn : r.cursor.column = s.cursor.column + 1 := by
    rw [hcursor]
    exact congrArg Cursor.column hplace
  obtain ⟨s', hfollows, hstands⟩ := houtside.follows_spaces hact hcursor hrest
    (by rw [hrest, stands.rest_eq]; simp [spaces]) token hpending
  refine ⟨s', r.cursor.column + 1, hfollows, ?_⟩
  rw [hmargins, htokens, hkey, Margin.leave_of_le (by simp only [Margin.indent]; omega)] at hstands
  exact hstands

/-- A colon before a block of lines. -/
theorem StandsAtColon.colon_break {s : TokenReader} {d : Nat} {rest : List Char} {column : Nat}
    {ground : List Margin} {opened : Bool} {scalar : Token} {ts : List Token}
    (stands : StandsAtColon s ('\n' :: (spaces d ++ rest)) column ground opened scalar ts)
    (token : StartsToken rest) (right : column < d) :
    ∃ s', Follows s s' ∧
      Stands s' rest d
        (⟨column + 1, false⟩ :: ⟨column, true⟩ :: ground, keyTokens opened scalar ts) true := by
  obtain ⟨r, hact, houtside, hcursor, hmargins, htokens, hpending, hkey⟩ :=
    stands.act? rfl (by simp)
  have hrest : r.cursor.rest = '\n' :: (spaces d ++ rest) := by
    rw [hcursor, Cursor.rest_advance, stands.rest_eq]
    rfl
  obtain ⟨s', hfollows, hstands⟩ := houtside.follows_break hact hcursor hrest
    (by rw [hrest, stands.rest_eq]; simp) token (by simp [hpending])
  refine ⟨s', hfollows, ?_⟩
  rw [hmargins, htokens, Margin.leave_of_le (by simp only [Margin.indent]; omega)] at hstands
  exact hstands

/-! ## The end of a document -/

/-- At the end of the stream all collections end. -/
theorem Stands.finish {s : TokenReader} {column : Nat} {known : List Margin × List Token}
    {keyAllowed : Bool} (stands : Stands s [] column known keyAllowed) :
    ∃ r, s.act? = some r ∧ r.ended = true ∧ r.tokens = .streamEnd :: (leave (-1) known).2 := by
  obtain ⟨⟨outer, -, -, -⟩, hrest, -, hmargins, htokens, hpending, -, -⟩ := stands
  obtain ⟨ms, ts⟩ := known
  let r : TokenReader :=
    { s with
      margins := (leave (-1) (ms, ts)).1
      tokens := .streamEnd :: (leave (-1) (ms, ts)).2
      keyAllowed := false
      ended := true }
  have hfinish : s.finish? = some r := by
    unfold finish?
    simp [hpending, outer, closeTo, inFlow, hmargins, htokens, push, leave, r]
  refine ⟨r, ?_, rfl, rfl⟩
  unfold act?
  rw [hrest]
  simp only [hfinish]
  exact dropStale?_of_none hpending

/-- At the start of another document all collections end too, and no key is pending. -/
theorem Stands.documentStart {s : TokenReader} {after : List Char}
    {known : List Margin × List Token} {keyAllowed : Bool}
    (stands : Stands s ('-' :: '-' :: '-' :: after) 0 known keyAllowed)
    (gap : atGap after = true) :
    ∃ r, s.act? = some r ∧ r.ended = false ∧ s.cursor.index < r.cursor.index ∧
      r.cursor.size = s.cursor.size ∧ r.pending = none ∧ r.outer = [] ∧
      r.tokens = .documentStart :: (leave (-1) known).2 := by
  obtain ⟨⟨outer, -, -, ended⟩, hrest, hcolumn, hmargins, htokens, hpending, -, -⟩ := stands
  obtain ⟨ms, ts⟩ := known
  let r : TokenReader :=
    { s with
      cursor := s.cursor.advance 3
      margins := (leave (-1) (ms, ts)).1
      tokens := .documentStart :: (leave (-1) (ms, ts)).2
      keyAllowed := false }
  have hmarker : s.marker? .documentStart = some r := by
    unfold marker? leaveDocument?
    simp [dropKey?, hpending, outer, closeTo, inFlow, hmargins, htokens, push, moveTo, leave, r]
  have hstart : atDocumentStart ('-' :: '-' :: '-' :: after) = true := gap
  have hsize : (s.cursor.advance 3).size = s.cursor.size := Cursor.size_advance 3 _
  have hindex : s.cursor.index < (s.cursor.advance 3).index := by
    simp only [Cursor.size, Cursor.rest_advance, hrest, List.drop_succ_cons, List.drop_zero,
      List.length_cons] at hsize
    omega
  refine ⟨r, ?_, ended, hindex, hsize, hpending, outer, rfl⟩
  unfold act?
  rw [hrest]
  simp only [hcolumn, hstart, hmarker, true_and, if_true, show ('-' : Char) ≠ '%' by decide,
    if_false]
  exact dropStale?_of_none hpending

end Provision.Yaml.TokenReader
