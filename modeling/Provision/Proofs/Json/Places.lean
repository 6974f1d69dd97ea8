import Provision.Proofs.Json.Texts
import Provision.Proofs.Yaml.Fillers

/-!
# Where the reader stands in a JSON text

Between two tokens of a JSON text the reader knows little: what is left of the text, the tokens so
far and the flow collections that are open (`At`). There are no block collections, so indentation
does not matter, and in a flow collection neither do lines. White space therefore never stops the
reader (`At.settled?`), and a lexeme leads it to the next one (`At.follows`).
-/

namespace Provision.Json

open Yaml Yaml.TokenReader

/-! ## White space in a stream -/

/-- White space and nothing else. -/
def White (gap : List Char) : Prop := ∀ x ∈ gap, isSpace x = true

theorem Gap.isWhite (gap : Gap) : White gap.chars := fun _ => List.all_eq_true.1 gap.white _

theorem White.append {gap more : List Char} (h : White gap) (hmore : White more) :
    White (gap ++ more) :=
  List.forall_mem_append.2 ⟨h, hmore⟩

/-- What the next token of a JSON text may start with, or the end of the text. -/
def Starts (cs : List Char) : Prop :=
  ∀ x ∈ cs.head?, isGap x = false ∧ x ≠ '#' ∧ x ≠ '\r' ∧ x ≠ '\x00'

theorem Starts.startsToken {cs : List Char} (h : Starts cs) : StartsToken (streamText cs) := by
  cases cs with
  | nil => exact .nil
  | cons x cs =>
    obtain ⟨hgap, hash, hreturn, hzero⟩ := h x rfl
    rw [streamText_cons hzero hreturn]
    exact .cons hgap hash _

/-- White space is a gap of the stream, which is shorter where it has breaks of two characters. -/
theorem exists_gap {gap : List Char} (white : White gap) (cs : List Char) :
    ∃ g, (∀ x ∈ g, isGap x = true) ∧ streamText (gap ++ cs) = g ++ streamText cs ∧
      g.length ≤ gap.length := by
  induction gap with
  | nil => exact ⟨[], nofun, rfl, Nat.le_refl _⟩
  | cons x gap ih =>
    obtain ⟨hx, hgap⟩ := List.forall_mem_cons.1 white
    obtain ⟨g, hg, hstream, hlength⟩ := ih hgap
    have hspace : x = ' ' ∨ x = '\t' ∨ x = '\n' ∨ x = '\r' := by
      simpa [isSpace, or_assoc] using hx
    rw [List.cons_append]
    by_cases hreturn : x = '\r'
    · subst hreturn
      rw [streamText, if_neg (by decide), if_pos rfl]
      split
      · exact ⟨g, hg, hstream, Nat.le_succ_of_le hlength⟩
      · exact ⟨'\n' :: g, List.forall_mem_cons.2 ⟨rfl, hg⟩, by rw [hstream, List.cons_append],
          Nat.succ_le_succ hlength⟩
    · have hgap : isGap x = true ∧ x ≠ '\x00' := by
        rcases hspace with rfl | rfl | rfl | rfl
        · decide
        · decide
        · decide
        · exact absurd rfl hreturn
      refine ⟨x :: g, List.forall_mem_cons.2 ⟨hgap.1, hg⟩, ?_, Nat.succ_le_succ hlength⟩
      rw [streamText_cons hgap.2 hreturn, hstream, List.cons_append]

/-- White space that does not start with a blank starts with a line break. -/
theorem head?_streamText {gap : List Char} (white : White gap) (nonempty : gap ≠ [])
    (unblank : ∀ x ∈ gap.head?, isBlank x = false) (cs : List Char) :
    (streamText (gap ++ cs)).head? = some '\n' := by
  obtain ⟨y, more, rfl⟩ := List.exists_cons_of_ne_nil nonempty
  have hy : y = '\n' ∨ y = '\r' := by
    have hspace : isSpace y = true := white y List.mem_cons_self
    have hblank : isBlank y = false := unblank y rfl
    simp only [isSpace, isBlank, Bool.or_eq_true, Bool.or_eq_false_iff, beq_iff_eq,
      beq_eq_false_iff_ne] at hspace hblank
    simpa [hblank.1, hblank.2] using hspace
  rw [List.cons_append]
  rcases hy with rfl | rfl
  · rw [streamText_cons (by decide) (by decide), List.head?_cons]
  · rw [streamText, if_neg (by decide), if_pos rfl]
    split
    · next hfeed =>
      obtain ⟨after, hafter⟩ := List.head?_eq_some_iff.1 hfeed
      rw [hafter, streamText_cons (by decide) (by decide), List.head?_cons]
    · rfl

/-- The blanks at the start of white space, and the white space behind them, which starts with a
line break. -/
theorem blanksAndComment?_white {c : Cursor} {gap cs : List Char} (white : White gap)
    (starts : Starts cs) (rest : c.rest = streamText (gap ++ cs)) :
    ∃ gap', gap = gap.takeWhile isBlank ++ gap' ∧ White gap' ∧
      c.blanksAndComment? isBlank =
        some (gap.takeWhile isBlank, c.advance (gap.takeWhile isBlank).length) ∧
      (c.advance (gap.takeWhile isBlank).length).rest = streamText (gap' ++ cs) ∧
      (gap' ≠ [] → (streamText (gap' ++ cs)).head? = some '\n') := by
  have hblank : ∀ x ∈ gap.takeWhile isBlank, isBlank x = true := fun _ => List.mem_takeWhile_imp
  have hclean : ∀ x ∈ gap.takeWhile isBlank, x ≠ '\x00' ∧ x ≠ '\r' := by
    intro x hx
    have hx' := hblank x hx
    constructor <;> rintro rfl <;> cases hx'
  have hsplit : c.rest =
      gap.takeWhile isBlank ++ streamText (gap.dropWhile isBlank ++ cs) := by
    rw [rest, ← streamText_append hclean, ← List.append_assoc, List.takeWhile_append_dropWhile]
  have hwhite : White (gap.dropWhile isBlank) := fun x hx =>
    white x ((List.dropWhile_sublist isBlank).subset hx)
  have hbreak : gap.dropWhile isBlank ≠ [] →
      (streamText (gap.dropWhile isBlank ++ cs)).head? = some '\n' := by
    intro hnonempty
    refine head?_streamText hwhite hnonempty (fun x hx => ?_) cs
    have hnot := List.head?_dropWhile_not isBlank gap
    rw [hx] at hnot
    simpa using hnot
  refine ⟨gap.dropWhile isBlank, List.takeWhile_append_dropWhile.symm, hwhite,
    Cursor.blanksAndComment?_blanks hsplit hblank fun x hx => ?_, ?_, hbreak⟩
  · by_cases hnil : gap.dropWhile isBlank = []
    · rw [hnil] at hx
      obtain ⟨hgap, hash⟩ := starts.startsToken x hx
      exact ⟨isBlank_of_isGap hgap, hash⟩
    · rw [hbreak hnil] at hx
      cases hx
      decide
  · rw [Cursor.rest_advance, hsplit, List.drop_left]

/-- Outside block collections the reader passes over any gap. -/
theorem skipGap?_gap {c : Cursor} {gap tail : List Char} (white : ∀ x ∈ gap, isGap x = true)
    (rest : c.rest = gap ++ tail) (token : StartsToken tail) {n : Nat} (enough : gap.length < n) :
    ∃ newLine, skipGap? (-1) n c = some (c.advance gap.length, newLine) := by
  induction n generalizing c gap with
  | zero => exact absurd enough (Nat.not_lt_zero _)
  | succ n ih =>
    have hblank : ∀ x ∈ gap.takeWhile isBlank, isBlank x = true := fun _ => List.mem_takeWhile_imp
    have hsplit := List.takeWhile_append_dropWhile (p := isBlank) (l := gap)
    cases hdrop : gap.dropWhile isBlank with
    | nil =>
      rw [hdrop, List.append_nil] at hsplit
      rw [hsplit] at hblank
      exact ⟨false, skipGap?_blanks _ n rest hblank token (tabIndents_outside c)⟩
    | cons x more =>
      generalize gap.takeWhile isBlank = blanks at hsplit hblank
      rw [hdrop] at hsplit
      subst hsplit
      obtain ⟨hx, hmore⟩ := List.forall_mem_cons.1 (List.forall_mem_append.1 white).2
      obtain rfl : x = '\n' := by
        have hnot := List.head?_dropWhile_not isBlank (blanks ++ x :: more)
        rw [hdrop] at hnot
        simp only [List.head?_cons] at hnot
        simpa [isGap, hnot] using hx
      have hrest : c.rest = blanks ++ '\n' :: (more ++ tail) := by simpa using rest
      have hunbroken : '\n' ∉ blanks := fun h => absurd (hblank _ h) (by decide)
      have hline := skipGap?_fillerLine n hrest (isFillerLine_of_blank hblank) hunbroken
        (by rintro x ⟨⟩; rfl)
      have hnext : (c.advance (blanks.length + 1)).rest = more ++ tail := by
        rw [Cursor.rest_advance, hrest, ← List.drop_drop, List.drop_left]
        rfl
      obtain ⟨newLine, hskip⟩ := ih hmore hnext (by
        rw [List.length_append, List.length_cons] at enough
        omega)
      rw [if_neg (List.cons_ne_nil _ _), hskip, ← Cursor.advance_add] at hline
      refine ⟨true, ?_⟩
      rw [hline, List.length_append, List.length_cons, Nat.add_assoc, Nat.add_comm 1]
      rfl

/-! ## Readers -/

/-- A reader with the rest of a JSON text before it, tokens behind it and flow collections around
it, the innermost first. No block collection and no pair without braces is open, no pending key is
required, and if a mapping is open the pairs need no braces of their own. -/
structure At (r : TokenReader) (rest : List Char) (tokens : List Token)
    (outer : List (Option PendingKey)) (braced : Bool) : Prop where
  rest_eq : r.cursor.rest = streamText rest
  tokens_eq : r.tokens = tokens
  outer_eq : r.outer = outer
  margins_eq : r.margins = []
  inPair_eq : r.inPair = false
  ended_eq : r.ended = false
  free : ∀ key ∈ r.pending, key.required = false
  braced_of : braced = true → r.braced = true

variable {r s : TokenReader} {rest : List Char} {tokens : List Token}
  {outer : List (Option PendingKey)} {braced : Bool}

theorem At.inFlow_eq (h : At r rest tokens outer braced) : r.inFlow = !outer.isEmpty := by
  rw [TokenReader.inFlow, h.outer_eq]

theorem At.indent_eq (h : At r rest tokens outer braced) : r.indent = -1 := by
  rw [TokenReader.indent, h.margins_eq]
  rfl

/-- A reader that has only moved. -/
theorem At.moveTo {tail : List Char} (h : At r rest tokens outer braced) {c : Cursor}
    (moved : c.rest = streamText tail) : At (r.moveTo c) tail tokens outer braced :=
  { h with rest_eq := moved }

/-- Giving up a stale key changes nothing else, and in a flow collection no key is stale. -/
theorem At.dropStale? (h : At r rest tokens outer braced) :
    ∃ r', r.dropStale? = some r' ∧ At r' rest tokens outer braced ∧ r'.cursor = r.cursor ∧
      r'.keyAllowed = r.keyAllowed ∧ (outer ≠ [] → r' = r) := by
  unfold TokenReader.dropStale?
  cases hkey : r.pending with
  | none => exact ⟨r, rfl, h, rfl, rfl, fun _ => rfl⟩
  | some key =>
    have hrequired : key.required = false := h.free key hkey
    simp only [h.inFlow_eq, hrequired, Bool.false_eq_true, if_false]
    split
    · next hstale =>
      refine ⟨_, rfl, { h with free := nofun }, rfl, rfl, fun hflow => ?_⟩
      rw [Bool.and_eq_true, Bool.not_not, List.isEmpty_iff] at hstale
      exact absurd hstale.1 hflow
    · exact ⟨r, rfl, h, rfl, rfl, fun _ => rfl⟩

theorem At.closeTo (h : At r rest tokens outer braced) (column : Int) : r.closeTo column = r := by
  unfold TokenReader.closeTo
  split
  · rfl
  · obtain ⟨_, _, _, _, _, _, _, _, _, _, _⟩ := r
    obtain rfl := h.margins_eq
    rfl

/-- The reader comes to stand behind white space, and knows there what it knew before. -/
theorem At.settled? {gap : List Char} (white : White gap) (starts : Starts rest)
    (h : At r (gap ++ rest) tokens outer braced) :
    ∃ s, r.settled? = some s ∧ At s rest tokens outer braced ∧
      (r.keyAllowed = true → s.keyAllowed = true) ∧
      (outer ≠ [] → ∃ n ≤ gap.length, s = r.moveTo (r.cursor.advance n)) := by
  obtain ⟨g, hg, hstream, hlength⟩ := exists_gap white rest
  have hrest : r.cursor.rest = g ++ streamText rest := by rw [h.rest_eq, hstream]
  have henough : g.length < r.cursor.rest.length + 1 := by
    rw [hrest, List.length_append]
    omega
  obtain ⟨newLine, hskip⟩ := skipGap?_gap hg hrest starts.startsToken henough
  have hmoved : (r.cursor.advance g.length).rest = streamText rest := by
    rw [Cursor.rest_advance, hrest, List.drop_left]
  -- Settling passes through this reader: behind the gap, perhaps with a stale key.
  let r₁ : TokenReader :=
    { r with
      cursor := r.cursor.advance g.length
      keyAllowed := r.keyAllowed || (newLine && !r.inFlow) }
  have hr₁ : At r₁ rest tokens outer braced := { h with rest_eq := hmoved }
  have hskipped : r.skipToToken? = some r₁ := by
    rw [skipToToken?, h.indent_eq, hskip]
    rfl
  obtain ⟨s, hdrop, hs, -, hkey, hflow⟩ := hr₁.dropStale?
  refine ⟨s, ?_, hs, fun hallowed => ?_, fun hnonempty =>
    ⟨g.length, hlength, ?_⟩⟩
  · rw [TokenReader.settled?, hskipped]
    show (r₁.dropStale?.bind _) = _
    rw [hdrop, Option.bind_some, hs.closeTo]
  · rw [hkey]
    simp [r₁, hallowed]
  · have hinFlow : r.inFlow = true := by
      rw [h.inFlow_eq]
      simpa using hnonempty
    rw [hflow hnonempty]
    simp [r₁, TokenReader.moveTo, hinFlow]

/-! ## Steps -/

/-- A lexeme leads the reader to the next token, past the white space between them. -/
theorem At.follows {x : Char} {after gap tail : List Char} {tokens' : List Token}
    {outer' : List (Option PendingKey)} {braced' : Bool} (h : At s (x :: after) tokens outer braced)
    (starts : Starts (x :: after)) (directive : x ≠ '%')
    (marker : atDocumentMarker (x :: streamText after) = false)
    (lexeme : s.lexeme? x (streamText after) = some r) {n : Nat}
    (moved : r.cursor = s.cursor.advance (n + 1)) (hr : At r (gap ++ tail) tokens' outer' braced')
    (white : White gap) (next : Starts tail) :
    ∃ s', Follows s s' ∧ At s' tail tokens' outer' braced' ∧
      (r.keyAllowed = true → s'.keyAllowed = true) ∧
      (outer' ≠ [] → ∃ k ≤ gap.length, s' = r.moveTo (r.cursor.advance k)) := by
  have hrest : s.cursor.rest = x :: streamText after := by
    obtain ⟨-, -, hreturn, hzero⟩ := starts x rfl
    rw [h.rest_eq, streamText_cons hzero hreturn]
  obtain ⟨r₁, hdrop, hr₁, hcursor, hkey, hsame⟩ := hr.dropStale?
  obtain ⟨s', hsettled, hs', hallowed, hflow⟩ := hr₁.settled? white next
  have hact : s.act? = some r₁ := by
    rw [act?_eq_lexeme? hrest directive fun _ => marker, lexeme, Option.bind_some, hdrop]
  have hsize : r₁.cursor.size = s.cursor.size := by rw [hcursor, moved, Cursor.size_advance]
  have hshorter : r₁.cursor.rest.length < s.cursor.rest.length := by
    rw [hcursor, moved, Cursor.rest_advance, hrest, List.length_drop, List.length_cons]
    omega
  have hindex : s.cursor.index < r₁.cursor.index := by
    unfold Cursor.size at hsize
    omega
  refine ⟨s', ⟨r₁, hact, hr₁.ended_eq, hindex, hsize, hsettled⟩, hs', fun h => ?_, fun hn => ?_⟩
  · exact hallowed (by rw [hkey, h])
  · obtain ⟨k, hle, hk⟩ := hflow hn
    exact ⟨k, hle, by rw [hk, hsame hn]⟩

/-- The same of a lexeme that takes the white space behind it along. -/
theorem At.follows_here {x : Char} {after tail : List Char} {tokens' : List Token}
    {outer' : List (Option PendingKey)} {braced' : Bool} (h : At s (x :: after) tokens outer braced)
    (starts : Starts (x :: after)) (directive : x ≠ '%')
    (marker : atDocumentMarker (x :: streamText after) = false)
    (lexeme : s.lexeme? x (streamText after) = some r) {n : Nat}
    (moved : r.cursor = s.cursor.advance (n + 1)) (hr : At r tail tokens' outer' braced')
    (next : Starts tail) :
    ∃ s', Follows s s' ∧ At s' tail tokens' outer' braced' ∧ (outer' ≠ [] → s' = r) := by
  have hempty : At r ([] ++ tail) tokens' outer' braced' := hr
  obtain ⟨s', hfollows, hs', -, hsame⟩ :=
    h.follows starts directive marker lexeme moved hempty nofun next
  refine ⟨s', hfollows, hs', fun hflow => ?_⟩
  obtain ⟨k, hk, rfl⟩ := hsame hflow
  obtain rfl := Nat.le_zero.1 hk
  rfl

end Provision.Json
