import Provision.Proofs.Yaml.Margins
import Provision.Proofs.Yaml.Steps

/-!
# Where the reader stands

What a settled reader outside flow collections knows, as far as the next tokens depend on it: the
text that is left, its column, the margins and the tokens so far (`Stands`). `settled?_of_gap`
brings a reader there from behind its last token, with the collections closed that the new column
leaves.
-/

namespace Provision.Yaml

open Writing (spaces)

namespace Cursor

/-- Blanks after an indicator. -/
theorem blanksAndComment?_blanks {c : Cursor} {blanks after : List Char}
    (rest : c.rest = blanks ++ after) (inside : ∀ x ∈ blanks, isBlank x = true)
    (ends : ∀ x ∈ after.head?, isBlank x = false ∧ x ≠ '#') :
    c.blanksAndComment? isBlank = some (blanks, c.advance blanks.length) := by
  have outside : ∀ x ∈ after.head?, isBlank x = false := fun x hx => (ends x hx).1
  have hspan := span_eq rest inside outside
  have hskip := skip_eq rest inside outside
  have hrest : (c.advance blanks.length).rest = after := by
    rw [rest_advance, rest, List.drop_left]
  have hash : after.head? ≠ some '#' := fun h => (ends '#' h).2 rfl
  unfold blanksAndComment?
  rw [hspan, hskip]
  simp only [hrest, if_neg hash]

/-- Spaces after an indicator. -/
theorem blanksAndComment?_spaces {c : Cursor} {n : Nat} {after : List Char}
    (rest : c.rest = spaces n ++ after) (ends : ∀ x ∈ after.head?, isBlank x = false ∧ x ≠ '#') :
    c.blanksAndComment? isBlank = some (spaces n, c.advance n) := by
  have hblanks := blanksAndComment?_blanks rest (fun _ => isBlank_of_mem_spaces) ends
  rwa [length_spaces] at hblanks

end Cursor

namespace TokenReader

/-- A reader outside flow collections that has not come to the end, with no tag or anchor behind
it. -/
structure Outside (r : TokenReader) : Prop where
  outer : r.outer = []
  inPair : r.inPair = false
  untagged : r.afterMarginProperty = false
  ended : r.ended = false

/-- A settled reader before `rest`, at a column, with open collections and tokens so far, and with
no key pending. -/
structure Stands (s : TokenReader) (rest : List Char) (column : Nat)
    (known : List Margin × List Token) (keyAllowed : Bool) : Prop extends Outside s where
  rest_eq : s.cursor.rest = rest
  column_eq : s.cursor.column = column
  margins_eq : s.margins = known.1
  tokens_eq : s.tokens = known.2
  pending_eq : s.pending = none
  keyAllowed_eq : s.keyAllowed = keyAllowed
  indent_le : Margin.indent known.1 ≤ column

theorem Stands.indent_le_column {s : TokenReader} {rest : List Char} {column : Nat}
    {known : List Margin × List Token} {keyAllowed : Bool}
    (stands : Stands s rest column known keyAllowed) : ¬ s.cursor.column < s.indent := by
  have := stands.indent_le
  rw [← stands.margins_eq, ← stands.column_eq] at this
  unfold indent
  omega

/-- Ends of collections are no tags or anchors. -/
theorem Outside.closeTo {r : TokenReader} (outside : r.Outside) (column : Int) :
    (r.closeTo column).Outside ∧ (r.closeTo column).cursor = r.cursor ∧
      (r.closeTo column).pending = r.pending ∧ (r.closeTo column).keyAllowed = r.keyAllowed ∧
      ((r.closeTo column).margins, (r.closeTo column).tokens) =
        Margin.leave column (r.margins, r.tokens) := by
  obtain ⟨outer, inPair, untagged, ended⟩ := outside
  obtain ⟨n, hn⟩ := Margin.close_ends column r.margins
  have hclose : r.closeTo column =
      { r with
        margins := (Margin.close column r.margins).1
        tokens := (Margin.close column r.margins).2 ++ r.tokens } := by
    simp [TokenReader.closeTo, inFlow, outer]
  rw [hclose]
  refine ⟨⟨outer, inPair, ?_, ended⟩, rfl, rfl, rfl, rfl⟩
  rw [hn]
  cases n with
  | zero => exact untagged
  | succ n => rfl

/-- A key that was pending on an earlier line is given up. -/
theorem dropStale?_of_line_lt {r : TokenReader} (outside : r.outer = [])
    (stale : ∀ key ∈ r.pending, key.required = false ∧ key.line < r.cursor.line) :
    r.dropStale? = some { r with pending := none } := by
  have hflow : r.inFlow = false := by rw [inFlow, outside]; rfl
  unfold dropStale?
  cases hkey : r.pending with
  | none =>
    obtain ⟨_, _, _, _, _, _, _, _, _, _, _⟩ := r
    cases hkey
    rfl
  | some key =>
    obtain ⟨hrequired, hline⟩ := stale key hkey
    simp [hflow, hrequired, hline]

theorem dropStale?_of_none {r : TokenReader} (pending : r.pending = none) :
    r.dropStale? = some r := by
  unfold dropStale?
  rw [pending]

/-- A key that is pending on this line, not too far back, stays. -/
theorem dropStale?_of_near {r : TokenReader} {key : PendingKey} (pending : r.pending = some key)
    (line : key.line = r.cursor.line) (near : r.cursor.index ≤ key.index + 1024) :
    r.dropStale? = some r := by
  have hline : ¬ key.line < r.cursor.line := by omega
  have hnear : ¬ key.index + 1024 < r.cursor.index := by omega
  unfold dropStale?
  simp [pending, hline, hnear]

/-- A reader comes to stand at its next token; a key that was pending before a line break is given
up behind it. -/
theorem settled?_of_gap {r : TokenReader} (outside : r.Outside) {c : Cursor} {newLine : Bool}
    (gap : skipGap? r.indent (r.cursor.rest.length + 1) r.cursor = some (c, newLine))
    (stale : ∀ key ∈ r.pending, key.required = false ∧ key.line < c.line) :
    ∃ s, r.settled? = some s ∧
      Stands s c.rest c.column (Margin.leave c.column (r.margins, r.tokens))
        (r.keyAllowed || newLine) := by
  have hflow : r.inFlow = false := by rw [inFlow, outside.outer]; rfl
  -- Settling passes through this reader: behind the gap, and with no key pending any more.
  let r₁ : TokenReader :=
    { r with cursor := c, keyAllowed := r.keyAllowed || newLine, pending := none }
  have hskip : r.skipToToken? =
      some { r with cursor := c, keyAllowed := r.keyAllowed || newLine } := by
    simp [skipToToken?, gap, hflow]
  have hdrop : dropStale? { r with cursor := c, keyAllowed := r.keyAllowed || newLine } =
      some r₁ := dropStale?_of_line_lt outside.outer stale
  have hr₁ : r₁.Outside := ⟨outside.outer, outside.inPair, outside.untagged, outside.ended⟩
  obtain ⟨houtside, hcursor, hpending, hkey, hknown⟩ := hr₁.closeTo c.column
  refine ⟨r₁.closeTo c.column, ?_, ?_⟩
  · simp [settled?, hskip, hdrop, r₁]
  · rw [← hknown]
    refine ⟨houtside, by rw [hcursor], by rw [hcursor], rfl, rfl, hpending, hkey, ?_⟩
    have := Margin.indent_leave (show -1 ≤ (c.column : Int) by omega) (r₁.margins, r₁.tokens)
    rwa [← hknown] at this

/-- A reader that has taken a token, and where it stands before the next one. -/
theorem Outside.follows {s r : TokenReader} (outside : r.Outside) (act : s.act? = some r)
    {n : Nat} (moved : r.cursor = s.cursor.advance n)
    (shorter : r.cursor.rest.length < s.cursor.rest.length) {c : Cursor} {newLine : Bool}
    (gap : skipGap? r.indent (r.cursor.rest.length + 1) r.cursor = some (c, newLine))
    (stale : ∀ key ∈ r.pending, key.required = false ∧ key.line < c.line) :
    ∃ s', Follows s s' ∧
      Stands s' c.rest c.column (Margin.leave c.column (r.margins, r.tokens))
        (r.keyAllowed || newLine) := by
  obtain ⟨s', hsettled, hstands⟩ := settled?_of_gap outside gap stale
  have hsize : r.cursor.size = s.cursor.size := by rw [moved, Cursor.size_advance]
  have hindex : s.cursor.index < r.cursor.index := by
    unfold Cursor.size at hsize
    omega
  exact ⟨s', ⟨r, act, outside.ended, hindex, hsize, hsettled⟩, hstands⟩

/-- The next token on the same line. -/
theorem Outside.follows_spaces {s r : TokenReader} (outside : r.Outside) (act : s.act? = some r)
    {k : Nat} (moved : r.cursor = s.cursor.advance k) {n : Nat} {rest : List Char}
    (rest_eq : r.cursor.rest = spaces n ++ rest)
    (shorter : r.cursor.rest.length < s.cursor.rest.length) (token : StartsToken rest)
    (pending : r.pending = none) :
    ∃ s', Follows s s' ∧
      Stands s' rest (r.cursor.column + n)
        (Margin.leave (r.cursor.column + n : Nat) (r.margins, r.tokens)) r.keyAllowed := by
  have hgap := skipGap?_spaces r.indent r.cursor.rest.length rest_eq token
  have hcursor := Cursor.advance_line rest_eq (Cursor.notMem_spaces (by decide))
  rw [Cursor.length_spaces] at hcursor
  obtain ⟨s', hfollows, hstands⟩ := outside.follows act moved shorter hgap (by simp [pending])
  rw [hcursor, Bool.or_false] at hstands
  exact ⟨s', hfollows, hstands⟩

/-- The next token on the next line. -/
theorem Outside.follows_break {s r : TokenReader} (outside : r.Outside) (act : s.act? = some r)
    {k : Nat} (moved : r.cursor = s.cursor.advance k) {d : Nat} {tail : List Char}
    (rest_eq : r.cursor.rest = '\n' :: (spaces d ++ tail))
    (shorter : r.cursor.rest.length < s.cursor.rest.length) (token : StartsToken tail)
    (stale : ∀ key ∈ r.pending, key.required = false ∧ key.line ≤ r.cursor.line) :
    ∃ s', Follows s s' ∧ Stands s' tail d (Margin.leave d (r.margins, r.tokens)) true := by
  have hgap := skipGap?_indentation r.indent rest_eq token
  have hcursor : r.cursor.advance ([].length + (d + 1)) = _ :=
    Cursor.advance_gap rest_eq List.not_mem_nil
  rw [List.length_nil, Nat.zero_add] at hcursor
  obtain ⟨s', hfollows, hstands⟩ := outside.follows act moved shorter hgap fun key hkey => by
    rw [hcursor]
    exact ⟨(stale key hkey).1, Nat.lt_succ_of_le (stale key hkey).2⟩
  rw [hcursor, Bool.or_true] at hstands
  exact ⟨s', hfollows, hstands⟩

end TokenReader

end Provision.Yaml
