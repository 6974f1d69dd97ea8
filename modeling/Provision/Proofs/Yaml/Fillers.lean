import Mathlib.Data.List.TakeWhile
import Provision.Proofs.Headings.Lines
import Provision.Proofs.Yaml.Lexemes
import Provision.Yaml.Reading

/-!
# Streams without a token

A line of blanks, with or without a comment behind them, holds no token (`IsFillerLine`). The reader
passes over one such line after the other (`TokenReader.skipGap?_fillerLine`), so that a stream of
nothing else has no token but its end (`tokens_of_fillers`) and is read as null
(`Value.ofYaml_of_fillers`).

The lines of a stream are those between all the breaks that YAML knows. Where a text is cut at line
feeds only, they are the parts of its lines between carriage returns, as far as the stream goes
(`cut_lines`).
-/

namespace Provision

namespace Yaml

/-- A line with no token on it: blanks, and perhaps a comment behind them. -/
def IsFillerLine (line : List Char) : Prop := ∀ x ∈ (line.dropWhile isBlank).head?, x = '#'

instance (line : List Char) : Decidable (IsFillerLine line) :=
  decidable_of_iff ((line.dropWhile isBlank).head?.all (· == '#') = true)
    (by simp [IsFillerLine, Option.all_eq_true])

/-- What is left of a filler line where the stream ends early is one as well. -/
theorem IsFillerLine.of_start {line start : List Char} (h : IsFillerLine line)
    (cut : start <+: line) : IsFillerLine start := by
  obtain ⟨more, rfl⟩ := cut
  intro x hx
  rw [IsFillerLine, List.dropWhile_append] at h
  split at h
  · next hall =>
    rw [List.isEmpty_iff] at hall
    rw [hall] at hx
    cases hx
  · next hsome =>
    obtain ⟨y, ys, hy⟩ := List.exists_cons_of_ne_nil (mt List.isEmpty_iff.2 hsome)
    rw [hy] at h hx
    exact h x hx

/-- Blanks alone. -/
theorem isFillerLine_of_blank {line : List Char} (blank : ∀ x ∈ line, isBlank x = true) :
    IsFillerLine line := by
  intro x hx
  rw [List.dropWhile_eq_nil_iff.2 blank] at hx
  cases hx

/-! ## Lines of a stream -/

/-- The lines of a stream. -/
def lines (cs : List Char) : List (List Char) := Text.pieces '\n' (streamText cs)

/-- The lines of a text, each cut at its carriage returns. -/
def lineParts (cs : List Char) : List (List Char) :=
  (Text.pieces '\n' cs).flatMap (Text.pieces '\r')

/-- A character that breaks no line belongs to the first part. -/
theorem lineParts_cons {x : Char} (cs : List Char) (feed : x ≠ '\n') (return_ : x ≠ '\r') :
    ∃ part parts, lineParts cs = part :: parts ∧ lineParts (x :: cs) = (x :: part) :: parts := by
  obtain ⟨line, more, hline⟩ := List.exists_cons_of_ne_nil (Text.pieces_ne_nil '\n' cs)
  obtain ⟨part, parts, hpart⟩ := List.exists_cons_of_ne_nil (Text.pieces_ne_nil '\r' line)
  have hline' : Text.pieces '\n' (x :: cs) = (x :: line) :: more := by
    rw [Text.pieces, if_neg feed, hline]
  have hpart' : Text.pieces '\r' (x :: line) = (x :: part) :: parts := by
    rw [Text.pieces, if_neg return_, hpart]
  refine ⟨part, parts ++ more.flatMap (Text.pieces '\r'), ?_, ?_⟩
  · rw [lineParts, hline, List.flatMap_cons, hpart, List.cons_append]
  · rw [lineParts, hline', List.flatMap_cons, hpart', List.cons_append]

/-- A character that breaks a line ends the first part. -/
theorem lineParts_break {x : Char} (h : x = '\n' ∨ x = '\r') (cs : List Char) :
    lineParts (x :: cs) = [] :: lineParts cs := by
  rcases h with rfl | rfl
  · rw [lineParts, Text.pieces_separator]
    rfl
  · obtain ⟨line, more, hline⟩ := List.exists_cons_of_ne_nil (Text.pieces_ne_nil '\n' cs)
    have hline' : Text.pieces '\n' ('\r' :: cs) = ('\r' :: line) :: more := by
      rw [Text.pieces, if_neg (by decide), hline]
    rw [lineParts, hline', List.flatMap_cons, Text.pieces_separator, lineParts, hline,
      List.flatMap_cons, List.cons_append]

/-- Lines that are cut from parts: the first line from the first part, and every other one from some
later part, each with its end perhaps missing. -/
def Cut : List (List Char) → List (List Char) → Prop
  | line :: more, part :: parts => line <+: part ∧ ∀ l ∈ more, ∃ p ∈ parts, l <+: p
  | _, _ => False

/-- A break ends a line and a part. -/
theorem Cut.break {ls parts : List (List Char)} (h : Cut ls parts) :
    Cut ([] :: ls) ([] :: parts) := by
  match ls, parts, h with
  | line :: more, part :: parts, ⟨hfirst, hmore⟩ =>
    refine ⟨List.prefix_refl _, List.forall_mem_cons.2 ⟨⟨part, List.mem_cons_self, hfirst⟩, ?_⟩⟩
    intro l hl
    obtain ⟨p, hp, hcut⟩ := hmore l hl
    exact ⟨p, List.mem_cons_of_mem _ hp, hcut⟩

/-- The first character of a break of two ends a part that no line is cut from. -/
theorem Cut.skip {ls parts : List (List Char)} (h : Cut ls ([] :: parts)) :
    Cut ls ([] :: [] :: parts) := by
  match ls, h with
  | line :: more, ⟨hfirst, hmore⟩ =>
    refine ⟨hfirst, fun l hl => ?_⟩
    obtain ⟨p, hp, hcut⟩ := hmore l hl
    exact ⟨p, List.mem_cons_of_mem _ hp, hcut⟩

/-- Each line of a stream is a part of a line of its text, but the stream may end in it. -/
theorem cut_lines (cs : List Char) : Cut (lines cs) (lineParts cs) := by
  unfold lines
  induction cs with
  | nil => exact ⟨List.prefix_refl _, nofun⟩
  | cons x cs ih =>
    by_cases hend : x = '\x00'
    · subst hend
      obtain ⟨part, parts, -, hparts⟩ := lineParts_cons cs (x := '\x00') (by decide) (by decide)
      rw [hparts]
      exact ⟨List.nil_prefix, nofun⟩
    by_cases hreturn : x = '\r'
    · subst hreturn
      rw [lineParts_break (.inr rfl), streamText, if_neg hend, if_pos rfl]
      split
      · next hfeed =>
        obtain ⟨cs, rfl⟩ := List.head?_eq_some_iff.1 hfeed
        rw [lineParts_break (.inl rfl)] at ih ⊢
        exact ih.skip
      · rw [Text.pieces_separator]
        exact ih.break
    rw [streamText, if_neg hend, if_neg hreturn]
    by_cases hfeed : x = '\n'
    · subst hfeed
      rw [lineParts_break (.inl rfl), Text.pieces_separator]
      exact ih.break
    · obtain ⟨part, parts, hparts, hparts'⟩ := lineParts_cons cs hfeed hreturn
      obtain ⟨line, more, hlines⟩ :=
        List.exists_cons_of_ne_nil (Text.pieces_ne_nil '\n' (streamText cs))
      rw [hparts, hlines] at ih
      rw [hparts', Text.pieces, if_neg hfeed, hlines]
      exact ⟨List.cons_prefix_cons.2 ⟨rfl, ih.1⟩, ih.2⟩

/-- Parts that are filler make a stream of filler lines. -/
theorem isFillerLine_of_mem_lines {cs line : List Char} (h : line ∈ lines cs)
    (parts : ∀ part ∈ lineParts cs, IsFillerLine part) : IsFillerLine line := by
  have hcut := cut_lines cs
  match lines cs, lineParts cs, hcut, h, parts with
  | _ :: _, _ :: _, ⟨hfirst, hmore⟩, h, parts =>
    rcases List.mem_cons.1 h with rfl | h
    · exact (parts _ List.mem_cons_self).of_start hfirst
    · obtain ⟨p, hp, hcut⟩ := hmore line h
      exact (parts p (List.mem_cons_of_mem _ hp)).of_start hcut

/-! ## Reading filler -/

namespace TokenReader

/-- A tab indents nothing outside all collections. -/
theorem tabIndents_outside (c : Cursor) : tabIndents (-1) c = false := by
  have hnone : ((-1 : Int) - c.column).toNat = 0 := by omega
  rw [tabIndents, hnone, List.take_zero, List.contains_nil, Bool.and_false]

/-- The reader passes over a filler line, and stops where the stream ends with it. -/
theorem skipGap?_fillerLine (n : Nat) {c : Cursor} {line after : List Char}
    (rest : c.rest = line ++ after) (filler : IsFillerLine line) (unbroken : '\n' ∉ line)
    (ends : ∀ x ∈ after.head?, x = '\n') :
    skipGap? (-1) (n + 1) c =
      if after = [] then some (c.advance line.length, false)
      else (skipGap? (-1) n (c.advance (line.length + 1))).map fun p => (p.1, true) := by
  have hsplit : c.rest = line.takeWhile isBlank ++ (line.dropWhile isBlank ++ after) := by
    rw [← List.append_assoc, List.takeWhile_append_dropWhile, rest]
  -- Behind the blanks stands a comment or nothing, so that they end there.
  have hskip : c.skip isBlank = c.advance (line.takeWhile isBlank).length := by
    refine Cursor.skip_eq hsplit (fun _ => List.mem_takeWhile_imp) fun x hx => ?_
    cases hdrop : line.dropWhile isBlank with
    | nil =>
      rw [hdrop, List.nil_append] at hx
      rw [ends x hx]
      rfl
    | cons y ys =>
      rw [hdrop] at hx
      cases hx
      rw [filler x (by rw [hdrop]; rfl)]
      rfl
  have hlength : (line.takeWhile isBlank).length + (line.dropWhile isBlank).length =
      line.length := by
    rw [← List.length_append, List.takeWhile_append_dropWhile]
  have hbehind : (c.advance (line.takeWhile isBlank).length).rest =
      line.dropWhile isBlank ++ after := by
    rw [Cursor.rest_advance, hsplit, List.drop_left]
  have hpassed : (if (c.skip isBlank).rest.head? = some '#' then (c.skip isBlank).lineEnd
      else c.skip isBlank) = c.advance line.length := by
    rw [hskip, hbehind, ← hlength, Cursor.advance_add]
    cases hdrop : line.dropWhile isBlank with
    | nil =>
      have hhead : after.head? ≠ some '#' := fun h => absurd (ends '#' h) (by decide)
      rw [List.nil_append, if_neg hhead]
      rfl
    | cons y ys =>
      obtain rfl : y = '#' := filler y (by rw [hdrop]; rfl)
      rw [hdrop] at hbehind
      rw [List.cons_append, List.head?_cons, if_pos rfl]
      refine Cursor.skip_eq hbehind (fun x hx => bne_iff_ne.2 ?_) fun x hx => ?_
      · rintro rfl
        exact unbroken ((List.dropWhile_sublist isBlank).subset (by rwa [hdrop]))
      · rw [ends x hx]
        rfl
  have hrest : (c.advance line.length).rest = after := by
    rw [Cursor.rest_advance, rest, List.drop_left]
  rw [skipGap?, tabIndents_outside, Bool.false_and, hpassed, hrest]
  cases after with
  | nil => rfl
  | cons x after =>
    obtain rfl : x = '\n' := ends x rfl
    rw [Cursor.advance_succ]
    rfl

/-- Filler lines are passed over one after the other, up to the end of the stream. -/
theorem skipGap?_fillers {ls : List (List Char)} (nonempty : ls ≠ [])
    (filler : ∀ line ∈ ls, IsFillerLine line) (unbroken : ∀ line ∈ ls, '\n' ∉ line) {c : Cursor}
    (rest : c.rest = Text.join '\n' ls) {n : Nat} (enough : ls.length ≤ n) :
    ∃ c' newLine, skipGap? (-1) n c = some (c', newLine) ∧ c'.rest = [] := by
  induction ls generalizing c n with
  | nil => exact absurd rfl nonempty
  | cons line ls ih =>
    obtain ⟨hfiller, hfillers⟩ := List.forall_mem_cons.1 filler
    obtain ⟨hbroken, hbrokens⟩ := List.forall_mem_cons.1 unbroken
    obtain ⟨m, rfl⟩ := Nat.exists_eq_add_of_lt (Nat.lt_of_lt_of_le (Nat.succ_pos _) enough)
    rw [Nat.zero_add]
    cases ls with
    | nil =>
      have hrest : c.rest = line ++ [] := by rw [rest, List.append_nil]; rfl
      rw [skipGap?_fillerLine m hrest hfiller hbroken nofun, if_pos rfl]
      exact ⟨_, _, rfl, by rw [Cursor.rest_advance, hrest, List.drop_left]⟩
    | cons next more =>
      have hrest : c.rest = line ++ '\n' :: Text.join '\n' (next :: more) := rest
      have hends : ∀ x ∈ ('\n' :: Text.join '\n' (next :: more)).head?, x = '\n' := by
        rintro x ⟨⟩
        rfl
      have hnext : (c.advance (line.length + 1)).rest = Text.join '\n' (next :: more) := by
        rw [Cursor.rest_advance, hrest, ← List.drop_drop, List.drop_left]
        rfl
      obtain ⟨c', newLine, hskip, hend⟩ := ih (List.cons_ne_nil _ _) hfillers hbrokens hnext
        (n := m) (by rw [List.length_cons] at enough; omega)
      rw [skipGap?_fillerLine m hrest hfiller hbroken hends, if_neg (List.cons_ne_nil _ _), hskip]
      exact ⟨c', true, rfl, hend⟩

end TokenReader

/-- There is a line break between any two lines. -/
theorem length_le_join (ls : List (List Char)) : ls.length ≤ (Text.join '\n' ls).length + 1 := by
  induction ls with
  | nil => exact Nat.zero_le _
  | cons line ls ih =>
    cases ls with
    | nil => simp [Text.join]
    | cons next more =>
      have hjoin : (Text.join '\n' (line :: next :: more)).length =
          line.length + ((Text.join '\n' (next :: more)).length + 1) := List.length_append
      simp only [List.length_cons] at ih ⊢
      omega

open TokenReader in
/-- A stream of filler lines has no token but its end. -/
theorem tokens_of_fillers {cs : List Char} (filler : ∀ line ∈ lines cs, IsFillerLine line) :
    tokens cs = [.streamEnd] := by
  let start : TokenReader := { cursor := { rest := streamText cs } }
  have hjoin : start.cursor.rest = Text.join '\n' (lines cs) := (Text.join_pieces '\n' _).symm
  have henough : (lines cs).length ≤ start.cursor.rest.length + 1 := by
    rw [hjoin]
    exact length_le_join _
  obtain ⟨c, newLine, hgap, hrest⟩ := skipGap?_fillers (Text.pieces_ne_nil _ _) filler
    (fun _ => Text.separator_notMem_of_mem_pieces) hjoin henough
  have outside : start.Outside := ⟨rfl, rfl, rfl, rfl⟩
  obtain ⟨s, hsettled, hstands⟩ := settled?_of_gap outside hgap nofun
  rw [hrest] at hstands
  obtain ⟨r, hact, hended, htokens⟩ := hstands.finish
  show run _ start = _
  rw [run_eq_of_ended hsettled hact hended, htokens]
  rfl

end Yaml

/-- A text of filler lines is read as null. -/
theorem Value.ofYaml_of_fillers {text : String}
    (filler : ∀ line ∈ Yaml.lines (Yaml.dropByteOrderMark text.toList), Yaml.IsFillerLine line) :
    Value.ofYaml text = .ok .null := by
  unfold Value.ofYaml
  rw [Yaml.tokens_of_fillers filler]
  rfl

end Provision
