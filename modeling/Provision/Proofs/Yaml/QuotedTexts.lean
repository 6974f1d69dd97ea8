import Provision.Proofs.Yaml.Gaps

/-!
# Quoted texts

What the writer puts between quotes is read as the string that it was made of: between double quotes
any string (`Quoted.read?_doubleQuoted`), between single quotes one without line breaks
(`Quoted.read?_singleQuoted`). Both are the same induction over the characters of the string, in
which only spaces wait for what follows them.
-/

namespace Provision.Yaml.Quoted

open Writing (escapedChar doubleQuoted singleQuoted hexDigit hexText)

/-! ## Character by character -/

/-- What waits between the text so far and the next character: nothing, or blanks. -/
inductive Waiting : State → List Char → Prop
  | text : Waiting .text []
  | blanks (seen : List Char) : Waiting (.blanks seen) seen.reverse

/-- Whether a character is read back from the way in which it is written. -/
def ReadsBack (style : Style) (indent : Int) (written : List Char) (c : Char) : Prop :=
  ∀ {state : State} {gap : List Char}, Waiting state gap → ∀ (column : Nat) (rest : List Char),
    read? style indent state column (written ++ rest) =
      (read? style indent .text (column + written.length) rest).map fun p =>
        (gap ++ c :: p.1, p.2 + written.length)

variable {α : Type} {style : Style} {indent : Int} {write : α → List Char} {items : List α}

/-- Behind characters that are spaces or read back, the text goes on, perhaps with blanks that
wait. -/
theorem read?_append (char : α → Char)
    (each : ∀ i ∈ items,
      (char i = ' ' ∧ write i = [' ']) ∨ ReadsBack style indent (write i) (char i))
    {state : State} {gap : List Char} (waiting : Waiting state gap) (column : Nat)
    (rest : List Char) :
    ∃ state' gap' taken column', Waiting state' gap' ∧ gap ++ items.map char = taken ++ gap' ∧
      read? style indent state column (items.flatMap write ++ rest) =
        (read? style indent state' column' rest).map fun p =>
          (taken ++ p.1, p.2 + (items.flatMap write).length) := by
  induction items generalizing state gap column with
  | nil => exact ⟨state, gap, [], column, waiting, by simp, by simp⟩
  | cons i items ih =>
    obtain ⟨hfirst, hothers⟩ := List.forall_mem_cons.1 each
    rw [List.flatMap_cons, List.append_assoc]
    -- A space waits with those before it; any other character takes what waits into the text.
    rcases hfirst with ⟨hspace, hwrite⟩ | hread
    · obtain ⟨seen, hstep, hseen⟩ : ∃ seen,
          step? style indent state column ' ' (items.flatMap write ++ rest) =
            some (.next [] (.blanks seen)) ∧ seen.reverse = gap ++ [' '] := by
        cases waiting with
        | text => exact ⟨[' '], by simp [step?, isBlank], rfl⟩
        | blanks seen => exact ⟨' ' :: seen, by simp [step?, isBlank], by simp⟩
      obtain ⟨state', gap', taken, column', hwaiting, htaken, hrest⟩ :=
        ih hothers (.blanks seen) (column + 1)
      refine ⟨state', gap', taken, column', hwaiting, ?_, ?_⟩
      · rw [List.map_cons, hspace, ← htaken, hseen, List.append_assoc, List.singleton_append]
      · rw [hwrite, List.singleton_append, read?, hstep]
        simp only [Char.reduceEq, if_false]
        rw [hrest]
        simp [Option.map_map, Function.comp_def, Nat.add_assoc]
    · obtain ⟨state', gap', taken, column', hwaiting, htaken, hrest⟩ :=
        ih hothers .text (column + (write i).length)
      refine ⟨state', gap', gap ++ char i :: taken, column', hwaiting, ?_, ?_⟩
      · rw [List.nil_append] at htaken
        rw [List.map_cons, htaken, List.append_assoc, List.cons_append]
      · rw [hread waiting, hrest, List.length_append]
        simp [Option.map_map, Function.comp_def, Nat.add_comm (write i).length, Nat.add_assoc]

/-- Text whose characters are spaces or read back is read up to what ends it. -/
theorem read?_flatMap (char : α → Char)
    (each : ∀ i ∈ items,
      (char i = ' ' ∧ write i = [' ']) ∨ ReadsBack style indent (write i) (char i))
    {close : List Char} (n : Nat)
    (closes : ∀ {state : State} {gap : List Char}, Waiting state gap → ∀ column,
      read? style indent state column close = some (gap, n))
    (column : Nat) :
    read? style indent .text column (items.flatMap write ++ close) =
      some (items.map char, (items.flatMap write).length + n) := by
  obtain ⟨state, gap, taken, column', hwaiting, htaken, hrest⟩ :=
    read?_append char each .text column close
  rw [hrest, closes hwaiting, Option.map_some, ← htaken, List.nil_append, Nat.add_comm]

/-! ## Double quotes -/

/-- A backslash and a letter. -/
theorem readsBack_escape (indent : Int) {letter c : Char} (escape : escaped? letter = some c)
    (unbroken : letter ≠ '\n') : ReadsBack .double indent ['\\', letter] c := by
  intro state gap waiting column rest
  cases waiting <;>
    simp [read?, step?, content, isBlank, Outcome.after, escape, unbroken, Option.map_map,
      Function.comp_def]

theorem hexValue?_hexDigit : ∀ n < 16, Numeral.hexValue? (hexDigit n) = some n := by decide

theorem hexDigit_ne_break : ∀ n < 16, hexDigit n ≠ '\n' := by decide

/-- A code point of two hexadecimal digits. -/
theorem readsBack_hexText (indent : Int) {c : Char} (h : c.toNat < 256) :
    ReadsBack .double indent ('\\' :: 'x' :: hexText c.toNat) c := by
  intro state gap waiting column rest
  have hhigh := hexValue?_hexDigit (c.toNat / 16) (by omega)
  have hlow := hexValue?_hexDigit (c.toNat % 16) (by omega)
  have hhigh' := hexDigit_ne_break (c.toNat / 16) (by omega)
  have hlow' := hexDigit_ne_break (c.toNat % 16) (by omega)
  have hcode : ofCode? (c.toNat / 16 * 16 + c.toNat % 16) = some c := by
    have hvalid : c.toNat.isValidChar := c.valid
    rw [Nat.div_add_mod', ofCode?, if_pos hvalid, Char.ofNat_toNat]
  cases waiting <;>
    simp [hexText, read?, step?, content, isBlank, Outcome.after, escaped?, codeLength?, hhigh,
      hlow, hhigh', hlow', hcode, Option.map_map, Function.comp_def, Nat.add_assoc]

/-- The three ways in which a character stands between double quotes. -/
theorem escapedChar_cases (c : Char) :
    (∃ letter, escapedChar c = ['\\', letter] ∧ escaped? letter = some c ∧
        Text.isControl letter = false) ∨
      (escapedChar c = '\\' :: 'x' :: hexText c.toNat ∧ c.toNat < 256) ∨
      (escapedChar c = [c] ∧ c ≠ '\\' ∧ c ≠ '"' ∧ Text.isControl c = false) := by
  by_cases hback : c = '\\'
  · subst hback
    exact .inl ⟨'\\', rfl, rfl, rfl⟩
  by_cases hquote : c = '"'
  · subst hquote
    exact .inl ⟨'"', rfl, rfl, rfl⟩
  by_cases hlf : c = '\n'
  · subst hlf
    exact .inl ⟨'n', rfl, rfl, rfl⟩
  by_cases htab : c = '\t'
  · subst htab
    exact .inl ⟨'t', rfl, rfl, rfl⟩
  by_cases hcr : c = '\r'
  · subst hcr
    exact .inl ⟨'r', rfl, rfl, rfl⟩
  by_cases hnul : c = '\x00'
  · subst hnul
    exact .inl ⟨'0', rfl, rfl, rfl⟩
  have hrest : escapedChar c =
      if Text.isControl c then '\\' :: 'x' :: hexText c.toNat else [c] := by
    simp only [escapedChar, hback, hquote, hlf, htab, hcr, hnul, if_false]
  cases hcontrol : Text.isControl c with
  | true =>
    rw [hcontrol, if_pos rfl] at hrest
    simp only [Text.isControl, Bool.or_eq_true, decide_eq_true_eq, Bool.and_eq_true] at hcontrol
    exact .inr (.inl ⟨hrest, by omega⟩)
  | false =>
    rw [hcontrol, if_neg (by decide)] at hrest
    exact .inr (.inr ⟨hrest, hback, hquote, rfl⟩)

theorem readsBack_escapedChar (indent : Int) {c : Char} (space : c ≠ ' ') :
    ReadsBack .double indent (escapedChar c) c := by
  rcases escapedChar_cases c with ⟨letter, h, hescape, hvisible⟩ | ⟨h, hlt⟩ |
    ⟨h, hback, hquote, hvisible⟩
  · rw [h]
    exact readsBack_escape indent hescape (Text.ne_of_visible hvisible rfl)
  · rw [h]
    exact readsBack_hexText indent hlt
  · have hlf : c ≠ '\n' := Text.ne_of_visible hvisible rfl
    have htab : c ≠ '\t' := Text.ne_of_visible hvisible rfl
    intro state gap waiting column rest
    rw [h]
    cases waiting <;>
      simp [read?, step?, content, isBlank, Outcome.after, hback, hquote, hlf, htab, space]

/-- Any string is read back from between double quotes. -/
theorem read?_doubleQuoted (indent : Int) (cs : List Char) (column : Nat) (after : List Char) :
    read? .double indent .text column (cs.flatMap escapedChar ++ '"' :: after) =
      some (cs, (cs.flatMap escapedChar).length + 1) := by
  rw [read?_flatMap id (fun c _ => ?_) 1 (fun waiting column => ?_) column, List.map_id]
  · by_cases h : c = ' '
    · subst h
      exact .inl ⟨rfl, rfl⟩
    · exact .inr (readsBack_escapedChar indent h)
  · cases waiting <;> simp [read?, step?, content, isBlank, Outcome.after]

theorem isControl_hexDigit : ∀ n < 16, Text.isControl (hexDigit n) = false := by decide

/-- Nothing between double quotes is a control character. -/
theorem visible_doubleQuoted {cs : List Char} :
    ∀ x ∈ doubleQuoted cs, Text.isControl x = false := by
  have hchar (c : Char) : ∀ x ∈ escapedChar c, Text.isControl x = false := by
    intro x hx
    rcases escapedChar_cases c with ⟨letter, h, -, hvisible⟩ | ⟨h, hlt⟩ | ⟨h, -, -, hvisible⟩
    · rw [h] at hx
      simp only [List.mem_cons, List.not_mem_nil, or_false] at hx
      rcases hx with rfl | rfl
      · rfl
      · exact hvisible
    · rw [h] at hx
      simp only [hexText, List.mem_cons, List.not_mem_nil, or_false] at hx
      rcases hx with rfl | rfl | rfl | rfl
      · rfl
      · rfl
      · exact isControl_hexDigit _ (by omega)
      · exact isControl_hexDigit _ (by omega)
    · rw [h] at hx
      rw [List.mem_singleton.1 hx]
      exact hvisible
  intro x hx
  rcases List.mem_cons.1 hx with rfl | hx
  · rfl
  · rcases List.mem_append.1 hx with hx | hx
    · obtain ⟨c, -, hc⟩ := List.mem_flatMap.1 hx
      exact hchar c x hc
    · rw [List.mem_singleton.1 hx]
      rfl

/-! ## Single quotes -/

/-- A character between single quotes, in which a quote is written twice. -/
def doubledQuote (c : Char) : List Char := if c = '\'' then ['\'', '\''] else [c]

theorem readsBack_doubledQuote (indent : Int) {c : Char} (space : c ≠ ' ') (tab : c ≠ '\t')
    (unbroken : c ≠ '\n') : ReadsBack .single indent (doubledQuote c) c := by
  intro state gap waiting column rest
  by_cases h : c = '\''
  · subst h
    cases waiting <;>
      simp [doubledQuote, read?, step?, content, isBlank, Outcome.after, Option.map_map,
        Function.comp_def]
  · cases waiting <;>
      simp [doubledQuote, h, read?, step?, content, isBlank, Outcome.after, space, tab, unbroken]

/-- A string without tabs and line breaks is read back from between single quotes. -/
theorem read?_singleQuoted (indent : Int) {cs : List Char} (tabs : '\t' ∉ cs)
    (unbroken : '\n' ∉ cs) (column : Nat) {after : List Char} (follows : after.head? ≠ some '\'') :
    read? .single indent .text column (cs.flatMap doubledQuote ++ '\'' :: after) =
      some (cs, (cs.flatMap doubledQuote).length + 1) := by
  rw [read?_flatMap id (fun c hc => ?_) 1 (fun waiting column => ?_) column, List.map_id]
  · by_cases h : c = ' '
    · subst h
      exact .inl ⟨rfl, rfl⟩
    · exact .inr (readsBack_doubledQuote indent h (fun e => tabs (e ▸ hc))
        (fun e => unbroken (e ▸ hc)))
  · cases waiting <;> simp [read?, step?, content, isBlank, Outcome.after, follows]

/-- Quotes that are doubled are no control characters. -/
theorem visible_singleQuoted {cs : List Char} (visible : ∀ x ∈ cs, Text.isControl x = false) :
    ∀ x ∈ singleQuoted cs, Text.isControl x = false := by
  intro x hx
  rcases List.mem_cons.1 hx with rfl | hx
  · rfl
  · rcases List.mem_append.1 hx with hx | hx
    · obtain ⟨c, hmem, hc⟩ := List.mem_flatMap.1 hx
      split at hc
      · simp only [List.mem_cons, List.not_mem_nil, or_false, or_self] at hc
        rw [hc]
        rfl
      · rw [List.mem_singleton.1 hc]
        exact visible c hmem
    · rw [List.mem_singleton.1 hx]
      rfl

end Provision.Yaml.Quoted
