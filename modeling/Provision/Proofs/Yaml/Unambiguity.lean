import Provision.Proofs.Values.Alike
import Provision.Proofs.Yaml.WrittenLines

/-!
# Written texts are unambiguous

No two values have one text, entry order included (`Writing.document_injective`), so the canonical
text, which is that of the sorted value, tells a value up to the order of entries
(`Value.toYaml_eq_iff_alike`). The reader is not asked here: it takes neither very long keys nor a
byte order mark at the start, and the texts of values with these are unambiguous all the same.

* **scalars** — the text of a scalar tells the scalar and where it ends, before the colon of a key
  as well as at the end of a line (`ScalarText.eq_of_append_eq`);
* **lines** — what a collection holds is written from one column on, and a line further left ends it
  (`Leaves`), so its lines tell its members one after the other (`eq_of_lines_eq`);
* **blocks** — by induction on what is in them, the blocks of two values are not alike
  (`tellsBlock`).
-/

namespace Provision.Yaml

open Writing (spaces)

/-! ## Scalars -/

/-- What ends the text of a scalar on its line: the end, or the colon of a key. -/
def EndsScalar (after : List Char) : Prop :=
  after = [] ∨ ∃ more, after = ':' :: more ∧ atGap more = true

/-- The scalar at the start of a line: whether it is plain, its text, and how many characters it
takes. -/
def scalarAt? : List Char → Option (Bool × List Char × Nat)
  | '"' :: cs => (Quoted.read? .double 0 .text 0 cs).map fun (text, n) => (false, text, n + 1)
  | '\'' :: cs => (Quoted.read? .single 0 .text 0 cs).map fun (text, n) => (false, text, n + 1)
  | cs => (Plain.read? false 0 .start 0 cs).map fun (text, n) => (true, text, n)

/-- The text of a scalar tells the scalar. -/
theorem ScalarText.scalarAt? {text content after : List Char} {plain : Bool}
    (h : ScalarText text plain content) (ends : EndsScalar after) :
    scalarAt? (text ++ after) = some (plain, content, text.length) := by
  cases h with
  | plain h =>
    have hread : Plain.read? false 0 .start 0 (text ++ after) = some (text, text.length) := by
      rcases ends with rfl | ⟨more, rfl, hgap⟩
      · rw [Plain.read?_plainText h 0 0 (by simp)]
        simp [Plain.read?]
      · exact Plain.read?_key h 0 0 hgap
    obtain ⟨c, cs, rfl⟩ := List.exists_cons_of_ne_nil h.nonempty
    have hc := Plain.notMem_indicators h
    -- A plain text starts with neither of the quotes.
    have hplain : Yaml.scalarAt? (c :: cs ++ after) =
        (Plain.read? false 0 .start 0 (c :: cs ++ after)).map fun (text, n) => (true, text, n) := by
      rw [List.cons_append]
      unfold Yaml.scalarAt?
      split
      · next heq =>
        obtain ⟨rfl, -⟩ := List.cons.inj heq
        exact absurd (by decide) hc
      · next heq =>
        obtain ⟨rfl, -⟩ := List.cons.inj heq
        exact absurd (by decide) hc
      · rfl
    rw [hplain, hread]
    rfl
  | double =>
    have hread := Quoted.read?_doubleQuoted 0 content 0 after
    simp [Writing.doubleQuoted, Yaml.scalarAt?, hread]
  | single visible =>
    have htab : '\t' ∉ content := fun hx => Text.ne_of_visible (visible _ hx) rfl rfl
    have hlf : '\n' ∉ content := fun hx => Text.ne_of_visible (visible _ hx) rfl rfl
    have hquote : after.head? ≠ some '\'' := by
      rcases ends with rfl | ⟨more, rfl, -⟩ <;> simp
    have hread := Quoted.read?_singleQuoted 0 htab hlf 0 hquote
    have hwritten : Writing.singleQuoted content =
        '\'' :: (content.flatMap Quoted.doubledQuote ++ ['\'']) := rfl
    simp [hwritten, Yaml.scalarAt?, hread]

/-- Two scalars that are written alike, up to where they end, are one. -/
theorem ScalarText.eq_of_append_eq {text text' content content' after after' : List Char}
    {plain plain' : Bool} (h : ScalarText text plain content)
    (h' : ScalarText text' plain' content')
    (ends : EndsScalar after) (ends' : EndsScalar after') (heq : text ++ after = text' ++ after') :
    plain = plain' ∧ content = content' ∧ after = after' := by
  have hread := h.scalarAt? ends
  rw [heq, h'.scalarAt? ends'] at hread
  simp only [Option.some.injEq, Prod.mk.injEq] at hread
  obtain ⟨hplain, hcontent, hlength⟩ := hread
  exact ⟨hplain.symm, hcontent.symm, (List.append_inj heq hlength.symm).2⟩

/-- No scalar starts like an item of a sequence. -/
theorem ScalarText.append_ne_dash {text content : List Char} {plain : Bool}
    (h : ScalarText text plain content) (after more : List Char) :
    text ++ after ≠ '-' :: ' ' :: more := by
  intro heq
  cases h with
  | plain h =>
    obtain ⟨c, cs, rfl⟩ := List.exists_cons_of_ne_nil h.nonempty
    rw [List.cons_append] at heq
    obtain ⟨rfl, hcs⟩ := List.cons.inj heq
    have hgap := Plain.atGap_eq_false h (.inl rfl) after
    rw [hcs] at hgap
    cases hgap
  | double => cases heq
  | single => cases heq

/-- No scalar is written like an empty collection. -/
theorem ScalarText.ne_brackets {text content : List Char} {plain : Bool}
    (h : ScalarText text plain content) (sequence : Bool) :
    text ≠ TokenReader.brackets sequence := by
  cases h with
  | plain h =>
    rintro rfl
    cases sequence <;> revert h <;> decide
  | double => cases sequence <;> exact fun heq => absurd (List.cons.inj heq).1 (by decide)
  | single => cases sequence <;> exact fun heq => absurd (List.cons.inj heq).1 (by decide)

namespace Writing

open TokenReader (brackets)

/-- A value on one line is known from its text. -/
theorem eq_of_inlineText?_eq {v w : Value} {text : List Char} (hv : inlineText? v = some text)
    (hw : inlineText? w = some text) : v = w := by
  rcases inlineText?_cases hv with ⟨plain, content, hscalar, hform⟩ | ⟨sequence, rfl, rfl⟩
  · rcases inlineText?_cases hw with ⟨plain', content', hscalar', hform'⟩ | ⟨sequence, rfl, heq⟩
    · obtain ⟨rfl, rfl, -⟩ := hform.eq_of_append_eq hform' (.inl rfl) (.inl rfl) rfl
      rw [← scalarValue_of_scalar? hscalar, ← scalarValue_of_scalar? hscalar']
    · exact absurd heq (hform.ne_brackets sequence)
  · rcases inlineText?_cases hw with ⟨plain', content', hscalar', hform'⟩ | ⟨sequence', rfl, heq⟩
    · exact absurd rfl (hform'.ne_brackets sequence)
    · have hsequence : sequence = sequence' := by
        cases sequence <;> cases sequence' <;> simp_all [brackets]
      rw [hsequence]

/-! ## Lines -/

/-- Where a line ends is known from the text. -/
theorem eq_of_line_eq {line line' after after' : List Char} (unbroken : '\n' ∉ line)
    (unbroken' : '\n' ∉ line') (heq : line ++ '\n' :: after = line' ++ '\n' :: after') :
    line = line' ∧ after = after' := by
  induction line generalizing line' with
  | nil =>
    cases line' with
    | nil => exact ⟨rfl, (List.cons.inj heq).2⟩
    | cons c cs => exact absurd (List.mem_cons.2 (.inl (List.cons.inj heq).1)) unbroken'
  | cons c cs ih =>
    cases line' with
    | nil => exact absurd (List.mem_cons.2 (.inl (List.cons.inj heq).1.symm)) unbroken
    | cons d ds =>
      obtain ⟨rfl, hcs⟩ := List.cons.inj heq
      obtain ⟨rfl, hafter⟩ := ih (List.not_mem_of_not_mem_cons unbroken)
        (List.not_mem_of_not_mem_cons unbroken') hcs
      exact ⟨rfl, hafter⟩

/-- Whether a text does not go on with a line at the column or right of it. -/
def Leaves (column : Nat) (rest : List Char) : Prop :=
  ∀ d ≥ column, ∀ x more, x ≠ ' ' → rest ≠ spaces d ++ x :: more

theorem Leaves.nil (column : Nat) : Leaves column [] := by
  intro d _ x more _ heq
  simp at heq

theorem Leaves.mono {c d : Nat} {rest : List Char} (leaves : Leaves c rest) (le : c ≤ d) :
    Leaves d rest := fun e he => leaves e (Nat.le_trans le he)

/-- A line left of a column leaves it. -/
theorem Leaves.of_line {column d : Nat} (lt : d < column) {x : Char} (space : x ≠ ' ')
    (more : List Char) : Leaves column (spaces d ++ x :: more) := by
  intro e he y rest hy heq
  have hindent (n : Nat) {z : Char} (hz : z ≠ ' ') (rest : List Char) :
      ((spaces n ++ z :: rest).takeWhile (· == ' ')).length = n := by
    rw [List.takeWhile_append_of_pos fun x hx => by simp [List.eq_of_mem_replicate hx]]
    simp [hz, Cursor.length_spaces]
  have := hindent d space more
  rw [heq, hindent e hy rest] at this
  omega

/-- The lines of several things, each from the column on. -/
def lines {α : Type} (column : Nat) (text : α → List Char) (xs : List α) : List Char :=
  xs.flatMap fun x => spaces column ++ text x

/-- The lines of things that are known from their text are known from their lines. -/
theorem eq_of_lines_eq {α : Type} {column : Nat} {text : α → List Char} {xs ys : List α}
    (starts : ∀ x, ∃ c more, text x = c :: more ∧ c ≠ ' ')
    (known : ∀ x ∈ xs, ∀ y tail tail', Leaves (column + 1) tail → Leaves (column + 1) tail' →
      text x ++ tail = text y ++ tail' → x = y ∧ tail = tail')
    {rest rest' : List Char} (leaves : Leaves column rest) (leaves' : Leaves column rest')
    (heq : lines column text xs ++ rest = lines column text ys ++ rest') :
    xs = ys ∧ rest = rest' := by
  -- What comes after a thing leaves the columns right of it: it is the next one, or the rest.
  have htail (zs : List α) {rest : List Char} (leaves : Leaves column rest) :
      Leaves (column + 1) (lines column text zs ++ rest) := by
    cases zs with
    | nil => exact leaves.mono (Nat.le_succ _)
    | cons z zs =>
      obtain ⟨c, more, hz, hc⟩ := starts z
      simp only [lines, List.flatMap_cons, hz, List.append_assoc, List.cons_append]
      exact .of_line (Nat.lt_succ_self _) hc _
  have hmore (z : α) (zs : List α) {rest rest' : List Char} (leaves : Leaves column rest) :
      rest ≠ lines column text (z :: zs) ++ rest' := by
    obtain ⟨c, more, hz, hc⟩ := starts z
    simp only [lines, List.flatMap_cons, hz, List.append_assoc, List.cons_append]
    exact leaves column (Nat.le_refl _) c _ hc
  induction xs generalizing ys with
  | nil =>
    cases ys with
    | nil => exact ⟨rfl, heq⟩
    | cons y ys => exact absurd heq (hmore y ys leaves)
  | cons x xs ih =>
    cases ys with
    | nil => exact absurd heq.symm (hmore x xs leaves')
    | cons y ys =>
      simp only [lines, List.flatMap_cons, List.append_assoc] at heq
      have heq := List.append_cancel_left heq
      obtain ⟨rfl, hmore⟩ := known x List.mem_cons_self y _ _ (htail xs leaves) (htail ys leaves')
        heq
      obtain ⟨rfl, hrest⟩ := ih (fun z hz => known z (List.mem_cons_of_mem _ hz)) hmore
      exact ⟨rfl, hrest⟩

/-! ## Blocks -/

theorem spaces_itemLines (column : Nat) (v : Value) (vs : List Value) :
    spaces column ++ itemLines column (v :: vs) = lines column (itemText column) (v :: vs) := by
  induction vs generalizing v with
  | nil => simp [itemLines_cons, lines]
  | cons w vs ih =>
    rw [itemLines_cons, List.isEmpty_cons, if_neg (by decide), ih w]
    simp [lines]

theorem spaces_entryLines (column step : Nat) (e : String × Value) (es : List (String × Value)) :
    spaces column ++ entryLines column step (e :: es) =
      lines column (entryText column step) (e :: es) := by
  induction es generalizing e with
  | nil => simp [entryLines_cons, lines]
  | cons f es ih =>
    rw [entryLines_cons, List.isEmpty_cons, if_neg (by decide), ih f]
    simp [lines]

theorem itemText_starts (column : Nat) (v : Value) :
    ∃ c more, itemText column v = c :: more ∧ c ≠ ' ' := ⟨'-', _, rfl, by decide⟩

theorem entryText_starts (column step : Nat) (e : String × Value) :
    ∃ c more, entryText column step e = c :: more ∧ c ≠ ' ' := by
  have hform := scalarText_stringText e.1.toList
  obtain ⟨c, cs, hcs⟩ := List.exists_cons_of_length_pos hform.pos
  have hstart := hform.startsToken []
  rw [hcs] at hstart
  refine ⟨c, _, by rw [entryText_eq, hcs, List.cons_append], ?_⟩
  exact ne_of_isGap (hstart c rfl).1 rfl

/-- An item is no entry. -/
theorem itemText_ne_entryText {column column' step : Nat} (v : Value) (e : String × Value)
    (rest rest' : List Char) :
    itemText column v ++ rest ≠ entryText column' step e ++ rest' := by
  intro heq
  rw [entryText_eq, List.append_assoc] at heq
  exact (scalarText_stringText e.1.toList).append_ne_dash _ _ heq.symm

/-- The line of a value is no item. -/
theorem inlineText?_ne_itemText {v : Value} {text : List Char} (hv : inlineText? v = some text)
    (column : Nat) (w : Value) (after rest : List Char) :
    text ++ after ≠ itemText column w ++ rest := by
  rcases inlineText?_cases hv with ⟨plain, content, -, hform⟩ | ⟨sequence, -, rfl⟩
  · exact hform.append_ne_dash _ _
  · cases sequence <;> exact fun heq => absurd (List.cons.inj heq).1 (by decide)

/-- The line of a value is no entry. -/
theorem inlineText?_ne_entryText {v : Value} {text : List Char} (hv : inlineText? v = some text)
    (column step : Nat) (e : String × Value) (after rest : List Char) :
    text ++ '\n' :: after ≠ entryText column step e ++ rest := by
  intro heq
  have hkey := scalarText_stringText e.1.toList
  have hline : '\n' ∉ stringText e.1.toList ++ ':' :: entryLine e.2 := by
    simp [hkey.unbroken, unbroken_entryLine]
  have htext : text = stringText e.1.toList ++ ':' :: entryLine e.2 :=
    (eq_of_line_eq (unbroken_inlineText hv) hline (by simpa [entryText_eq] using heq)).1
  rcases inlineText?_cases hv with ⟨plain, content, -, hform⟩ | ⟨sequence, -, rfl⟩
  · -- The scalar would end at the end of its line and at the colon.
    have hgap : atGap (entryLine e.2 ++ []) = true := atGap_entryLine e.2 rfl
    rw [List.append_nil] at hgap
    obtain ⟨-, -, hends⟩ := hform.eq_of_append_eq hkey (.inl rfl) (.inr ⟨_, rfl, hgap⟩)
      ((List.append_nil _).trans htext)
    cases hends
  · have hcolon : ':' ∈ brackets sequence := htext ▸ by simp
    cases sequence <;> exact absurd hcolon (by decide)

/-- The line of a value is not the start of a block. -/
theorem inlineText?_ne_block {v w : Value} {text : List Char} (hv : inlineText? v = some text)
    (hw : inlineText? w = none) (column step : Nat) (after rest : List Char) :
    text ++ '\n' :: after ≠ block column step w ++ rest := by
  rcases inlineText?_eq_none_cases hw with ⟨w, ws, rfl⟩ | ⟨e, es, rfl⟩
  · rw [block, itemLines_cons, List.append_assoc]
    exact inlineText?_ne_itemText hv column w _ _
  · rw [block, entryLines_cons, List.append_assoc]
    exact inlineText?_ne_entryText hv column step e _ _

/-- Whether a collection is known from its block, up to a line that leaves it. -/
def TellsBlock (v : Value) : Prop :=
  inlineText? v = none → ∀ {w : Value} {column step : Nat} {rest rest' : List Char}, 0 < step →
    inlineText? w = none → Leaves column rest → Leaves column rest' →
    block column step v ++ rest = block column step w ++ rest' → v = w ∧ rest = rest'

/-- A value behind a dash is known from the text of the item. -/
theorem eq_of_itemText_eq {v : Value} (tells : TellsBlock v) {column : Nat} {w : Value}
    {rest rest' : List Char} (leaves : Leaves (column + 1) rest)
    (leaves' : Leaves (column + 1) rest')
    (heq : itemText column v ++ rest = itemText column w ++ rest') : v = w ∧ rest = rest' := by
  have hbelow : column + 1 ≤ column + dashIndentation := by simp [dashIndentation]
  simp only [itemText, List.cons_append, List.cons.injEq, true_and] at heq
  cases hv : inlineText? v with
  | some text =>
    simp only [hv, List.append_assoc, List.cons_append, List.nil_append] at heq
    cases hw : inlineText? w with
    | some text' =>
      simp only [hw, List.append_assoc, List.cons_append, List.nil_append] at heq
      obtain ⟨rfl, hrest⟩ := eq_of_line_eq (unbroken_inlineText hv)
        (unbroken_inlineText hw) heq
      exact ⟨eq_of_inlineText?_eq hv hw, hrest⟩
    | none =>
      simp only [hw] at heq
      exact absurd heq (inlineText?_ne_block hv hw _ _ _ _)
  | none =>
    simp only [hv] at heq
    cases hw : inlineText? w with
    | some text =>
      simp only [hw, List.append_assoc, List.cons_append, List.nil_append] at heq
      exact absurd heq.symm (inlineText?_ne_block hw hv _ _ _ _)
    | none =>
      simp only [hw] at heq
      exact tells hv (by decide) hw (leaves.mono hbelow) (leaves'.mono hbelow) heq

/-- A key and the value under it are known from the text of the entry. -/
theorem eq_of_entryText_eq {e : String × Value} (tells : TellsBlock e.2) {column step : Nat}
    (hstep : 0 < step) {f : String × Value} {rest rest' : List Char}
    (leaves : Leaves (column + 1) rest) (leaves' : Leaves (column + 1) rest')
    (heq : entryText column step e ++ rest = entryText column step f ++ rest') :
    e = f ∧ rest = rest' := by
  obtain ⟨key, v⟩ := e
  obtain ⟨key', w⟩ := f
  have hbelow : column + 1 ≤ column + step := by omega
  rw [entryText_eq, entryText_eq] at heq
  simp only [List.append_assoc, List.cons_append] at heq
  obtain ⟨-, hkey, hvalue⟩ := (scalarText_stringText key.toList).eq_of_append_eq
    (scalarText_stringText key'.toList) (.inr ⟨_, rfl, atGap_entryLine v rfl⟩)
    (.inr ⟨_, rfl, atGap_entryLine w rfl⟩) heq
  obtain rfl := String.toList_inj.1 hkey
  obtain ⟨hline, hunder⟩ := eq_of_line_eq (unbroken_entryLine v) (unbroken_entryLine w)
    (List.cons.inj hvalue).2
  suffices v = w ∧ rest = rest' by simpa using this
  unfold entryLine at hline
  unfold entryBelow at hunder
  cases hv : inlineText? v with
  | some text =>
    rw [hv] at hline hunder
    cases hw : inlineText? w with
    | some text' =>
      rw [hw] at hline hunder
      obtain rfl := (List.cons.inj hline).2
      exact ⟨eq_of_inlineText?_eq hv hw, hunder⟩
    | none =>
      rw [hw] at hline
      cases hline
  | none =>
    rw [hv] at hline hunder
    cases hw : inlineText? w with
    | some text =>
      rw [hw] at hline
      cases hline
    | none =>
      rw [hw] at hunder
      simp only [List.append_assoc, List.append_cancel_left_eq] at hunder
      exact tells hv (by decide) hw (leaves.mono hbelow) (leaves'.mono hbelow) hunder

/-- Every collection is known from its block, by induction on what is in it. -/
theorem tellsBlock (v : Value) : TellsBlock v := by
  induction v with
  | sequence items ih =>
    intro collection w column step rest rest' hstep hw leaves leaves' heq
    obtain ⟨v, vs, rfl⟩ := List.exists_cons_of_ne_nil (l := items) (by rintro rfl; cases collection)
    rcases inlineText?_eq_none_cases hw with ⟨w, ws, rfl⟩ | ⟨e, es, rfl⟩
    · have hlines := congrArg (spaces column ++ ·) heq
      simp only [block, ← List.append_assoc, spaces_itemLines] at hlines
      obtain ⟨hitems, hrest⟩ := eq_of_lines_eq (itemText_starts column)
        (fun x hx y _ _ => eq_of_itemText_eq (ih x hx)) leaves leaves' hlines
      exact ⟨congrArg _ hitems, hrest⟩
    · simp only [block, itemLines_cons, entryLines_cons, List.append_assoc] at heq
      exact absurd heq (itemText_ne_entryText v e _ _)
  | mapping entries ih =>
    intro collection w column step rest rest' hstep hw leaves leaves' heq
    obtain ⟨e, es, rfl⟩ := List.exists_cons_of_ne_nil (l := entries)
      (by rintro rfl; cases collection)
    rcases inlineText?_eq_none_cases hw with ⟨w, ws, rfl⟩ | ⟨f, fs, rfl⟩
    · simp only [block, itemLines_cons, entryLines_cons, List.append_assoc] at heq
      exact absurd heq.symm (itemText_ne_entryText w e _ _)
    · have hlines := congrArg (spaces column ++ ·) heq
      simp only [block, ← List.append_assoc, spaces_entryLines] at hlines
      obtain ⟨hentries, hrest⟩ := eq_of_lines_eq (entryText_starts column step)
        (fun x hx y _ _ => eq_of_entryText_eq (ih x hx) hstep) leaves leaves' hlines
      exact ⟨congrArg _ hentries, hrest⟩
  | null => nofun
  | bool b => cases b <;> nofun
  | number n => nofun
  | string t => nofun

/-- No two values are written alike. -/
theorem document_injective : Function.Injective document := by
  intro v w heq
  unfold document at heq
  cases hv : inlineText? v with
  | some text =>
    cases hw : inlineText? w with
    | some text' =>
      simp only [hv, hw] at heq
      obtain rfl := List.append_cancel_right heq
      exact eq_of_inlineText?_eq hv hw
    | none =>
      simp only [hv, hw] at heq
      exact absurd (by simpa using heq) (inlineText?_ne_block hv hw 0 indentation [] [])
  | none =>
    cases hw : inlineText? w with
    | some text =>
      simp only [hv, hw] at heq
      exact absurd (by simpa using heq.symm) (inlineText?_ne_block hw hv 0 indentation [] [])
    | none =>
      simp only [hv, hw] at heq
      exact (tellsBlock v hv (by decide) hw (.nil 0) (.nil 0) (congrArg (· ++ []) heq)).1

end Writing

end Provision.Yaml

namespace Provision.Value

/-- The text of a value is canonical: values with distinct keys have one text exactly when they are
alike, that is, when they differ in the order of entries only. -/
theorem toYaml_eq_iff_alike {v w : Value} (distinct : v.Distinct) (distinct' : w.Distinct) :
    v.toYaml = w.toYaml ↔ v.Alike w := by
  rw [toYaml, toYaml, String.ofList_inj, Yaml.Writing.document_injective.eq_iff]
  exact sorted_eq_iff_alike distinct distinct'

/-- The order of entries leaves no trace, also below a sequence and beside a NaN; a string that
looks like a number does. -/
theorem toYaml_eq_iff_alike_order_and_kind :
    (mapping [("b", .sequence [.mapping [("x", .null), ("y", .bool true)]]),
        ("a", .number (.float .nan))]).toYaml =
      (mapping [("a", .number (.float .nan)),
        ("b", .sequence [.mapping [("y", .bool true), ("x", .null)]])]).toYaml ∧
      (mapping [("a", .string "1")]).toYaml ≠ (mapping [("a", .number (.integer 1))]).toYaml := by
  constructor
  · refine (toYaml_eq_iff_alike ?_ ?_).2 ?_
    · simp [Distinct, DistinctEntries, DistinctItems, Entries.keys]
    · simp [Distinct, DistinctEntries, DistinctItems, Entries.keys]
    · have hitem : (mapping [("x", .null), ("y", .bool true)]).Alike
          (mapping [("y", .bool true), ("x", .null)]) :=
        ⟨rfl, ⟨.null, rfl, trivial⟩, ⟨.bool true, rfl, rfl⟩, trivial⟩
      exact ⟨rfl, ⟨_, rfl, hitem, trivial⟩, ⟨_, rfl, rfl⟩, trivial⟩
  · intro heq
    have hdistinct (v : Value) (hv : v.Distinct) : (mapping [("a", v)]).Distinct := by
      simpa [distinct_mapping, Entries.keys] using hv
    have hstring := hdistinct (.string "1") trivial
    have hnumber := hdistinct (.number (.integer 1)) trivial
    obtain ⟨-, ⟨w, hw, halike⟩, -⟩ := (toYaml_eq_iff_alike hstring hnumber).1 heq
    cases hw
    exact halike

end Provision.Value
