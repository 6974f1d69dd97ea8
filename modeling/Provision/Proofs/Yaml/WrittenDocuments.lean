import Provision.Proofs.Yaml.Parsing
import Provision.Proofs.Yaml.WrittenTokens

/-!
# Streams of written documents

A written document has no control characters but line breaks, so the stream of it is the text
itself. Its tokens are those of the value (`tokens_document`), also below a comment line and an
empty line (`tokens_heading`).
-/

namespace Provision.Yaml

namespace Writing

/-! ## Characters -/

/-- A character that the writer shows as it is: any but the control characters, and the line
break. -/
def IsShown (x : Char) : Prop := x = '\n' ∨ Text.isControl x = false

theorem IsShown.ne {x : Char} (h : IsShown x) : x ≠ '\x00' ∧ x ≠ '\r' := by
  constructor <;> rintro rfl <;> rcases h with h | h <;> revert h <;> decide

theorem isShown_spaces (n : Nat) : ∀ x ∈ spaces n, IsShown x := by
  intro x hx
  rw [List.eq_of_mem_replicate hx]
  exact .inr (by decide)

theorem isShown_scalarText {text content : List Char} {plain : Bool}
    (h : ScalarText text plain content) : ∀ x ∈ text, IsShown x :=
  fun x hx => .inr (h.visible x hx)

theorem isShown_inlineText {v : Value} {text : List Char} (h : inlineText? v = some text) :
    ∀ x ∈ text, IsShown x := by
  intro x hx
  rcases inlineText?_cases h with ⟨plain, content, -, hform⟩ | ⟨sequence, -, rfl⟩
  · exact isShown_scalarText hform x hx
  · have hbrackets : (TokenReader.brackets sequence).all (fun x => !Text.isControl x) = true := by
      cases sequence <;> decide
    exact .inr (by simpa using List.all_eq_true.1 hbrackets x hx)

/-- The writer shows no control characters in the blocks of a value. -/
def ShowsBlocks (v : Value) : Prop := ∀ column step, ∀ x ∈ block column step v, IsShown x

theorem isShown_itemLines {vs : List Value} (shows : ∀ v ∈ vs, ShowsBlocks v) (column : Nat) :
    ∀ x ∈ itemLines column vs, IsShown x := by
  induction vs with
  | nil =>
    intro x hx
    cases hx
  | cons v vs ih =>
    have hrest := ih fun w hw => shows w (List.mem_cons_of_mem _ hw)
    rw [itemLines_cons, itemText]
    refine List.forall_mem_append.2 ⟨List.forall_mem_cons.2 ⟨.inr (by decide),
      List.forall_mem_cons.2 ⟨.inr (by decide), ?_⟩⟩, ?_⟩
    · cases hv : inlineText? v with
      | some text =>
        exact List.forall_mem_append.2
          ⟨isShown_inlineText hv, List.forall_mem_singleton.2 (.inl rfl)⟩
      | none => exact shows v List.mem_cons_self _ _
    · split
      · intro x hx
        cases hx
      · exact List.forall_mem_append.2 ⟨isShown_spaces column, hrest⟩

theorem isShown_entryLines {es : List (String × Value)} (shows : ∀ e ∈ es, ShowsBlocks e.2)
    (column step : Nat) : ∀ x ∈ entryLines column step es, IsShown x := by
  induction es with
  | nil =>
    intro x hx
    cases hx
  | cons e es ih =>
    obtain ⟨key, v⟩ := e
    have hrest := ih fun f hf => shows f (List.mem_cons_of_mem _ hf)
    rw [entryLines_cons, entryText]
    refine List.forall_mem_append.2 ⟨List.forall_mem_append.2
      ⟨isShown_scalarText (scalarText_stringText _),
        List.forall_mem_cons.2 ⟨.inr (by decide), ?_⟩⟩, ?_⟩
    · cases hv : inlineText? v with
      | some text =>
        exact List.forall_mem_append.2 ⟨List.forall_mem_cons.2
          ⟨.inr (by decide), isShown_inlineText hv⟩, List.forall_mem_singleton.2 (.inl rfl)⟩
      | none =>
        exact List.forall_mem_append.2 ⟨List.forall_mem_cons.2 ⟨.inl rfl, isShown_spaces _⟩,
          shows _ List.mem_cons_self _ _⟩
    · split
      · intro x hx
        cases hx
      · exact List.forall_mem_append.2 ⟨isShown_spaces column, hrest⟩

theorem showsBlocks (v : Value) : ShowsBlocks v := by
  intro column step
  induction v generalizing column step with
  | sequence items ih => exact isShown_itemLines ih column
  | mapping entries ih => exact isShown_entryLines ih column step
  | null => nofun
  | bool b => nofun
  | number n => nofun
  | string s => nofun

theorem isShown_document (v : Value) : ∀ x ∈ document v, IsShown x := by
  unfold document
  cases hv : inlineText? v with
  | some text =>
    exact List.forall_mem_append.2 ⟨isShown_inlineText hv, List.forall_mem_singleton.2 (.inl rfl)⟩
  | none => exact showsBlocks v _ _

theorem startsToken_document (v : Value) (tail : List Char) :
    StartsToken (document v ++ tail) := by
  unfold document
  cases hv : inlineText? v with
  | some text =>
    rw [List.append_assoc]
    exact startsToken_inlineText hv _
  | none => exact startsToken_block hv 0 indentation tail

end Writing

/-- The stream of a text without control characters is the text. -/
theorem streamText_eq {cs : List Char} (shown : ∀ x ∈ cs, Writing.IsShown x) :
    streamText cs = cs := by
  have hstream := streamText_append (fun x hx => (shown x hx).ne) []
  rwa [List.append_nil, streamText, List.append_nil] at hstream

/-! ## Tokens and events -/

open TokenReader Writing

/-- A written document behind a gap is read up to what follows it, where the reader knows its
tokens. What is still open then is closed by whatever ends the document. -/
theorem exists_run_of_gap {v : Value} (short : v.Everywhere Value.HasShortKeys)
    {text tail : List Char} {c : Cursor} {newLine : Bool}
    (gap : skipGap? (-1) (text.length + 1) { rest := text } = some (c, newLine))
    (rest : c.rest = document v ++ tail) (column : c.column = 0) (token : StartsToken tail)
    (ends : Margin.ValueEnds [] 0 tail) :
    ∃ r s known, r.settled? = some s ∧ r.cursor.size ≤ text.length ∧ Stands s tail 0 known true ∧
      (Margin.leave (-1) known).2 = (valueTokens v).reverse ∧
      run text.length { cursor := { rest := text } } = run text.length r := by
  let start : TokenReader := { cursor := { rest := text } }
  have outside : start.Outside := ⟨rfl, rfl, rfl, rfl⟩
  obtain ⟨s, hsettled, hstands⟩ := settled?_of_gap outside gap nofun
  rw [rest, column] at hstands
  obtain ⟨s', known, hsteps, hstands', hknown⟩ := Stands.document short hstands token ends
  have hsize : start.cursor.size ≤ text.length := by simp [start, Cursor.size]
  obtain ⟨r, hr, hrsize, hrun⟩ := run_eq_of_follows hsteps hsettled hsize
  exact ⟨r, s', known, hr, hrsize ▸ hsize, hstands', hknown, hrun⟩

/-- The tokens of a written document behind a gap. -/
theorem tokens_of_gap {v : Value} (short : v.Everywhere Value.HasShortKeys) {text : List Char}
    (shown : ∀ x ∈ text, IsShown x) {c : Cursor} {newLine : Bool}
    (gap : skipGap? (-1) (text.length + 1) { rest := text } = some (c, newLine))
    (rest : c.rest = document v) (column : c.column = 0) :
    tokens text = valueTokens v ++ [.streamEnd] := by
  have hrest : c.rest = document v ++ [] := by rw [rest, List.append_nil]
  obtain ⟨r, s, known, hr, -, hstands, hknown, hrun⟩ :=
    exists_run_of_gap short gap hrest column .nil .stream
  obtain ⟨r', hact, hended, htokens⟩ := hstands.finish
  show run (streamText text).length { cursor := { rest := streamText text } } = _
  rw [streamText_eq shown, hrun, run_eq_of_ended hr hact hended, htokens, hknown]
  simp

/-- The tokens of a written document. -/
theorem tokens_document {v : Value} (short : v.Everywhere Value.HasShortKeys) :
    tokens (document v) = valueTokens v ++ [.streamEnd] := by
  have hrest : ({ rest := document v } : Cursor).rest = spaces 0 ++ document v := rfl
  have htoken := startsToken_document v []
  rw [List.append_nil] at htoken
  have hgap := skipGap?_spaces (-1) (document v).length hrest htoken
  exact tokens_of_gap short (isShown_document v) hgap rfl rfl

/-- The tokens of a document below a comment line and an empty line. -/
theorem tokens_heading {v : Value} (short : v.Everywhere Value.HasShortKeys) {comment : List Char}
    (visible : ∀ x ∈ comment, Text.isControl x = false) :
    tokens ('#' :: comment ++ '\n' :: '\n' :: document v) = valueTokens v ++ [.streamEnd] := by
  have unbroken : '\n' ∉ comment := fun hx => Text.ne_of_visible (visible _ hx) rfl rfl
  have hshown : ∀ x ∈ '#' :: comment ++ '\n' :: '\n' :: document v, IsShown x := by
    refine List.forall_mem_append.2 ⟨List.forall_mem_cons.2 ⟨.inr (by decide), ?_⟩,
      List.forall_mem_cons.2 ⟨.inl rfl, List.forall_mem_cons.2 ⟨.inl rfl, isShown_document v⟩⟩⟩
    exact fun x hx => .inr (visible x hx)
  obtain ⟨lines, hlines⟩ : ∃ n, ('#' :: comment ++ '\n' :: '\n' :: document v).length = n + 2 :=
    ⟨comment.length + (document v).length + 1, by simp; omega⟩
  let top : Cursor := { rest := '#' :: comment ++ '\n' :: '\n' :: document v }
  -- The gap is the comment line, the empty line, and nothing before the document.
  have hrest : top.rest = '#' :: comment ++ '\n' :: (spaces 0 ++ '\n' :: document v) := rfl
  have hsecond : top.advance (comment.length + 2) = ⟨'\n' :: document v, _, _, 0, true⟩ :=
    Cursor.advance_gap hrest (by simp [unbroken])
  have hbreak : (top.advance (comment.length + 2)).rest = '\n' :: document v :=
    congrArg Cursor.rest hsecond
  obtain ⟨c, hc, hcrest, hcolumn⟩ : ∃ c, (top.advance (comment.length + 2)).advance 1 = c ∧
      c.rest = document v ∧ c.column = 0 :=
    ⟨_, Cursor.step_break hbreak, rfl, rfl⟩
  have hgap : skipGap? (-1) (lines + 3) top = some (c, true) := by
    have htoken := startsToken_document v []
    rw [List.append_nil] at htoken
    rw [skipGap?_comment (-1) (lines + 2) rfl unbroken,
      skipGap?_break (-1) (lines + 1) (n := 0) hbreak, Nat.zero_add, hc,
      skipGap?_spaces (-1) lines (n := 0) hcrest htoken]
    rfl
  exact tokens_of_gap short hshown (by rw [hlines]; exact hgap) hcrest hcolumn

end Provision.Yaml
