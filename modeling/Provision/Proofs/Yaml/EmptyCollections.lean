import Provision.Proofs.Yaml.Lexemes

/-!
# Empty collections of written documents

An empty collection is written as two brackets, the only flow collection that the writer makes. The
reader takes two tokens from it: between the brackets it is inside a flow collection
(`TokenReader.insideFlow`), and behind them it is outside again (`TokenReader.behindFlow`).
-/

namespace Provision.Yaml.TokenReader

open Margin (Covers ValueEnds leave)
open Writing (spaces)
open Relation (ReflTransGen)

/-- The start of a flow collection, by whether it is a sequence. -/
def flowStart (sequence : Bool) : Token :=
  if sequence then .flowSequenceStart else .flowMappingStart

/-- The end of a flow collection. -/
def flowEnd (sequence : Bool) : Token := if sequence then .flowSequenceEnd else .flowMappingEnd

/-- The brackets of an empty collection. -/
def brackets (sequence : Bool) : List Char := if sequence then ['[', ']'] else ['\x7b', '\x7d']

variable {s : TokenReader} {sequence : Bool} {after : List Char}

/-- The reader behind the first bracket. -/
def insideFlow (s : TokenReader) (sequence : Bool) : TokenReader :=
  { s with
    cursor := s.cursor.step
    tokens := flowStart sequence :: s.tokens
    margins := Margin.shift s.margins
    pending := none
    outer := [s.markKey.pending]
    keyAllowed := true
    braced := s.braced || !sequence }

/-- The reader behind both brackets. -/
def behindFlow (s : TokenReader) (sequence : Bool) : TokenReader :=
  { s with
    cursor := s.cursor.step.step
    tokens := flowEnd sequence :: flowStart sequence :: s.tokens
    margins := Margin.shift s.margins
    pending := s.markKey.pending
    keyAllowed := false
    braced := s.braced || !sequence }

theorem rest_insideFlow (rest : s.cursor.rest = brackets sequence ++ after) :
    (s.insideFlow sequence).cursor.rest = (brackets sequence).drop 1 ++ after := by
  show s.cursor.step.rest = _
  rw [Cursor.rest_step, rest]
  cases sequence <;> rfl

theorem rest_behindFlow (rest : s.cursor.rest = brackets sequence ++ after) :
    (s.behindFlow sequence).cursor.rest = after := by
  show s.cursor.step.step.rest = _
  rw [Cursor.rest_step, show s.cursor.step.rest = _ from rest_insideFlow rest]
  cases sequence <;> rfl

/-- The brackets are two characters of one line. -/
theorem cursor_behindFlow (rest : s.cursor.rest = brackets sequence ++ after) :
    (s.behindFlow sequence).cursor =
      ⟨after, s.cursor.index + 2, s.cursor.line, s.cursor.column + 2, false⟩ := by
  have hcursor := Cursor.advance_line rest (by cases sequence <;> decide)
  show s.cursor.advance 2 = _
  cases sequence <;> simpa [brackets, isBlank] using hcursor

theorem cursor_insideFlow (rest : s.cursor.rest = brackets sequence ++ after) :
    (s.insideFlow sequence).cursor.column = s.cursor.column + 1 ∧
      (s.insideFlow sequence).cursor.index = s.cursor.index + 1 := by
  have hcut : s.cursor.rest = (brackets sequence).take 1 ++
      ((brackets sequence).drop 1 ++ after) := by
    rw [rest, ← List.append_assoc, List.take_append_drop]
  have hlength : ((brackets sequence).take 1).length = 1 := by cases sequence <;> rfl
  have hadvance := Cursor.advance_line hcut (by cases sequence <;> decide)
  rw [hlength] at hadvance
  exact ⟨congrArg Cursor.column hadvance, congrArg Cursor.index hadvance⟩

/-- The first bracket, behind which the reader has settled already. -/
theorem follows_insideFlow (outside : s.Outside) (indent : ¬ s.cursor.column < s.indent)
    (rest : s.cursor.rest = brackets sequence ++ after) : Follows s (s.insideFlow sequence) := by
  have hrest := rest_insideFlow rest
  have hopen : s.openFlow? sequence = some (s.insideFlow sequence) := by
    have hblanks : s.cursor.step.blanksAndComment? isBlank = some ([], s.cursor.step) :=
      Cursor.blanksAndComment?_spaces (n := 0) hrest
        (by cases sequence <;> simp [brackets, isBlank])
    unfold openFlow?
    rw [markKey_eq]
    simp [shiftMargin, inFlow, outside.outer, flowLimit, skipBlanks?, hblanks, moveTo, push,
      insideFlow, flowStart]
  have hact : s.act? = some (s.insideFlow sequence) := by
    have hlexeme : s.act? = (s.openFlow? sequence).bind dropStale? := by
      cases sequence
      · rw [act?_eq_lexeme? rest (by decide) fun _ => rfl]
        simp [lexeme?, indent]
      · rw [act?_eq_lexeme? rest (by decide) fun _ => rfl]
        simp [lexeme?, indent]
    rw [hlexeme, hopen, Option.bind_some]
    exact dropStale?_of_none rfl
  have hsettled : (s.insideFlow sequence).settled? = some (s.insideFlow sequence) := by
    have htoken : StartsToken ((brackets sequence).drop 1 ++ after) := by
      cases sequence <;> exact .cons rfl (by decide) _
    have hgap := skipGap?_spaces (s.insideFlow sequence).indent
      (s.insideFlow sequence).cursor.rest.length (n := 0) hrest htoken
    have hskip : (s.insideFlow sequence).skipToToken? = some (s.insideFlow sequence) := by
      rw [skipToToken?, hgap]
      simp [Cursor.advance, insideFlow]
    have hclose : (s.insideFlow sequence).closeTo (s.insideFlow sequence).cursor.column =
        s.insideFlow sequence := by simp [closeTo, inFlow, insideFlow]
    have hdrop := dropStale?_of_none (show (s.insideFlow sequence).pending = none from rfl)
    simp [settled?, hskip, hdrop, hclose]
  refine ⟨_, hact, outside.ended, ?_, Cursor.size_step s.cursor, hsettled⟩
  rw [(cursor_insideFlow rest).2]
  exact Nat.lt_succ_self _

/-- The second bracket. A key that the collection could be is still pending. -/
theorem act?_insideFlow (outside : s.Outside) (indent : ¬ s.cursor.column < s.indent)
    (rest : s.cursor.rest = brackets sequence ++ '\n' :: after)
    (near : ∀ key ∈ s.markKey.pending, key.line = s.cursor.line ∧ key.index = s.cursor.index) :
    (s.insideFlow sequence).act? = some (s.behindFlow sequence) := by
  have hrest := rest_insideFlow rest
  have hclose : (s.insideFlow sequence).closeFlow? sequence = some (s.behindFlow sequence) := by
    have hblanks : s.cursor.step.step.blanksAndComment? isBlank = some ([], s.cursor.step.step) :=
      Cursor.blanksAndComment?_spaces (n := 0) (rest_behindFlow rest) (by simp [isBlank])
    unfold closeFlow?
    simp [dropKey?, closePair, outside.inPair, outside.outer, inFlow, skipBlanks?, hblanks, moveTo,
      push, insideFlow, behindFlow, flowEnd]
  -- Inside the brackets the margin may be one column further right, and so is the reader.
  have hindent : ¬ (s.insideFlow sequence).cursor.column < (s.insideFlow sequence).indent := by
    have hshift : (s.insideFlow sequence).indent ≤ s.indent + 1 := Margin.indent_shift_le s.margins
    rw [(cursor_insideFlow rest).1]
    omega
  have hlexeme : (s.insideFlow sequence).act? =
      ((s.insideFlow sequence).closeFlow? sequence).bind dropStale? := by
    cases sequence
    · rw [act?_eq_lexeme? hrest (by decide) fun _ => rfl]
      simp [lexeme?, hindent]
    · rw [act?_eq_lexeme? hrest (by decide) fun _ => rfl]
      simp [lexeme?, hindent]
  rw [hlexeme, hclose, Option.bind_some]
  have hcursor := cursor_behindFlow rest
  cases hmark : s.markKey.pending with
  | none => exact dropStale?_of_none hmark
  | some key =>
    obtain ⟨hline, hindex⟩ := near key hmark
    refine dropStale?_of_near hmark ?_ ?_
    · rw [hcursor, hline]
    · rw [hcursor, hindex]
      simp

/-- An empty collection at the end of its line, which may not start where only a key may. -/
theorem Stands.emptyFlow (sequence : Bool) {tail : List Char} {column d : Nat}
    {ms ground : List Margin} {ts : List Token} {keyAllowed : Bool}
    (stands : Stands s (brackets sequence ++ '\n' :: (spaces d ++ tail)) column (ms, ts) keyAllowed)
    (covers : Covers ms ground) (free : keyAllowed = true → ms.head? ≠ some ⟨column, true⟩)
    (token : StartsToken tail) (ends : ValueEnds ground d tail) :
    ∃ s', ReflTransGen Follows s s' ∧
      Stands s' tail d (leave d (ground, flowEnd sequence :: flowStart sequence :: ts)) true := by
  have hindent := stands.indent_le_column
  have hpending := stands.pending_here free
  have hrest := stands.rest_eq
  have hfollows := follows_insideFlow stands.toOutside hindent hrest
  have hact := act?_insideFlow stands.toOutside hindent hrest fun key hkey => (hpending key hkey).2
  have houtside : (s.behindFlow sequence).Outside :=
    ⟨stands.outer, stands.inPair, by cases sequence <;> rfl, stands.ended⟩
  have hshorter : (s.behindFlow sequence).cursor.rest.length <
      (s.insideFlow sequence).cursor.rest.length := by
    have hbrackets : ((brackets sequence).drop 1).length = 1 := by cases sequence <;> rfl
    rw [rest_behindFlow hrest, rest_insideFlow hrest, List.length_append, hbrackets]
    omega
  have hstale : ∀ key ∈ (s.behindFlow sequence).pending,
      key.required = false ∧ key.line ≤ (s.behindFlow sequence).cursor.line := by
    intro key hkey
    obtain ⟨hrequired, hline, -⟩ := hpending key hkey
    rw [cursor_behindFlow hrest]
    exact ⟨hrequired, Nat.le_of_eq hline⟩
  obtain ⟨s', hnext, hstands⟩ := houtside.follows_break hact (k := 1) rfl (rest_behindFlow hrest)
    hshorter token hstale
  refine ⟨s', .tail (.single hfollows) hnext, ?_⟩
  have hknown : ((s.behindFlow sequence).margins, (s.behindFlow sequence).tokens) =
      (Margin.shift ms, flowEnd sequence :: flowStart sequence :: ts) := by
    rw [behindFlow, stands.margins_eq, stands.tokens_eq]
  rw [hknown, covers.shift.leave_eq ends.le_indent] at hstands
  exact hstands

end Provision.Yaml.TokenReader
