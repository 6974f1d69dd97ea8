import Provision.Proofs.Yaml.WrittenTokens

/-!
# The lines of written entries

An entry has its key and its colon on its first line, with the value if that fits there, and under
that line whatever does not fit on it (`entryText_eq`).
-/

namespace Provision.Yaml.Writing

open TokenReader (brackets)

/-- What follows the colon of a key on its line. -/
def entryLine (v : Value) : List Char :=
  match inlineText? v with
  | some text => ' ' :: text
  | none => []

/-- What belongs to a key under its line. -/
def entryBelow (column step : Nat) (v : Value) : List Char :=
  match inlineText? v with
  | some _ => []
  | none => spaces (column + step) ++ block (column + step) indentation v

theorem entryText_eq (column step : Nat) (e : String × Value) :
    entryText column step e =
      stringText e.1.toList ++ ':' :: (entryLine e.2 ++ '\n' :: entryBelow column step e.2) := by
  unfold entryText entryLine entryBelow
  cases inlineText? e.2 <;> rfl

theorem unbroken_inlineText {v : Value} {text : List Char} (h : inlineText? v = some text) :
    '\n' ∉ text := by
  rcases inlineText?_cases h with ⟨plain, content, -, hform⟩ | ⟨sequence, -, rfl⟩
  · exact hform.unbroken
  · cases sequence <;> decide

theorem unbroken_entryLine (v : Value) : '\n' ∉ entryLine v := by
  unfold entryLine
  cases hv : inlineText? v with
  | some text => simp [unbroken_inlineText hv]
  | none => simp

/-- The line of a key ends with the line, or goes on with a space. -/
theorem atGap_entryLine (v : Value) {rest : List Char} (gap : atGap rest = true) :
    atGap (entryLine v ++ rest) = true := by
  unfold entryLine
  cases inlineText? v with
  | some text => rfl
  | none => exact gap

end Provision.Yaml.Writing
