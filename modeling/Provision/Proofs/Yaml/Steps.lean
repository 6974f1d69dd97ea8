import Mathlib.Logic.Relation
import Provision.Proofs.Yaml.Gaps

/-!
# Steps of the token reader

`TokenReader.next?` first goes to the next token (`settled?`) and then takes it (`act?`). Between
two tokens the reader is best looked at when it has settled: gaps, stale keys and left collections
are behind it then. `Follows` is one step between settled readers, and a run passes through whatever
steps lead to (`run_eq_of_follows`, `run_eq_of_ended`).
-/

namespace Provision.Yaml.TokenReader

/-- The reader at its next token, after the collections that this token leaves. -/
def settled? (r : TokenReader) : Option TokenReader := do
  let r ← r.skipToToken?
  let r ← r.dropStale?
  some (r.closeTo r.cursor.column)

/-- The reader after the token at which it stands. -/
def act? (r : TokenReader) : Option TokenReader := do
  let r ← match r.cursor.rest with
    | [] => r.finish?
    | x :: after =>
      if r.cursor.column = 0 ∧ x = '%' then r.directive?
      else if r.cursor.column = 0 ∧ atDocumentStart (x :: after) then r.marker? .documentStart
      else if r.cursor.column = 0 ∧ atDocumentEnd (x :: after) then r.marker? .documentEnd
      else r.lexeme? x after
  r.dropStale?

/-- A token at a place that is no directive and no document marker. -/
theorem act?_eq_lexeme? {s : TokenReader} {x : Char} {after : List Char}
    (rest : s.cursor.rest = x :: after) (directive : x ≠ '%')
    (marker : s.cursor.column = 0 → atDocumentMarker (x :: after) = false) :
    s.act? = (s.lexeme? x after).bind dropStale? := by
  have hstart : ¬ (s.cursor.column = 0 ∧ atDocumentStart (x :: after) = true) := by
    rintro ⟨h, hm⟩
    have := marker h
    simp [atDocumentMarker, hm] at this
  have hend : ¬ (s.cursor.column = 0 ∧ atDocumentEnd (x :: after) = true) := by
    rintro ⟨h, hm⟩
    have := marker h
    simp [atDocumentMarker, hm] at this
  unfold act?
  rw [rest]
  simp only [directive, and_false, if_false, if_neg hstart, if_neg hend]
  rfl

theorem next?_eq (r : TokenReader) : r.next? = r.settled?.bind act? := by
  unfold next? settled?
  cases r.skipToToken? with
  | none => rfl
  | some r =>
    show (r.dropStale?.bind _) = ((r.dropStale?.bind _).bind _)
    cases r.dropStale? with
    | none => rfl
    | some r => rfl

/-- One token further, from one settled reader to the next. -/
def Follows (s s' : TokenReader) : Prop :=
  ∃ r, s.act? = some r ∧ r.ended = false ∧ s.cursor.index < r.cursor.index ∧
    r.cursor.size = s.cursor.size ∧ r.settled? = some s'

/-- Giving up a stale key changes nothing else. -/
theorem eq_of_dropStale? {r r' : TokenReader} (h : r.dropStale? = some r') :
    ∃ pending, r' = { r with pending := pending } := by
  unfold dropStale? at h
  cases hkey : r.pending with
  | none =>
    rw [hkey] at h
    cases h
    exact ⟨r.pending, rfl⟩
  | some key =>
    simp only [hkey] at h
    split at h
    · cases hrequired : key.required with
      | true => simp [hrequired] at h
      | false =>
        simp only [hrequired, Bool.false_eq_true, if_false, Option.some.injEq] at h
        exact ⟨none, h.symm⟩
    · cases h
      exact ⟨r.pending, rfl⟩

/-- Leaving block collections moves nothing and closes no flow collection. -/
theorem closeTo_keeps (column : Int) (r : TokenReader) :
    (r.closeTo column).cursor = r.cursor ∧ (r.closeTo column).outer = r.outer := by
  unfold closeTo
  split <;> exact ⟨rfl, rfl⟩

/-- Settling only moves on. -/
theorem exists_advance_of_settled? {r s : TokenReader} (h : r.settled? = some s) :
    ∃ n, s.cursor = r.cursor.advance n := by
  unfold settled? at h
  simp only [bind, Option.bind_eq_some_iff] at h
  obtain ⟨r₁, h₁, r₂, h₂, h₃⟩ := h
  obtain ⟨⟨c, newLine⟩, hc, rfl⟩ := Option.map_eq_some_iff.1 h₁
  obtain ⟨n, rfl⟩ := exists_advance_of_skipGap? hc
  obtain ⟨pending, rfl⟩ := eq_of_dropStale? h₂
  cases h₃
  exact ⟨n, (closeTo_keeps _ _).1⟩

/-- Settling keeps the flow collections that are open. -/
theorem outer_of_settled? {r s : TokenReader} (h : r.settled? = some s) : s.outer = r.outer := by
  unfold settled? at h
  simp only [bind, Option.bind_eq_some_iff] at h
  obtain ⟨r₁, h₁, r₂, h₂, h₃⟩ := h
  obtain ⟨⟨c, newLine⟩, -, rfl⟩ := Option.map_eq_some_iff.1 h₁
  obtain ⟨pending, rfl⟩ := eq_of_dropStale? h₂
  cases h₃
  exact (closeTo_keeps _ _).2

/-- A run goes on behind a token that is not the last one. -/
theorem run_eq_of_act {r s r' : TokenReader} (start : r.settled? = some s)
    (act : s.act? = some r') (going : r'.ended = false) (moved : s.cursor.index < r'.cursor.index)
    (size : r'.cursor.size = s.cursor.size) {length : Nat} (bound : r.cursor.size ≤ length) :
    r'.cursor.size = r.cursor.size ∧ run length r = run length r' := by
  obtain ⟨n, hn⟩ := exists_advance_of_settled? start
  have hsize : r'.cursor.size = r.cursor.size := by rw [size, hn, Cursor.size_advance]
  refine ⟨hsize, ?_⟩
  have hnext : r.next? = some r' := by rw [next?_eq, start, Option.bind_some, act]
  have hle : r.cursor.index ≤ s.cursor.index := by
    rw [hn]
    exact Cursor.index_le_index_advance n _
  have hbound : r'.cursor.index ≤ length := by
    unfold Cursor.size at hsize bound
    omega
  -- The run goes on because the reader has moved, and it has not moved past the end.
  rw [run, hnext]
  simp [going, Nat.lt_of_le_of_lt hle moved, hbound]

/-- A run goes on from wherever steps lead. -/
theorem run_eq_of_follows {s s' : TokenReader} (steps : Relation.ReflTransGen Follows s s')
    {r : TokenReader} (start : r.settled? = some s) {length : Nat}
    (bound : r.cursor.size ≤ length) :
    ∃ r', r'.settled? = some s' ∧ r'.cursor.size = r.cursor.size ∧
      run length r = run length r' := by
  induction steps with
  | refl => exact ⟨r, start, rfl, rfl⟩
  | @tail s₁ _ _ step ih =>
    obtain ⟨r₁, hr₁, hsize₁, hrun₁⟩ := ih
    obtain ⟨r₂, hact, hended, hindex, hsize, hsettled⟩ := step
    obtain ⟨hsize₂, hrun₂⟩ := run_eq_of_act hr₁ hact hended hindex hsize (hsize₁ ▸ bound)
    exact ⟨r₂, hsettled, hsize₂.trans hsize₁, hrun₁.trans hrun₂⟩

/-- A run that comes to the end of the stream has read the tokens so far. -/
theorem run_eq_of_ended {r s r' : TokenReader} (start : r.settled? = some s)
    (act : s.act? = some r') (ended : r'.ended = true) (length : Nat) :
    run length r = r'.tokens.reverse := by
  have hnext : r.next? = some r' := by rw [next?_eq, start, Option.bind_some, act]
  rw [run, hnext]
  simp [ended]

/-- A run that cannot go on has read what is decided. -/
theorem run_eq_of_stuck {r s : TokenReader} (start : r.settled? = some s) (stuck : s.act? = none)
    (length : Nat) : run length r = r.decided.reverse := by
  have hnext : r.next? = none := by rw [next?_eq, start, Option.bind_some, stuck]
  rw [run, hnext]

end Provision.Yaml.TokenReader
