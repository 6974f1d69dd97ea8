import Provision.Yaml.Margin
import Provision.Yaml.Text

/-!
# Leaving and opening block collections

The margins that occur in written documents have two shapes: those on which a value may start
(`Covers`), with at most one loose margin on top, and those at which an entry of a block collection
may start (`Opening`). `Margin.leave` is what the reader does with the margins and the tokens so far
when it comes to a column; leaving step by step is leaving at once (`Margin.leave_leave`).
-/

namespace Provision.Yaml.Margin

/-! ## Leaving -/

/-- The margins and the tokens after all collections right of a column are left. -/
def leave (column : Int) (p : List Margin × List Token) : List Margin × List Token :=
  ((close column p.1).1, (close column p.1).2 ++ p.2)

/-- Only ends of collections are added. -/
theorem close_ends (column : Int) (ms : List Margin) :
    ∃ n, (close column ms).2 = List.replicate n .blockEnd := by
  induction ms with
  | nil => exact ⟨0, rfl⟩
  | cons m ms ih =>
    obtain ⟨n, hn⟩ := ih
    by_cases hm : column < m.column
    · cases hb : m.block with
      | true => exact ⟨n + 1, by simp [close, hm, hb, hn, List.replicate_succ]⟩
      | false => exact ⟨n, by simp [close, hm, hb, hn]⟩
    · exact ⟨0, by simp [close, hm]⟩

/-- Nothing is left at the innermost margin or right of it. -/
theorem leave_of_le {column : Int} {ms : List Margin} (h : indent ms ≤ column) (ts : List Token) :
    leave column (ms, ts) = (ms, ts) := by
  cases ms with
  | nil => rfl
  | cons m ms =>
    have hm : ¬ column < m.column := by
      have : (m.column : Int) ≤ column := h
      omega
    simp only [leave, close, if_neg hm, List.nil_append]

/-- A collection goes on at its own column. -/
theorem leave_self (column : Nat) (ms : List Margin) (ts : List Token) :
    leave column (⟨column, true⟩ :: ms, ts) = (⟨column, true⟩ :: ms, ts) :=
  leave_of_le (show (column : Int) ≤ column from Int.le_refl _) ts

/-- A collection right of the column ends. -/
theorem leave_block {column : Int} {c : Nat} (h : column < c) (ms : List Margin)
    (ts : List Token) :
    leave column (⟨c, true⟩ :: ms, ts) = leave column (ms, .blockEnd :: ts) := by
  obtain ⟨n, hn⟩ := close_ends column ms
  -- The ends of the collections around it come after its own, but ends cannot be told apart.
  simp only [leave, close, if_pos h, hn, if_true, ← List.replicate_succ]
  rw [List.replicate_succ', List.append_assoc]
  rfl

/-- A loose margin right of the column goes without an end. -/
theorem leave_loose {column : Int} {c : Nat} (h : column < c) (ms : List Margin)
    (ts : List Token) :
    leave column (⟨c, false⟩ :: ms, ts) = leave column (ms, ts) := by
  simp [leave, close, h]

theorem leave_cons_of_lt {column : Int} {m : Margin} (h : column < m.column) (ms : List Margin)
    (ts : List Token) :
    leave column (m :: ms, ts) = leave column (ms, if m.block then .blockEnd :: ts else ts) := by
  obtain ⟨c, b⟩ := m
  cases b
  · exact leave_loose h ms ts
  · exact leave_block h ms ts

/-- What is left is at the column or left of it. -/
theorem indent_leave {column : Int} (h : -1 ≤ column) (p : List Margin × List Token) :
    indent (leave column p).1 ≤ column := by
  obtain ⟨ms, ts⟩ := p
  induction ms generalizing ts with
  | nil => exact h
  | cons m ms ih =>
    by_cases hm : column < m.column
    · rw [leave_cons_of_lt hm]
      exact ih _
    · rw [leave_of_le (by show (m.column : Int) ≤ column; omega)]
      show (m.column : Int) ≤ column
      omega

/-- Leaving to one column and then to one left of it is leaving to the second at once. -/
theorem leave_leave {e d : Int} (h : e ≤ d) (p : List Margin × List Token) :
    leave e (leave d p) = leave e p := by
  obtain ⟨ms, ts⟩ := p
  induction ms generalizing ts with
  | nil => rfl
  | cons m ms ih =>
    by_cases hm : d < m.column
    · rw [leave_cons_of_lt hm, leave_cons_of_lt (show e < m.column by omega), ih]
    · have : leave d (m :: ms, ts) = (m :: ms, ts) :=
        leave_of_le (by show (m.column : Int) ≤ d; omega) ts
      rw [this]

theorem indent_shift_le (ms : List Margin) : indent (shift ms) ≤ indent ms + 1 := by
  cases ms with
  | nil => simp [shift, indent]
  | cons m ms =>
    have hself : (m.column : Int) ≤ m.column + 1 := by omega
    cases hblock : m.block <;> simp [shift, hblock, indent, hself]

/-! ## Where a value may start -/

/-- Margins on which a value may start, with those that are left after it. -/
inductive Covers : List Margin → List Margin → Prop
  | root : Covers [] []
  | block (c : Nat) (ms : List Margin) : Covers (⟨c, true⟩ :: ms) (⟨c, true⟩ :: ms)
  | loose (c : Nat) (ms : List Margin) :
      Covers (⟨c + 1, false⟩ :: ⟨c, true⟩ :: ms) (⟨c, true⟩ :: ms)

variable {ms ground : List Margin}

theorem Covers.dropLoose (h : Covers ms ground) : dropLoose ms = ground := by
  cases h <;> rfl

theorem Covers.after (h : Covers ms ground) : Covers ground ground := by
  cases h with
  | root => exact .root
  | block c ms => exact .block c ms
  | loose c ms => exact .block c ms

theorem Covers.shift (h : Covers ms ground) : Covers (shift ms) ground := by
  cases h with
  | root => exact .root
  | block c ms => exact .loose c ms
  | loose c ms => exact .loose c ms

theorem Covers.indent_le (h : Covers ms ground) : indent ms ≤ indent ground + 1 := by
  cases h <;> simp only [indent] <;> omega

/-- A loose margin makes no difference to what follows left of it. -/
theorem Covers.leave_eq (h : Covers ms ground) {column : Int}
    (left : ground ≠ [] → column ≤ indent ground) (ts : List Token) :
    leave column (ms, ts) = leave column (ground, ts) := by
  cases h with
  | root => rfl
  | block c ms => rfl
  | loose c ms =>
    have : column ≤ (c : Int) := left (List.cons_ne_nil _ _)
    exact leave_loose (by omega) _ ts

/-- Where a value ends for good: at a line that is not indented more than the collection around it,
or, outside all collections, at the end of the stream or at a document marker. -/
inductive ValueEnds : List Margin → Nat → List Char → Prop
  | inside {ms : List Margin} {column : Nat} {tail : List Char} :
      column ≤ indent ms → ValueEnds ms column tail
  | stream : ValueEnds [] 0 []
  | marker {tail : List Char} : atDocumentMarker tail = true → ValueEnds [] 0 tail

theorem ValueEnds.le_indent {column : Nat} {tail : List Char} (h : ValueEnds ground column tail)
    (nonempty : ground ≠ []) : column ≤ indent ground := by
  cases h with
  | inside h => exact h
  | stream => exact absurd rfl nonempty
  | marker => exact absurd rfl nonempty

/-! ## Where an entry may start -/

/-- Margins at which an entry of a block collection starts at a column, with those around the
collection, and whether the entry is the first one. -/
inductive Opening (column : Nat) : List Margin → List Margin → Bool → Prop
  | again (ms : List Margin) : Opening column (⟨column, true⟩ :: ms) ms false
  | first {ms ground : List Margin} : Covers ms ground → indent ground < column →
      Opening column ms ground true

variable {column : Nat} {opened : Bool}

theorem Opening.openAt (h : Opening column ms ground opened) :
    openAt column ms = (⟨column, true⟩ :: ground, opened) := by
  cases h with
  | again => simp [Margin.openAt, indent]
  | first covers left =>
    cases covers with
    | root => simp [Margin.openAt, show indent [] < (column : Int) from left]
    | block c ms =>
      have : c < column := by simpa [indent] using left
      simp [Margin.openAt, indent, this]
    | loose c ms =>
      have : c < column := by simpa [indent] using left
      simp [Margin.openAt, indent, this, show c + 1 ≤ column from this]

theorem Opening.dropLoose (h : Opening column ms ground opened) :
    Opening column (dropLoose ms) ground opened := by
  cases h with
  | again => exact .again _
  | first covers left =>
    rw [covers.dropLoose]
    exact .first covers.after left

theorem Opening.indent_le (h : Opening column ms ground opened) : indent ms ≤ column := by
  cases h with
  | again => exact Int.le_refl _
  | first covers left => exact Int.le_trans covers.indent_le left

end Provision.Yaml.Margin
