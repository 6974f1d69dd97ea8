/-!
# Pieces

A text cut at every occurrence of a separator: lines at line feeds, segments at points. There is one
piece more than there are separators, so the empty text is one empty piece.
-/

namespace Provision.Text

variable {α : Type} [DecidableEq α]

/-- The pieces between the occurrences of a separator. -/
def pieces (separator : α) : List α → List (List α)
  | [] => [[]]
  | x :: xs =>
    if x = separator then [] :: pieces separator xs
    else
      match pieces separator xs with
      | [] => [[x]]
      | piece :: more => (x :: piece) :: more

/-- The pieces with the separator between them. -/
def join (separator : α) : List (List α) → List α
  | [] => []
  | [piece] => piece
  | piece :: more => piece ++ separator :: join separator more

theorem pieces_ne_nil (separator : α) (xs : List α) : pieces separator xs ≠ [] := by
  cases xs with
  | nil => simp [pieces]
  | cons x xs =>
    simp only [pieces]
    split
    · simp
    · split <;> simp

/-- Cutting loses nothing. -/
theorem join_pieces (separator : α) (xs : List α) :
    join separator (pieces separator xs) = xs := by
  induction xs with
  | nil => rfl
  | cons x xs ih =>
    simp only [pieces]
    have hne := pieces_ne_nil separator xs
    cases hp : pieces separator xs with
    | nil => exact absurd hp hne
    | cons piece more =>
      rw [hp] at ih
      split
      · next hx => simp [join, ih, hx]
      · cases more with
        | nil => simpa [join] using ih
        | cons next rest => simpa [join] using ih

/-- No piece holds the separator. -/
theorem separator_notMem_of_mem_pieces {separator : α} {xs piece : List α}
    (h : piece ∈ pieces separator xs) : separator ∉ piece := by
  induction xs generalizing piece with
  | nil => simp_all [pieces]
  | cons x xs ih =>
    simp only [pieces] at h
    split at h
    · rcases List.mem_cons.1 h with rfl | h
      · simp
      · exact ih h
    · next hx =>
      cases hp : pieces separator xs with
      | nil => exact absurd hp (pieces_ne_nil separator xs)
      | cons first more =>
        rw [hp] at h ih
        rcases List.mem_cons.1 h with rfl | h
        · have := ih List.mem_cons_self
          simp only [List.mem_cons, not_or]
          exact ⟨fun he => hx he.symm, this⟩
        · exact ih (List.mem_cons_of_mem _ h)

end Provision.Text
