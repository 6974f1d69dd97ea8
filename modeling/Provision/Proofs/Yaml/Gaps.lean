import Provision.Yaml.TokenReader
import Provision.Yaml.Writing

/-!
# Gaps

How a cursor moves through texts of known form, and where the reader finds its next token after the
gaps of written documents: spaces, line breaks and comment lines.

* **places** — a cursor moves by what it passes (`Cursor.advance_line`, `Cursor.step_break`), and
  the rest together with the index never changes (`Cursor.size_advance`);
* **gaps** — one lemma for each kind of line of which a gap is made (`skipGap?_blanks`,
  `skipGap?_break`, `skipGap?_comment`).
-/

namespace Provision.Yaml

open Writing (spaces)

namespace Cursor

/-! ## Places -/

theorem advance_succ (n : Nat) (c : Cursor) : c.advance (n + 1) = (c.advance n).step := by
  induction n generalizing c with
  | zero => rfl
  | succ n ih => exact ih c.step

theorem advance_add (m n : Nat) (c : Cursor) : c.advance (m + n) = (c.advance m).advance n := by
  induction m generalizing c with
  | zero => rw [Nat.zero_add]; rfl
  | succ m ih => rw [Nat.succ_add]; exact ih c.step

/-- The length of the stream in which the cursor is a place. -/
def size (c : Cursor) : Nat := c.index + c.rest.length

theorem size_step (c : Cursor) : c.step.size = c.size := by
  obtain ⟨rest, i, l, k, f⟩ := c
  cases rest with
  | nil => rfl
  | cons x rest =>
    unfold step size
    simp only [List.length_cons]
    split
    · show i + 1 + rest.length = _
      omega
    · show i + 1 + rest.length = _
      omega

/-- A cursor stays in its stream. -/
theorem size_advance (n : Nat) (c : Cursor) : (c.advance n).size = c.size := by
  induction n generalizing c with
  | zero => rfl
  | succ n ih => rw [advance, ih, size_step]

theorem index_le_index_step (c : Cursor) : c.index ≤ c.step.index := by
  unfold step
  split
  · exact Nat.le_refl _
  · split <;> exact Nat.le_succ _

/-- A cursor never moves back. -/
theorem index_le_index_advance (n : Nat) (c : Cursor) : c.index ≤ (c.advance n).index := by
  induction n generalizing c with
  | zero => exact Nat.le_refl _
  | succ n ih => exact Nat.le_trans (index_le_index_step c) (ih c.step)

/-- The place after a line break. -/
theorem step_break {c : Cursor} {after : List Char} (rest : c.rest = '\n' :: after) :
    c.step = ⟨after, c.index + 1, c.line + 1, 0, true⟩ := by
  unfold step
  rw [rest]
  rfl

/-- The place after a text without line breaks. -/
theorem advance_line {c : Cursor} {text after : List Char} (rest : c.rest = text ++ after)
    (unbroken : '\n' ∉ text) :
    c.advance text.length =
      ⟨after, c.index + text.length, c.line, c.column + text.length,
        c.fresh && text.all isBlank⟩ := by
  obtain ⟨_, i, l, k, f⟩ := c
  subst rest
  induction text generalizing i k f with
  | nil => simp [advance]
  | cons x text ih =>
    have hx : x ≠ '\n' := fun h => unbroken (h ▸ List.mem_cons_self)
    have hstep : step ⟨x :: (text ++ after), i, l, k, f⟩ =
        ⟨text ++ after, i + 1, l, k + 1, f && isBlank x⟩ := if_neg hx
    rw [List.length_cons, List.cons_append, advance, hstep,
      ih fun h => unbroken (List.mem_cons_of_mem _ h)]
    simp only [List.all_cons, Bool.and_assoc, Nat.add_assoc, Nat.add_comm 1]

theorem isBlank_of_mem_spaces {n : Nat} {x : Char} (h : x ∈ spaces n) : isBlank x = true := by
  rw [List.eq_of_mem_replicate h]
  rfl

theorem length_spaces (n : Nat) : (spaces n).length = n := List.length_replicate

theorem notMem_spaces {n : Nat} {x : Char} (h : x ≠ ' ') : x ∉ spaces n :=
  fun hx => h (List.eq_of_mem_replicate hx)

/-- The place after the rest of a line, its break and the indentation of the next line. -/
theorem advance_gap {c : Cursor} {text tail : List Char} {d : Nat}
    (rest : c.rest = text ++ '\n' :: (spaces d ++ tail)) (unbroken : '\n' ∉ text) :
    c.advance (text.length + (d + 1)) =
      ⟨tail, c.index + (text.length + (d + 1)), c.line + 1, d, true⟩ := by
  have hline := advance_line rest unbroken
  have hbreak := step_break (show (c.advance text.length).rest = _ by rw [hline])
  have hspaces := advance_line (show ((c.advance text.length).step).rest = _ by rw [hbreak])
    (notMem_spaces (by decide))
  have hblank : (spaces d).all isBlank = true :=
    List.all_eq_true.2 fun _ => isBlank_of_mem_spaces
  rw [advance_add, advance]
  rw [hbreak, hblank, length_spaces] at hspaces
  rw [hbreak, hspaces, hline]
  simp only [Bool.and_self, Nat.zero_add]
  congr 1
  omega

/-- A span ends where its text ends. -/
theorem span_eq {p : Char → Bool} {c : Cursor} {text after : List Char}
    (rest : c.rest = text ++ after) (inside : ∀ x ∈ text, p x = true)
    (outside : ∀ x ∈ after.head?, p x = false) : c.span p = text := by
  have hafter : after.takeWhile p = [] := by
    cases after with
    | nil => rfl
    | cons x after => simp [outside x (by simp)]
  rw [span, rest, List.takeWhile_append_of_pos inside, hafter, List.append_nil]

theorem skip_eq {p : Char → Bool} {c : Cursor} {text after : List Char}
    (rest : c.rest = text ++ after) (inside : ∀ x ∈ text, p x = true)
    (outside : ∀ x ∈ after.head?, p x = false) : c.skip p = c.advance text.length := by
  rw [skip, span_eq rest inside outside]

end Cursor

/-! ## Gaps -/

/-- What may stand where a token is expected: its first character, or the end of the stream. -/
def StartsToken (cs : List Char) : Prop := ∀ x ∈ cs.head?, isGap x = false ∧ x ≠ '#'

theorem StartsToken.cons {x : Char} (h : isGap x = false) (hash : x ≠ '#') (cs : List Char) :
    StartsToken (x :: cs) := by
  intro y hy
  cases hy
  exact ⟨h, hash⟩

theorem StartsToken.nil : StartsToken [] := by
  intro y hy
  cases hy

theorem ne_of_isGap {x y : Char} (h : isGap x = false) (gap : isGap y = true) : x ≠ y := by
  rintro rfl
  rw [h] at gap
  cases gap

theorem isBlank_of_isGap {x : Char} (h : isGap x = false) : isBlank x = false := by
  simp only [isGap, Bool.or_eq_false_iff] at h
  exact h.1

/-- Spaces are no tabs. -/
theorem tabIndents_eq_false (indent : Int) {c : Cursor} {n : Nat} {after : List Char}
    (rest : c.rest = spaces n ++ after) (outside : ∀ x ∈ after.head?, isBlank x = false) :
    TokenReader.tabIndents indent c = false := by
  have hspan := Cursor.span_eq rest (fun _ => Cursor.isBlank_of_mem_spaces) outside
  have notab : ((spaces n).take (indent - c.column).toNat).contains '\t' = false := by
    rw [Bool.eq_false_iff]
    intro h
    have := List.eq_of_mem_replicate (List.mem_of_mem_take (List.contains_iff_mem.1 h))
    cases this
  rw [TokenReader.tabIndents, hspan, notab, Bool.and_false]

namespace TokenReader

/-- A gap that ends on its line. -/
theorem skipGap?_blanks (indent : Int) (lines : Nat) {c : Cursor} {blanks after : List Char}
    (rest : c.rest = blanks ++ after) (inside : ∀ x ∈ blanks, isBlank x = true)
    (token : StartsToken after) (tabs : tabIndents indent c = false) :
    skipGap? indent (lines + 1) c = some (c.advance blanks.length, false) := by
  have outside : ∀ x ∈ after.head?, isBlank x = false :=
    fun x hx => isBlank_of_isGap (token x hx).1
  have hskip := Cursor.skip_eq rest inside outside
  have hrest : (c.advance blanks.length).rest = after := by
    rw [Cursor.rest_advance, rest, List.drop_left]
  have hash : after.head? ≠ some '#' := fun h => (token '#' h).2 rfl
  have hbreak : after.head? ≠ some '\n' := fun h => ne_of_isGap (token '\n' h).1 rfl rfl
  rw [skipGap?, tabs, hskip]
  simp [hrest, hash, hbreak]

theorem skipGap?_spaces (indent : Int) (lines : Nat) {c : Cursor} {n : Nat} {after : List Char}
    (rest : c.rest = spaces n ++ after) (token : StartsToken after) :
    skipGap? indent (lines + 1) c = some (c.advance n, false) := by
  have outside : ∀ x ∈ after.head?, isBlank x = false :=
    fun x hx => isBlank_of_isGap (token x hx).1
  have hgap := skipGap?_blanks indent lines rest (fun _ => Cursor.isBlank_of_mem_spaces) token
    (tabIndents_eq_false indent rest outside)
  rwa [Cursor.length_spaces] at hgap

/-- A gap that goes on after spaces and a line break. -/
theorem skipGap?_break (indent : Int) (lines : Nat) {c : Cursor} {n : Nat} {after : List Char}
    (rest : c.rest = spaces n ++ '\n' :: after) :
    skipGap? indent (lines + 1) c =
      (skipGap? indent lines (c.advance (n + 1))).map fun p => (p.1, true) := by
  have outside : ∀ x ∈ ('\n' :: after).head?, isBlank x = false := by
    intro x hx
    cases hx
    rfl
  have hskip := Cursor.skip_eq rest (fun _ => Cursor.isBlank_of_mem_spaces) outside
  have hrest : (c.advance n).rest = '\n' :: after := by
    rw [Cursor.rest_advance, rest, List.drop_left' (Cursor.length_spaces n)]
  rw [Cursor.advance_succ, skipGap?, tabIndents_eq_false indent rest outside, hskip]
  simp [spaces, hrest]

/-- A gap of the end of a line and the indentation of the next one. -/
theorem skipGap?_indentation (indent : Int) {c : Cursor} {d : Nat} {tail : List Char}
    (rest : c.rest = '\n' :: (spaces d ++ tail)) (token : StartsToken tail) :
    skipGap? indent (c.rest.length + 1) c = some (c.advance (d + 1), true) := by
  have hbreak : (c.advance 1).rest = spaces d ++ tail := by
    rw [Cursor.rest_advance, rest]
    rfl
  have hlength : c.rest.length = (spaces d ++ tail).length + 1 := by rw [rest, List.length_cons]
  rw [skipGap?_break _ _ (n := 0) rest, hlength, skipGap?_spaces _ _ hbreak token, Nat.add_comm d,
    Cursor.advance_add]
  rfl

/-- A gap that goes on after a comment line. -/
theorem skipGap?_comment (indent : Int) (lines : Nat) {c : Cursor} {text after : List Char}
    (rest : c.rest = '#' :: text ++ '\n' :: after) (unbroken : '\n' ∉ text) :
    skipGap? indent (lines + 1) c =
      (skipGap? indent lines (c.advance (text.length + 2))).map fun p => (p.1, true) := by
  have outside : ∀ x ∈ ('#' :: text ++ '\n' :: after).head?, isBlank x = false := by
    intro x hx
    cases hx
    rfl
  have nospaces : c.rest = spaces 0 ++ ('#' :: text ++ '\n' :: after) := rest
  have hskip : c.skip isBlank = c :=
    Cursor.skip_eq nospaces (fun _ => Cursor.isBlank_of_mem_spaces) outside
  have hline : c.lineEnd = c.advance (text.length + 1) := by
    have inside : ∀ x ∈ '#' :: text, (x != '\n') = true := by
      intro x hx
      rcases List.mem_cons.1 hx with rfl | hx
      · rfl
      · exact bne_iff_ne.2 fun h => unbroken (h ▸ hx)
    refine Cursor.skip_eq rest inside fun x hx => ?_
    cases hx
    rfl
  have hrest : (c.advance (text.length + 1)).rest = '\n' :: after := by
    rw [Cursor.rest_advance, rest, List.drop_left' (by simp)]
  rw [Cursor.advance_succ, skipGap?, tabIndents_eq_false indent nospaces outside, hskip]
  simp [rest, hline, hrest]

/-- Skipping a gap only moves on. -/
theorem exists_advance_of_skipGap? {indent : Int} {lines : Nat} {c c' : Cursor} {newLine : Bool}
    (h : skipGap? indent lines c = some (c', newLine)) : ∃ n, c' = c.advance n := by
  induction lines generalizing c c' newLine with
  | zero =>
    cases h
    exact ⟨0, rfl⟩
  | succ lines ih =>
    have hline : ∃ n, (if (c.skip isBlank).rest.head? = some '#' then (c.skip isBlank).lineEnd
        else c.skip isBlank) = c.advance n := by
      split
      · exact ⟨_, (Cursor.advance_add _ _ c).symm⟩
      · exact ⟨_, rfl⟩
    obtain ⟨n, hn⟩ := hline
    unfold skipGap? at h
    simp only [hn] at h
    split at h
    · cases h
    · split at h
      · obtain ⟨⟨c₁, b⟩, h₁, h₂⟩ := Option.map_eq_some_iff.1 h
        cases h₂
        obtain ⟨m, rfl⟩ := ih h₁
        exact ⟨n + 1 + m, by rw [Cursor.advance_add, Cursor.advance_succ]⟩
      · cases h
        exact ⟨n, rfl⟩

end TokenReader

end Provision.Yaml
