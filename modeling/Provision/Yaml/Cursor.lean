import Provision.Yaml.Text

/-!
# Cursors

A cursor is a place in a stream: what is still to be read, and how many characters, lines and
columns lie before it. Everything about a place but the rest follows from the characters passed, one
`step` at a time.
-/

namespace Provision.Yaml

/-- A place in a stream. -/
structure Cursor where
  /-- The characters still to be read. -/
  rest : List Char
  /-- The number of characters before this place. -/
  index : Nat := 0
  /-- The number of line breaks before this place. -/
  line : Nat := 0
  /-- The number of characters before this place on its line. -/
  column : Nat := 0
  /-- Whether nothing but blanks stands before this place on its line. -/
  fresh : Bool := true

namespace Cursor

/-- The place after the next character. -/
def step (c : Cursor) : Cursor :=
  match c.rest with
  | [] => c
  | x :: rest =>
    if x = '\n' then
      { rest, index := c.index + 1, line := c.line + 1, column := 0, fresh := true }
    else
      { rest, index := c.index + 1, line := c.line, column := c.column + 1,
        fresh := c.fresh && isBlank x }

/-- The place after the next `n` characters. -/
def advance : Nat → Cursor → Cursor
  | 0, c => c
  | n + 1, c => advance n c.step

theorem rest_step (c : Cursor) : c.step.rest = c.rest.drop 1 := by
  unfold step
  split
  · next h => rw [h]; rfl
  · next x rest h =>
    rw [h]
    split <;> rfl

/-- Advancing passes as many characters as it says. -/
theorem rest_advance (n : Nat) (c : Cursor) : (c.advance n).rest = c.rest.drop n := by
  induction n generalizing c with
  | zero => rfl
  | succ n ih =>
    rw [advance, ih, rest_step, List.drop_drop, Nat.add_comm]

/-- The characters up to the first that fails a test. -/
def span (p : Char → Bool) (c : Cursor) : List Char := c.rest.takeWhile p

/-- The place of the first character that fails a test. -/
def skip (p : Char → Bool) (c : Cursor) : Cursor := c.advance (c.span p).length

/-- The place after a character, if it comes next. -/
def expect? (x : Char) (c : Cursor) : Option Cursor :=
  if c.rest.head? = some x then some c.step else none

/-- The end of the line on which the cursor stands. -/
def lineEnd (c : Cursor) : Cursor := c.skip (· != '\n')

/-- The place after blanks and a comment, and the blanks. A comment has a blank before it; without
one it is an error. -/
def blanksAndComment? (blank : Char → Bool) (c : Cursor) : Option (List Char × Cursor) :=
  let blanks := c.span blank
  let c := c.skip blank
  if c.rest.head? = some '#' then
    if blanks.isEmpty then none else some (blanks, c.lineEnd)
  else some (blanks, c)

end Cursor

end Provision.Yaml
