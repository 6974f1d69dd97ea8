import Provision.Text.Pieces
import Provision.Yaml.Text

/-!
# Block scalars

A block scalar is a run of lines. Its header says whether line breaks fold, what becomes of those at
the end, and perhaps how far the lines are indented; without that the first line that is not blank
says it. The reader works on the list of the lines that follow the header.
-/

namespace Provision.Yaml.Block

/-- What becomes of the line breaks at the end. -/
inductive Chomping where
  /-- None stays. -/
  | strip
  /-- That of the last line stays. -/
  | clip
  /-- All stay. -/
  | keep
deriving DecidableEq, Repr

/-- The header of a block scalar. -/
structure Header where
  /-- Whether line breaks between words fold into spaces. -/
  folded : Bool
  chomping : Chomping := .clip
  /-- The indentation that the header gives, counted from that of the parent. -/
  indentation : Option Nat := none

/-- The chomping that an indicator stands for. -/
def chomping? (c : Char) : Option Chomping :=
  if c = '+' then some .keep else if c = '-' then some .strip else none

/-- The digit from one to nine that an indicator stands for. -/
def indentation? (c : Char) : Option Nat :=
  if c.isDigit ∧ c ≠ '0' then some (c.toNat - 48) else none

/-- The header that the characters after `|` or `>` give, and their number. Either indicator may
come first; a zero is an error. -/
def header? (folded : Bool) (cs : List Char) : Option (Header × Nat) :=
  match cs with
  | [] => some ({ folded }, 0)
  | a :: rest =>
    match chomping? a with
    | some chomping =>
      match rest with
      | b :: _ =>
        if b.isDigit then
          (indentation? b).map fun i => ({ folded, chomping, indentation := some i }, 2)
        else some ({ folded, chomping }, 1)
      | [] => some ({ folded, chomping }, 1)
    | none =>
      if a.isDigit then
        (indentation? a).map fun i =>
          match rest.head?.bind chomping? with
          | some chomping => ({ folded, chomping, indentation := some i }, 2)
          | none => ({ folded, indentation := some i }, 1)
      else some ({ folded }, 0)

/-- The number of spaces at the start of a line, up to a limit. -/
def spaces (limit : Nat) (line : List Char) : Nat :=
  ((line.take limit).takeWhile (· == ' ')).length

/-- The deepest indentation among the blank lines at the start and the line after them. -/
def leadingIndentation : List (List Char) → Nat
  | [] => 0
  | line :: lines =>
    let n := spaces line.length line
    if n = line.length ∧ lines ≠ [] then max n (leadingIndentation lines) else n

/-- Where the lines of a block scalar end. -/
inductive Ending where
  /-- At the end of the stream, after this many spaces of a last line without text. -/
  | stream (column : Nat)
  /-- Before a line with text after this many spaces. -/
  | line (column : Nat)

/-- The lines of a block scalar without their indentation, the place where they end, and the number
of characters up to there. An empty line stands for itself; the last line of a stream is none if it
is blank. A block scalar without indentation ends at the marker `...`. -/
def body (indent : Nat) : List (List Char) → List (List Char) × Ending × Nat
  | [] => ([], .stream 0, 0)
  | line :: lines =>
    let n := spaces indent line
    let text := line.drop n
    if text = [] then
      if lines = [] then ([], .stream n, n)
      else
        let (texts, ending, count) := body indent lines
        ([] :: texts, ending, line.length + 1 + count)
    else if n < indent ∨ (indent = 0 ∧ atDocumentEnd text) then ([], .line n, n)
    else if lines = [] then ([text], .stream 0, line.length)
    else
      let (texts, ending, count) := body indent lines
      (text :: texts, ending, line.length + 1 + count)

/-- Whether a line starts with a blank, which keeps the line breaks around it. -/
def startsBlank (line : List Char) : Bool := line.head?.any isBlank

/-- The texts of lines joined by line breaks. So many `breaks` come before the next text, and `kept`
tells whether they stay as they are, as before the first text and beside one that starts with a
blank. Where they fold, one becomes a space, and more become one fewer. -/
def join (folded : Bool) (breaks : Nat) (kept : Bool) : List (List Char) → List Char
  | [] => []
  | [] :: texts => join folded (breaks + 1) kept texts
  | text :: texts =>
    let gap :=
      if folded && !kept && !startsBlank text then
        if breaks = 1 then [' '] else List.replicate (breaks - 1) '\n'
      else List.replicate breaks '\n'
    gap ++ text ++ join folded 1 (startsBlank text) texts

/-- The number of empty lines at the end. -/
def trailing (texts : List (List Char)) : Nat := (texts.reverse.takeWhile List.isEmpty).length

/-- The text of a scalar whose lines are all empty. At the end of the stream the line break of the
header counts as one. -/
def emptyText (chomping : Chomping) (lines : Nat) : Ending → List Char
  | .stream _ =>
    match chomping with
    | .strip => []
    | .clip => ['\n']
    | .keep => List.replicate (max 1 lines) '\n'
  | .line _ => if chomping = .keep then List.replicate lines '\n' else []

/-- The line breaks at the end of a scalar with text. A last line of a stream that is indented like
the text and has none counts as one more. -/
def ending (indent : Nat) (chomping : Chomping) (lines : Nat) (place : Ending) : List Char :=
  let more :=
    match place with
    | .stream column => if max indent 1 ≤ column then 1 else 0
    | .line _ => 0
  match chomping with
  | .strip => []
  | .clip => List.replicate (1 + more) '\n'
  | .keep => List.replicate (1 + more + lines) '\n'

/-- The text of a block scalar from what follows its header line, and the number of characters it
takes; `parent` is the indentation around it, less than zero at the top. -/
def read? (header : Header) (parent : Int) (rest : List Char) : Option (List Char × Nat) :=
  if rest.head? = some '\t' then none
  else
    let lines := Text.pieces '\n' rest
    let indent :=
      match header.indentation with
      | some i => (max parent 0).toNat + i
      | none => max (leadingIndentation lines) (parent + 1).toNat
    let (texts, place, count) := body indent lines
    if texts.all List.isEmpty then
      match place with
      | .line column =>
        if column < indent ∧ parent < column then none
        else some (emptyText header.chomping texts.length place, count)
      | .stream _ => some (emptyText header.chomping texts.length place, count)
    else
      some (join header.folded 0 true texts ++
        ending indent header.chomping (trailing texts) place, count)

end Provision.Yaml.Block
