import Provision.Numeral.Digits
import Provision.Yaml.Text

/-!
# Quoted scalars

A quoted scalar is read one character at a time. Between words the blanks stand as they are, unless
a line break is among them: then blanks go, the first line break becomes a space, and more than one
become one fewer. Double quotes know escapes, among them one for the end of a line; in single quotes
a quote is written twice.
-/

namespace Provision.Yaml.Quoted

/-- The two ways to quote. -/
inductive Style where
  | single
  | double
deriving DecidableEq, Repr

/-- The quote of a style. -/
def Style.mark : Style → Char
  | .single => '\''
  | .double => '"'

/-- What has just been read of a quoted scalar. -/
inductive State where
  /-- The opening quote or a character of the text. -/
  | text
  /-- Blanks after text, the last one first. -/
  | blanks (seen : List Char)
  /-- Line breaks and the blanks around them: whether the first one folds into a space, and how
  many follow it. -/
  | lines (folds : Bool) (more : Nat)
  /-- An escaped line break. -/
  | spliced
  /-- A backslash. -/
  | escape
  /-- Some digits of an escaped code point: how many are still missing, and the value so far. -/
  | code (missing value : Nat)
  /-- The first of two quotes that stand for one. -/
  | doubled

/-- What a character does to a quoted scalar. -/
inductive Outcome where
  /-- It adds to the text and is the closing quote. -/
  | close (added : List Char)
  /-- It adds to the text, and more follows. -/
  | next (added : List Char) (state : State)

/-- The outcome with text added in front. -/
def Outcome.after (first : List Char) : Outcome → Outcome
  | .close added => .close (first ++ added)
  | .next added state => .next (first ++ added) state

/-- The character that a backslash and a letter stand for. -/
def escaped? (c : Char) : Option Char :=
  match c with
  | '0' => some '\x00'
  | 'a' => some '\x07'
  | 'b' => some '\x08'
  | 't' => some '\t'
  | '\t' => some '\t'
  | 'n' => some '\n'
  | 'v' => some '\x0b'
  | 'f' => some '\x0c'
  | 'r' => some '\r'
  | 'e' => some '\x1b'
  | ' ' => some ' '
  | '"' => some '"'
  | '/' => some '/'
  | '\\' => some '\\'
  | 'N' => some '\u0085'
  | '_' => some '\u00a0'
  | 'L' => some '\u2028'
  | 'P' => some '\u2029'
  | _ => none

/-- How many hexadecimal digits follow a backslash and this letter. -/
def codeLength? (c : Char) : Option Nat :=
  match c with
  | 'x' => some 2
  | 'u' => some 4
  | 'U' => some 8
  | _ => none

/-- The character with this code point, if there is one. -/
def ofCode? (n : Nat) : Option Char := if n.isValidChar then some (Char.ofNat n) else none

/-- The text that a gap of line breaks stands for. -/
def folded (folds : Bool) (more : Nat) : List Char :=
  if folds && more == 0 then [' '] else List.replicate more '\n'

/-- A character of the text proper; `after` is what follows it. -/
def content (style : Style) (c : Char) (after : List Char) : Outcome :=
  match style with
  | .single =>
    if c = '\'' then if after.head? = some '\'' then .next [] .doubled else .close []
    else .next [c] .text
  | .double =>
    if c = '"' then .close [] else if c = '\\' then .next [] .escape else .next [c] .text

/-- A blank, a line break or a character after line breaks. A character that ends the gap must not
stand left of the indentation nor start a document marker, and a tab is no indentation. -/
def afterBreak? (style : Style) (indent : Int) (column : Nat) (folds : Bool) (more : Nat) (c : Char)
    (after : List Char) : Option Outcome :=
  if c = '\n' then some (.next [] (.lines folds (more + 1)))
  else if isBlank c then
    if c = '\t' ∧ column < indent then none else some (.next [] (.lines folds more))
  else if (column = 0 ∧ atDocumentMarker (c :: after)) ∨ column < indent then none
  else some ((content style c after).after (folded folds more))

/-- What the next character does, if it may stand there. -/
def step? (style : Style) (indent : Int) (state : State) (column : Nat) (c : Char)
    (after : List Char) : Option Outcome :=
  match state with
  | .text =>
    if c = '\n' then some (.next [] (.lines true 0))
    else if isBlank c then some (.next [] (.blanks [c]))
    else some (content style c after)
  | .blanks seen =>
    if c = '\n' then some (.next [] (.lines true 0))
    else if isBlank c then some (.next [] (.blanks (c :: seen)))
    else some ((content style c after).after seen.reverse)
  | .lines folds more => afterBreak? style indent column folds more c after
  | .spliced =>
    if c = '"' then some (.close []) else afterBreak? style indent column false 0 c after
  | .doubled => some (.next [c] .text)
  | .escape =>
    if c = '\n' then some (.next [] .spliced)
    else match escaped? c, codeLength? c with
      | some x, _ => some (.next [x] .text)
      | none, some n => some (.next [] (.code n 0))
      | none, none => none
  | .code missing value =>
    match Numeral.hexValue? c with
    | none => none
    | some d =>
      if missing ≤ 1 then (ofCode? (value * 16 + d)).map fun x => .next [x] .text
      else some (.next [] (.code (missing - 1) (value * 16 + d)))

/-- The rest of a quoted scalar and how many characters it takes, the closing quote included. -/
def read? (style : Style) (indent : Int) : State → Nat → List Char → Option (List Char × Nat)
  | _, _, [] => none
  | state, column, c :: cs =>
    match step? style indent state column c cs with
    | none => none
    | some (.close added) => some (added, 1)
    | some (.next added state) =>
      (read? style indent state (if c = '\n' then 0 else column + 1) cs).map fun (text, n) =>
        (added ++ text, n + 1)

end Provision.Yaml.Quoted
