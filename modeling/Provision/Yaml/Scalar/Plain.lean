import Provision.Yaml.Text

/-!
# Plain scalars

A plain scalar has no delimiters. It goes on until a colon that ends a key, a comment, a line that
is indented too little, or in a flow collection a flow mark; the gap before that is no part of it.
Gaps inside are folded as in quoted scalars.
-/

namespace Provision.Yaml.Plain

/-- What has just been read of a plain scalar. -/
inductive State where
  /-- Nothing. -/
  | start
  /-- A character of the text. -/
  | text
  /-- Blanks after text, the last one first. -/
  | blanks (seen : List Char)
  /-- Line breaks and blanks: how many line breaks follow the first one. -/
  | lines (more : Nat)
  /-- A tab where indentation should be, which only an empty line may have, or a comment after it.
  -/
  | tabbed (more : Nat) (comment : Bool)

/-- What a character does to a plain scalar. -/
inductive Outcome where
  /-- It is no part of it. -/
  | stop
  /-- It adds to the text. -/
  | next (added : List Char) (state : State)

/-- Whether a plain scalar may go on with this character. -/
def allowed (flow : Bool) (c : Char) (after : List Char) : Bool :=
  !(c == ':' && (atGap after || (flow && atFlowMark after))) && !(flow && isFlowMark c)

/-- The first character of a word, after text that the gap before it stands for. A document marker
is one only at the start of its line. -/
def word? (flow : Bool) (column : Nat) (gap : List Char) (c : Char) (after : List Char) :
    Option Outcome :=
  if (column == 0 && atDocumentMarker (c :: after)) || c == '#' then some .stop
  else if flow && c == '-' && atFlowMark after then none
  else if allowed flow c after then some (.next (gap ++ [c]) .text)
  else some .stop

/-- What the next character does; none where no plain scalar can be read. The text of further lines
starts at the column `floor` or right of it, unless it is in a flow collection. -/
def step? (flow : Bool) (floor : Nat) (state : State) (column : Nat) (c : Char)
    (after : List Char) : Option Outcome :=
  match state with
  | .start => word? flow column [] c after
  | .text =>
    if c = '\n' then some (.next [] (.lines 0))
    else if isBlank c then some (.next [] (.blanks [c]))
    else if allowed flow c after then some (.next [c] .text)
    else some .stop
  | .blanks seen =>
    if c = '\n' then some (.next [] (.lines 0))
    else if isBlank c then some (.next [] (.blanks (c :: seen)))
    else word? flow column seen.reverse c after
  | .lines more =>
    if c = '\n' then some (.next [] (.lines (more + 1)))
    else if c = '\t' ∧ column < floor then some (.next [] (.tabbed more false))
    else if isBlank c then some (.next [] (.lines more))
    else if ¬ flow ∧ column < floor then some .stop
    else word? flow column (if more = 0 then [' '] else List.replicate more '\n') c after
  | .tabbed more comment =>
    if c = '\n' then some (.next [] (.lines (more + 1)))
    else if comment || isBlank c then some (.next [] (.tabbed more comment))
    else if c = '#' then some (.next [] (.tabbed more true))
    else none

/-- The text of a plain scalar and how many characters it takes, the gap after it included. -/
def read? (flow : Bool) (floor : Nat) : State → Nat → List Char → Option (List Char × Nat)
  | _, _, [] => some ([], 0)
  | state, column, c :: cs =>
    match step? flow floor state column c cs with
    | none => none
    | some .stop => some ([], 0)
    | some (.next added state) =>
      (read? flow floor state (if c = '\n' then 0 else column + 1) cs).map fun (text, n) =>
        (added ++ text, n + 1)

end Provision.Yaml.Plain
