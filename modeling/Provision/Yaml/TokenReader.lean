import Provision.Yaml.Margin
import Provision.Yaml.Scalar.Block
import Provision.Yaml.Scalar.Plain
import Provision.Yaml.Scalar.Quoted
import Provision.Yaml.Tag

/-!
# Reading tokens

`tokens text` are the tokens of a stream. The reader takes one lexeme at a time. Whether a scalar or
a collection was a key turns out only at the colon after it, so the reader remembers the place of
each that could be one, a pending key per open flow collection, and puts the tokens for a key there
later.

A stream that cannot be read to its end still has the tokens up to the first place that is undecided
when the reader gives up; the last of them is then no `streamEnd`.
-/

namespace Provision.Yaml

/-- A place where a key may have started. -/
structure PendingKey where
  /-- Whether nothing else than a key may stand there. -/
  required : Bool
  /-- The tokens before that place, the last one first. -/
  earlier : List Token
  index : Nat
  line : Nat
  column : Nat

/-- A stream that is read up to a place. -/
structure TokenReader where
  cursor : Cursor
  /-- The tokens so far, the last one first. -/
  tokens : List Token := []
  margins : List Margin := []
  /-- The pending key at this depth of flow collections. -/
  pending : Option PendingKey := none
  /-- The pending keys around the open flow collections, the innermost first. -/
  outer : List (Option PendingKey) := []
  /-- Whether a key may start here. -/
  keyAllowed : Bool := true
  /-- The place right after a quoted scalar or a flow collection, where a colon needs no gap after
  it. -/
  adjacent : Nat := 0
  /-- Whether the pairs that follow need no braces of their own. -/
  braced : Bool := false
  /-- Whether the latest value belongs to a pair without braces that is not ended yet. -/
  inPair : Bool := false
  /-- The column where the latest tag or anchor started. -/
  propertyColumn : Nat := 0
  ended : Bool := false

namespace TokenReader

/-- Whether a flow collection is open. -/
def inFlow (r : TokenReader) : Bool := !r.outer.isEmpty

/-- The innermost margin's column. -/
def indent (r : TokenReader) : Int := Margin.indent r.margins

/-- The reader at another place. -/
def moveTo (r : TokenReader) (c : Cursor) : TokenReader := { r with cursor := c }

/-- The reader after one more token. -/
def push (r : TokenReader) (t : Token) : TokenReader := { r with tokens := t :: r.tokens }

/-! ## Gaps between tokens -/

/-- Whether a tab stands among the first blanks of a line where its indentation should be. -/
def tabIndents (indent : Int) (c : Cursor) : Bool :=
  c.fresh && ((c.span isBlank).take (indent - c.column).toNat).contains '\t'

/-- The place of the next token, after blanks, comments and line breaks, and whether it is on
another line. Only a line without a token may be indented by a tab; `lines` bounds the lines to
pass. -/
def skipGap? (indent : Int) : (lines : Nat) → Cursor → Option (Cursor × Bool)
  | 0, c => some (c, false)
  | lines + 1, c =>
    let tabbed := tabIndents indent c
    let c := c.skip isBlank
    let c := if c.rest.head? = some '#' then c.lineEnd else c
    if tabbed && !atLineEnd c.rest then none
    else if c.rest.head? = some '\n' then
      (skipGap? indent lines c.step).map fun (c, _) => (c, true)
    else some (c, false)

/-- The reader at its next token. A key may start on a new line, except in flow collections. -/
def skipToToken? (r : TokenReader) : Option TokenReader :=
  (skipGap? r.indent (r.cursor.rest.length + 1) r.cursor).map fun (c, newLine) =>
    { r with cursor := c, keyAllowed := r.keyAllowed || (newLine && !r.inFlow) }

/-- The place after spaces, comments and line breaks. -/
def skipSpaces : (lines : Nat) → Cursor → Cursor
  | 0, c => c
  | lines + 1, c =>
    let c := c.skip (· == ' ')
    let c := if c.rest.head? = some '#' then c.lineEnd else c
    if c.rest.head? = some '\n' then skipSpaces lines c.step else c

/-- The reader after the blanks and the comment that follow an indicator on its line. -/
def skipBlanks? (r : TokenReader) : Option TokenReader :=
  (r.cursor.blanksAndComment? isBlank).map fun (_, c) => r.moveTo c

/-! ## Pending keys -/

/-- Gives up a pending key that a colon can no longer reach: outside flow collections it is on one
line with its colon and at most 1024 characters before it. Giving up a required key is an error. -/
def dropStale? (r : TokenReader) : Option TokenReader :=
  match r.pending with
  | none => some r
  | some key =>
    if !r.inFlow && (key.line < r.cursor.line || key.index + 1024 < r.cursor.index) then
      if key.required then none else some { r with pending := none }
    else some r

/-- Gives up the pending key at this depth. Giving up a required key is an error. -/
def dropKey? (r : TokenReader) : Option TokenReader :=
  match r.pending with
  | none => some r
  | some key => if key.required then none else some { r with pending := none }

/-- Remembers this place as that of a pending key, if a key may start here. At the column of a block
mapping it is required. -/
def markKey (r : TokenReader) : TokenReader :=
  if r.keyAllowed then
    let key : PendingKey :=
      { required := !r.inFlow && r.margins.head? == some ⟨r.cursor.column, true⟩
        earlier := r.tokens
        index := r.cursor.index
        line := r.cursor.line
        column := r.cursor.column }
    { r with pending := some key }
  else r

/-- The tokens with others put in where a pending key started. -/
def insertAt (key : PendingKey) (added tokens : List Token) : List Token :=
  tokens.take (tokens.length - key.earlier.length) ++ (added.reverse ++ key.earlier)

/-- The tokens that no pending key can change any more, the last one first. -/
def decided (r : TokenReader) : List Token :=
  match ((r.pending :: r.outer).filterMap id).getLast? with
  | some key => key.earlier
  | none => r.tokens

/-! ## Collections -/

/-- Ends the block collections that are indented more than a column. -/
def closeTo (column : Int) (r : TokenReader) : TokenReader :=
  if r.inFlow then r
  else
    let (margins, ends) := Margin.close column r.margins
    { r with margins, tokens := ends ++ r.tokens }

/-- Opens a block collection at this place unless one is open at this column. -/
def openHere (start : Token) (r : TokenReader) : TokenReader :=
  if r.inFlow then r
  else
    let (margins, opened) := Margin.openAt r.cursor.column r.margins
    { r with margins, tokens := if opened then start :: r.tokens else r.tokens }

/-- Moves the margin right after an indicator. -/
def shiftMargin (r : TokenReader) : TokenReader :=
  if r.inFlow then r else { r with margins := Margin.shift r.margins }

/-- Ends the latest pair if it has no braces. The next comma or closing bracket does that, even one
of a collection inside the pair. Only the latest pair is known, so a collection with pairs cannot be
the value of a pair without braces. -/
def closePair (r : TokenReader) : TokenReader :=
  if r.inPair then { r with braced := false, inPair := false }.push .flowMappingEnd else r

/-- The most flow collections that may be open at once. -/
def flowLimit : Nat := 255

/-- `[` or `{`. -/
def openFlow? (sequence : Bool) (r : TokenReader) : Option TokenReader :=
  let r := r.markKey.shiftMargin
  if flowLimit ≤ r.outer.length then none
  else
    let r := { r with
      cursor := r.cursor.step, outer := r.pending :: r.outer, pending := none, keyAllowed := true,
      braced := r.braced || !sequence }
    r.skipBlanks?.map (·.push (if sequence then .flowSequenceStart else .flowMappingStart))

/-- `]` or `}`. -/
def closeFlow? (sequence : Bool) (r : TokenReader) : Option TokenReader := do
  let r ← r.dropKey?
  let r := match r.outer with
    | [] => r
    | key :: outer => { r with pending := key, outer }
  let r := { r with keyAllowed := false }.closePair
  let r ← (r.moveTo r.cursor.step).skipBlanks?
  let r := if r.inFlow then { r with adjacent := r.cursor.index } else r
  some (r.push (if sequence then .flowSequenceEnd else .flowMappingEnd))

/-- A comma between the entries of a flow collection. -/
def flowEntry? (r : TokenReader) : Option TokenReader := do
  let r ← r.dropKey?
  let r := { r with keyAllowed := true }.closePair
  let r ← (r.moveTo r.cursor.step).skipBlanks?
  some (r.push .flowEntry)

/-- Whether the last token is a tag or an anchor at the start of a line. -/
def afterMarginProperty (r : TokenReader) : Bool :=
  match r.tokens with
  | .tag _ _ :: _ => r.propertyColumn == 0
  | .anchor _ :: _ => r.propertyColumn == 0
  | _ => false

/-- Whether a dash that starts an entry follows. -/
def atBlockEntry : List Char → Bool
  | '-' :: cs => atGap cs
  | _ => false

/-- The dash of an entry of a block sequence. -/
def blockEntry? (r : TokenReader) : Option TokenReader := do
  if r.inFlow || !r.keyAllowed then none
  else if r.afterMarginProperty && r.cursor.column == 0 && -1 < r.indent then none
  else
    let r := r.openHere .blockSequenceStart
    let (blanks, c) ← r.cursor.step.blanksAndComment? isBlank
    if blanks.contains '\t' && atBlockEntry c.rest then none
    else
      let r := r.moveTo c
      let r := if c.rest.head? = some '\n' || atFlowMark c.rest then r.shiftMargin else r
      let r ← r.dropKey?
      some ({ r with keyAllowed := true }.push .blockEntry)

/-- `?` before a key of any form. -/
def explicitKey? (r : TokenReader) : Option TokenReader := do
  if !r.inFlow && !r.keyAllowed then none
  else
    let r := if r.inFlow then { r with braced := true } else r.openHere .blockMappingStart
    let r ← r.dropKey?
    let c := r.cursor.step
    if c.rest.head? = some '\t' || c.rest.isEmpty then none
    else
      let c := skipSpaces (c.rest.length + 1) c
      if c.rest.head? = some '\t' then none
      else some ({ r with cursor := c, keyAllowed := !r.inFlow }.push .key)

/-- The place after the colon of a value. Tabs alone do not separate it from a word. -/
def afterColon? (c : Cursor) : Option Cursor :=
  let c := c.step
  if c.rest.head? = some '\t' then do
    let (blanks, c) ← c.blanksAndComment? isBlank
    let word := match c.rest with
      | [] => false
      | x :: _ => isNameChar x
    if !blanks.contains ' ' && word then none else some c
  else some c

/-- The colon before a value. After a pending key it shows that this was one; otherwise it belongs
to a key after `?`, or to an empty one. -/
def value? (r : TokenReader) : Option TokenReader := do
  let single := r.inFlow && !r.braced
  let r := { r with inPair := single }
  let c ← afterColon? r.cursor
  match r.pending with
  | some key =>
    if single && key.line < r.cursor.line then none
    else
      let (margins, opened) :=
        if r.inFlow then (r.margins, false) else Margin.openAt key.column r.margins
      let start := (if opened then [.blockMappingStart] else []) ++
        (if single then [.flowMappingStart] else []) ++ [.key]
      let r := { r with
        cursor := c, margins, tokens := insertAt key start r.tokens, pending := none,
        keyAllowed := false }
      some (r.shiftMargin.push .value)
  | none =>
    if !r.inFlow && !r.keyAllowed then none
    else
      let r := if single then r.push .flowMappingStart else r
      let r := (r.openHere .blockMappingStart).shiftMargin
      some ({ r with cursor := c, keyAllowed := !r.inFlow }.push .value)

/-! ## Scalars and their properties -/

/-- A tag. -/
def tag? (r : TokenReader) : Option TokenReader := do
  let (token, c) ← r.cursor.tag? r.inFlow
  let r := { r with propertyColumn := r.cursor.column }.markKey
  some ({ r with cursor := c, keyAllowed := false }.push token)

/-- An anchor or an alias. -/
def anchor? (make : List Char → Token) (r : TokenReader) : Option TokenReader := do
  let (name, c) ← r.cursor.anchorName?
  let r := { r with propertyColumn := r.cursor.column }.markKey
  some ({ r with cursor := c, keyAllowed := false }.push (make name))

/-- Whether a quoted scalar that started on a line may be followed by this: a mark of the flow
collection around it, the end of the line, or the colon of a value, which outside flow collections
is on the line where the scalar started. -/
def mayFollowQuoted (r : TokenReader) (line : Nat) (c : Cursor) : Bool :=
  match c.rest with
  | [] => true
  | x :: _ =>
    x == '\n' || (r.inFlow && (x == ',' || x == '}' || x == ']')) ||
      (x == ':' && (r.inFlow || line == c.line))

/-- A quoted scalar. -/
def quoted? (style : Quoted.Style) (r : TokenReader) : Option TokenReader := do
  let r := { r.markKey with keyAllowed := false }
  let start := r.cursor.step
  let (text, n) ← Quoted.read? style r.indent .text start.column start.rest
  let (_, c) ← (start.advance n).blanksAndComment? isBlank
  if r.mayFollowQuoted r.cursor.line c then
    let r ← (r.moveTo c).skipToToken?
    some ({ r with adjacent := r.cursor.index }.push (.scalar false text))
  else none

/-- A plain scalar. It must have a text. After it a key may start if it ended on another line. -/
def plain? (r : TokenReader) : Option TokenReader := do
  let r := { r.markKey with keyAllowed := false, margins := Margin.dropLoose r.margins }
  let floor := (r.indent + 1).toNat
  if r.inFlow && r.cursor.column < floor then none
  else
    let (text, n) ←
      Plain.read? r.inFlow floor .start r.cursor.column r.cursor.rest
    if text.isEmpty then none
    else
      let c := r.cursor.advance n
      some ({ r with cursor := c, keyAllowed := c.fresh }.push (.scalar true text))

/-- A block scalar. -/
def block? (folded : Bool) (r : TokenReader) : Option TokenReader := do
  let r := { r.markKey with keyAllowed := true, margins := Margin.dropLoose r.margins }
  let c := r.cursor.step
  let (header, n) ← Block.header? folded c.rest
  let (_, c) ← (c.advance n).blanksAndComment? isBlank
  match c.rest with
  | [] => some ((r.moveTo c).push (.scalar false []))
  | x :: rest =>
    if x ≠ '\n' then none
    else
      let (text, n) ← Block.read? header r.indent rest
      some ((r.moveTo (c.step.advance n)).push (.scalar false text))

/-! ## Documents -/

/-- The end of the stream. -/
def finish? (r : TokenReader) : Option TokenReader :=
  if (r.pending :: r.outer).any (·.any (·.required)) then none
  else
    let r := { r with pending := none, outer := r.outer.map fun _ => none }.closeTo (-1)
    some { r.push .streamEnd with keyAllowed := false, ended := true }

/-- The reader before something that stands between documents. -/
def leaveDocument? (r : TokenReader) : Option TokenReader := do
  let r ← (r.closeTo (-1)).dropKey?
  some { r with keyAllowed := false }

/-- A directive. -/
def directive? (r : TokenReader) : Option TokenReader := do
  let r ← r.leaveDocument?
  let (token, c) ← r.cursor.directive?
  some ((r.moveTo c).push token)

/-- A document marker. Nothing but a comment may follow the one at the end. -/
def marker? (token : Token) (r : TokenReader) : Option TokenReader := do
  let r ← r.leaveDocument?
  let r := (r.moveTo (r.cursor.advance 3)).push token
  if token = .documentEnd then
    let r ← r.skipBlanks?
    if atLineEnd r.cursor.rest then some r else none
  else some r

/-! ## The reader -/

/-- The token that starts with the character `x`, which `after` follows. -/
def lexeme? (r : TokenReader) (x : Char) (after : List Char) : Option TokenReader :=
  if r.cursor.column < r.indent then none
  else if x = '[' then r.openFlow? true
  else if x = '{' then r.openFlow? false
  else if x = ']' then r.closeFlow? true
  else if x = '}' then r.closeFlow? false
  else if x = ',' then r.flowEntry?
  else if x = '-' ∧ atGap after then r.blockEntry?
  else if x = '?' ∧ atGap after then r.explicitKey?
  else if x = ':' ∧ atGap after then r.value?
  else if x = ':' ∧ r.inFlow ∧ (atFlowMark after ∨ r.cursor.index = r.adjacent) then
    if r.cursor.index ≠ r.adjacent ∧ (after.head? = some '[' ∨ after.head? = some '{') then
      none
    else r.value?
  else if x = '*' then r.anchor? .alias
  else if x = '&' then r.anchor? .anchor
  else if x = '!' then r.tag?
  else if x = '|' ∧ ¬ r.inFlow then r.block? false
  else if x = '>' ∧ ¬ r.inFlow then r.block? true
  else if x = '\'' then r.quoted? .single
  else if x = '"' then r.quoted? .double
  else if x = '%' ∨ x = '@' ∨ x = '\x60' then none
  else r.plain?

/-- The reader after its next token. -/
def next? (r : TokenReader) : Option TokenReader := do
  let r ← r.skipToToken?
  let r ← r.dropStale?
  let r := r.closeTo r.cursor.column
  let r ← match r.cursor.rest with
    | [] => r.finish?
    | x :: after =>
      if r.cursor.column = 0 ∧ x = '%' then r.directive?
      else if r.cursor.column = 0 ∧ atDocumentStart (x :: after) then r.marker? .documentStart
      else if r.cursor.column = 0 ∧ atDocumentEnd (x :: after) then r.marker? .documentEnd
      else r.lexeme? x after
  r.dropStale?

/-- The tokens from a place on, with those before it, in order. The index grows with every token and
is at most `length`. -/
def run (length : Nat) (r : TokenReader) : List Token :=
  match r.next? with
  | none => r.decided.reverse
  | some r' =>
    if r'.ended then r'.tokens.reverse
    else if r.cursor.index < r'.cursor.index ∧ r'.cursor.index ≤ length then run length r'
    else r.decided.reverse
termination_by length - r.cursor.index

end TokenReader

/-- The tokens of a stream. -/
def tokens (text : List Char) : List Token :=
  let text := streamText text
  TokenReader.run text.length { cursor := { rest := text } }

end Provision.Yaml
