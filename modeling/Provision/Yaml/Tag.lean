import Provision.Numeral.Digits
import Provision.Yaml.Cursor
import Provision.Yaml.Token

/-!
# Tags and directives

A tag has a handle and a suffix: `!e!name` the handle `!e!`, `!!name` the handle `!!`, `!name` the
handle `!`, and `!<uri>` none. A directive opens a document, and the one named `TAG` declares a
handle. Characters of a suffix may be escaped.
-/

namespace Provision.Yaml

/-- The character that `%` and two hexadecimal digits stand for, or two such escapes together, and
the number of characters they take. One byte stands for itself. The lead and the trail byte of a
two-byte character make one code of sixteen bits; longer characters cannot be written. -/
def uriEscape? : List Char → Option (Char × Nat)
  | '%' :: a :: b :: rest => do
    let high ← Numeral.hexValue? a
    let low ← Numeral.hexValue? b
    let lead := high * 16 + low
    if lead < 0x80 then some (Char.ofNat lead, 3)
    else if 0xC0 ≤ lead ∧ lead < 0xE0 then
      match rest with
      | '%' :: c :: d :: _ => do
        let high ← Numeral.hexValue? c
        let low ← Numeral.hexValue? d
        let trail := high * 16 + low
        if 0x80 ≤ trail ∧ trail < 0xC0 ∧ (lead * 256 + trail).isValidChar then
          some (Char.ofNat (lead * 256 + trail), 6)
        else none
      | _ => none
    else none
  | _ => none

/-- A row of characters that satisfy a test, with escapes among them, and the number of characters
it takes; `skip` counts the characters of an escape that is read already. -/
def uriText? (p : Char → Bool) : (skip : Nat) → List Char → Option (List Char × Nat)
  | _, [] => some ([], 0)
  | skip + 1, _ :: cs => (uriText? p skip cs).map fun (text, n) => (text, n + 1)
  | 0, c :: cs =>
    if ¬ p c then some ([], 0)
    else if c = '%' then
      match uriEscape? (c :: cs) with
      | none => none
      | some (x, n) => (uriText? p (n - 1) cs).map fun (text, m) => (x :: text, m + 1)
    else (uriText? p 0 cs).map fun (text, n) => (c :: text, n + 1)

namespace Cursor

/-- A row of URI characters of a class, and the place after it. -/
def uriText? (p : Char → Bool) (c : Cursor) : Option (List Char × Cursor) :=
  (Yaml.uriText? p 0 c.rest).map fun (text, n) => (text, c.advance n)

/-- A handle: `!`, a name that may be empty, and a second `!` if there is one. -/
def handle? (c : Cursor) : Option (List Char × Cursor) := do
  let c ← c.expect? '!'
  let name := c.span isNameChar
  let c := c.skip isNameChar
  if c.rest.head? = some '!' then some ('!' :: name ++ ['!'], c.step) else some ('!' :: name, c)

/-- Whether a handle has a second `!`, so that it must be declared. -/
def isNamed (handle : List Char) : Bool := 2 ≤ handle.length && handle.getLast? == some '!'

/-- A tag between `!<` and `>`. -/
def verbatimTag? (c : Cursor) : Option (Token × Cursor) := do
  let c ← c.expect? '!'
  let c ← c.expect? '<'
  let (suffix, c) ← c.uriText? isUriChar
  let c ← c.expect? '>'
  some (.tag [] suffix, c)

/-- A tag that starts with a handle. After a handle that is a name without a second `!`, that name
starts the suffix; a suffix must not be empty after a second one, and `!` alone is a tag without a
handle. -/
def shorthandTag? (c : Cursor) : Option (Token × Cursor) := do
  let (handle, c) ← c.handle?
  let (text, c) ← c.uriText? isTagChar
  if isNamed handle then if text.isEmpty then none else some (.tag handle text, c)
  else
    let suffix := handle.drop 1 ++ text
    some (if suffix.isEmpty then .tag [] ['!'] else .tag ['!'] suffix, c)

/-- A tag. Outside flow collections a gap follows it, inside a flow mark may. -/
def tag? (flow : Bool) (c : Cursor) : Option (Token × Cursor) := do
  let verbatim := c.rest.drop 1 |>.head?.any (· == '<')
  let (token, c) ← if verbatim then c.verbatimTag? else c.shorthandTag?
  if atGap c.rest || (flow && atFlowMark c.rest) then some (token, c) else none

/-- The number of one to nine digits, as in a version. -/
def versionNumber? (c : Cursor) : Option Cursor :=
  let digits := c.span Char.isDigit
  if digits.isEmpty || 9 < digits.length then none else some (c.skip Char.isDigit)

/-- What follows the name `YAML`: two numbers with a point between them. -/
def versionDirective? (c : Cursor) : Option (Token × Cursor) := do
  let c ← (c.skip isBlank).versionNumber?
  let c ← c.expect? '.'
  let c ← c.versionNumber?
  some (.versionDirective, c)

/-- What follows the name `TAG`: a handle, which is `!` or ends in a second one, and the beginning
of a URI. -/
def tagDirective? (c : Cursor) : Option (Token × Cursor) := do
  let (handle, c) ← (c.skip isBlank).handle?
  if ¬ (handle = ['!'] ∨ isNamed handle) then none
  else
    let c := c.skip isBlank
    match c.rest with
    | [] => none
    | x :: _ =>
      if ¬ (x == '!' || isTagChar x) then none
      else do
        let (_, c) ← c.uriText? isUriChar
        if atGap c.rest then some (.tagDirective handle, c) else none

/-- A directive, up to the end of its line. One with another name says nothing, like the declaration
of a handle without a name. -/
def directive? (c : Cursor) : Option (Token × Cursor) := do
  let c ← c.expect? '%'
  let name := c.span isNameChar
  let c := c.skip isNameChar
  if name.isEmpty || !atGap c.rest then none
  else do
    let (token, c) ←
      if name = "YAML".toList then c.versionDirective?
      else if name = "TAG".toList then c.tagDirective?
      else some (.tagDirective [], c.lineEnd)
    let (_, c) ← c.blanksAndComment? isBlank
    if atLineEnd c.rest then some (token, c.step) else none

/-- The name after `&` or `*`. -/
def anchorName? (c : Cursor) : Option (List Char × Cursor) :=
  let c := c.step
  let name := c.span isAnchorChar
  if name.isEmpty then none else some (name, c.skip isAnchorChar)

end Cursor

end Provision.Yaml
