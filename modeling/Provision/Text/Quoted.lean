import Provision.Text.Unshown

/-!
# Quoted texts

A text between double quotes on one line, as a description of settings shows it. A character that a
reader could not see, or that would join the one before it, is written by its code point.
-/

namespace Provision.Text

/-- The hexadecimal digits of a number, without leading zeros. -/
def hexDigits (n : Nat) : List Char := Nat.toDigits 16 n

/-- The escape of a control character that has one of its own. -/
def shortEscape? (c : Char) : Option Char :=
  if c = '\x00' then some '0'
  else if c = '\t' then some 't'
  else if c = '\n' then some 'n'
  else if c = '\r' then some 'r'
  else none

/-- The characters that a backslash goes before in a literal. -/
def literalEscapes : List Char := ['\\', '"']

/-- The characters that a backslash goes before in a path. -/
def pathEscapes : List Char := ['\\', '"', '\'']

/-- A character of a quoted text; a backslash goes before those of `escapes`. -/
def quotedChar (escapes : List Char) (c : Char) : List Char :=
  match shortEscape? c with
  | some x => ['\\', x]
  | none =>
    if escapes.contains c then ['\\', c]
    else if isUnshown c then "\\u\x7b".toList ++ hexDigits c.toNat ++ ['\x7d']
    else [c]

/-- A text between double quotes. -/
def quoted (escapes : List Char) (s : String) : String :=
  String.ofList ('"' :: (s.toList.flatMap (quotedChar escapes) ++ ['"']))

end Provision.Text
