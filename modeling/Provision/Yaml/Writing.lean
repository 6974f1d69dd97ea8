import Provision.Text.Classes
import Provision.Yaml.CoreSchema

/-!
# Writing documents

The canonical text of a value. Entries come in the order of their keys, block style is used wherever
a collection has anything in it, and a string is quoted only where its plain form would not read
back as the same string, or older readers would take it for a truth value.
-/

namespace Provision

namespace Yaml.Writing

/-! ## Strings -/

/-- Words that older YAML readers take for truth values. -/
def oldTruthWords : List String :=
  ["y", "Y", "yes", "Yes", "YES", "n", "N", "no", "No", "NO", "on", "On", "ON", "off", "Off", "OFF"]

/-- Whether the plain text means something else than the string: another value, or a truth value to
older readers. -/
def hasOtherMeaning (cs : List Char) : Bool :=
  match CoreSchema.resolve cs with
  | .string _ => String.ofList cs ∈ oldTruthWords
  | _ => true

/-- Whether a text occurs in another. -/
def occurs (part : List Char) : List Char → Bool
  | [] => part.isEmpty
  | c :: cs => part.isPrefixOf (c :: cs) || occurs part cs

/-- Characters that mean something at the start of a plain scalar. -/
def indicators : List Char := ",[]\x7b\x7d#&*!|>'\"%@\x60".toList

/-- Whether a text starts with an indicator. A dash, a question mark and a colon are indicators only
before a space or alone. -/
def startsWithIndicator : List Char → Bool
  | [] => false
  | c :: cs =>
    if c = '-' ∨ c = '?' ∨ c = ':' then cs.isEmpty || cs.head? == some ' '
    else indicators.contains c

/-- Whether something in the text would end it, or not belong to it, if it were plain. -/
def breaksPlain (cs : List Char) : Bool :=
  startsWithIndicator cs || "---".toList.isPrefixOf cs || "...".toList.isPrefixOf cs ||
    occurs ": ".toList cs || occurs " #".toList cs || cs.getLast? == some ':' ||
    cs.head? == some ' ' || cs.getLast? == some ' '

/-- A hexadecimal digit, with a capital letter above nine. -/
def hexDigit (n : Nat) : Char := (Nat.digitChar n).toUpper

/-- The two hexadecimal digits of a number below 256. -/
def hexText (n : Nat) : List Char := [hexDigit (n / 16), hexDigit (n % 16)]

/-- A character between double quotes. -/
def escapedChar (c : Char) : List Char :=
  if c = '\\' then ['\\', '\\']
  else if c = '"' then ['\\', '"']
  else if c = '\n' then ['\\', 'n']
  else if c = '\t' then ['\\', 't']
  else if c = '\r' then ['\\', 'r']
  else if c = '\x00' then ['\\', '0']
  else if Text.isControl c then '\\' :: 'x' :: hexText c.toNat
  else [c]

/-- A string between double quotes. -/
def doubleQuoted (cs : List Char) : List Char := '"' :: (cs.flatMap escapedChar ++ ['"'])

/-- A string between single quotes, in which a quote is written twice. -/
def singleQuoted (cs : List Char) : List Char :=
  '\'' :: (cs.flatMap (fun c => if c = '\'' then ['\'', '\''] else [c]) ++ ['\''])

/-- The text of a string. -/
def stringText (cs : List Char) : List Char :=
  if cs.isEmpty || cs.any Text.isControl || hasOtherMeaning cs then doubleQuoted cs
  else if breaksPlain cs then singleQuoted cs
  else cs

/-! ## Values -/

/-- The text of a value that fits on the line of its key or dash: of a scalar or an empty
collection. -/
def inlineText? : Value → Option (List Char)
  | .null => some "null".toList
  | .bool true => some "true".toList
  | .bool false => some "false".toList
  | .number n => some n.text
  | .string s => some (stringText s.toList)
  | .sequence [] => some "[]".toList
  | .mapping [] => some "\x7b\x7d".toList
  | _ => none

/-- How far a block is indented under its key. -/
def indentation : Nat := 4

/-- How far a block that starts on the line of a dash is indented: by the dash and a space. -/
def dashIndentation : Nat := 2

/-- So many spaces. -/
def spaces (n : Nat) : List Char := List.replicate n ' '

mutual

/-- The lines of a collection with something in it, from the column of its first entry on. Blocks
under the keys of a mapping start `step` columns to the right of it. -/
def block (column step : Nat) : Value → List Char
  | .sequence items => itemLines column items
  | .mapping entries => entryLines column step entries
  | _ => []

/-- The items of a sequence, each after a dash. -/
def itemLines (column : Nat) : List Value → List Char
  | [] => []
  | v :: vs =>
    let text :=
      match inlineText? v with
      | some text => text ++ ['\n']
      | none => block (column + dashIndentation) dashIndentation v
    '-' :: ' ' :: text ++ (if vs.isEmpty then [] else spaces column ++ itemLines column vs)

/-- The entries of a mapping. -/
def entryLines (column step : Nat) : List (String × Value) → List Char
  | [] => []
  | (key, v) :: es =>
    let text :=
      match inlineText? v with
      | some text => ' ' :: text ++ ['\n']
      | none => '\n' :: spaces (column + step) ++ block (column + step) indentation v
    stringText key.toList ++ ':' :: text ++
      (if es.isEmpty then [] else spaces column ++ entryLines column step es)

end

/-- The text of a value, its entries in the order in which they stand. -/
def document (v : Value) : List Char :=
  match inlineText? v with
  | some text => text ++ ['\n']
  | none => block 0 indentation v

end Yaml.Writing

/-- The canonical text of a value. -/
def Value.toYaml (v : Value) : String := String.ofList (Yaml.Writing.document v.sorted)

end Provision
