import Provision.Document

/-!
# Boot command lines

A boot command line is a row of words between white space. A word may be quoted in part or as a
whole, and then holds white space. `key=value` assigns a string, a word alone assigns true, and dots
in a key lead into mappings. `BootLine.document` is the configuration document of a line.
-/

namespace Provision.BootLine

/-! ## Words -/

/-- Whether a character is a quote. -/
def isQuote (c : Char) : Bool := c == '"' || c == '\''

/-- The words of a line, read from a place. `word` is what is read of the word at this place, the
last character first, or none between words; `quote` is the quote that is open. -/
def wordsFrom (word : Option (List Char)) (quote : Option Char) : List Char → List (List Char)
  | [] => word.toList.map List.reverse
  | c :: cs =>
    match quote with
    | some q =>
      if c = q then wordsFrom word none cs else wordsFrom (some (c :: word.getD [])) quote cs
    | none =>
      if isQuote c then wordsFrom (some (word.getD [])) (some c) cs
      else if Text.isSpace c then word.toList.map List.reverse ++ wordsFrom none none cs
      else wordsFrom (some (c :: word.getD [])) none cs

/-- The words of a line, without their quotes. -/
def words (line : String) : List String :=
  (wordsFrom none none line.toList).map String.ofList

/-! ## Assignments -/

/-- A path of keys and the value that a word assigns to it. -/
structure Assignment where
  path : List String
  value : Value

/-- The assignment that a word makes. A word whose key has an empty part makes none. -/
def assignment? (word : String) : Option Assignment :=
  let key := word.toList.takeWhile (· != '=')
  let path := Text.pieces '.' key
  if path.any List.isEmpty then none
  else
    let value :=
      match word.toList.drop key.length with
      | [] => .bool true
      | _ :: text => .string (String.ofList text)
    some ⟨path.map String.ofList, value⟩

/-- The entries with a value at a path. Whatever stands in the way of the path and is no mapping
becomes one. -/
def assign (v : Value) : List String → Entries Value → Entries Value
  | [], entries => entries
  | [key], entries => entries.put key v
  | key :: path, entries =>
    let inner := ((entries.get? key).bind Value.entries?).getD []
    entries.put key (.mapping (assign v path inner))

/-- The entries that the words of a line assign. A later word replaces what an earlier one gave. -/
def entries (line : String) : Entries Value :=
  ((words line).filterMap assignment?).foldl (fun es a => assign a.value a.path es) []

/-- The configuration document that a line amounts to. -/
def document (line : String) : Document := ⟨entries line⟩

end Provision.BootLine
