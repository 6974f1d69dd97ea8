import Provision.Heading
import Provision.Value.Merge
import Provision.Yaml.Reading
import Provision.Yaml.Writing

/-!
# Configuration documents

A configuration document is a mapping. It is read from a text or from bytes, in which nothing at all
is the empty mapping; others are merged into it; it may name a further document by its link; and its
parts are found by dotted paths.
-/

namespace Provision

/-- A configuration document. -/
structure Document where
  entries : Entries Value := []

/-- Why something cannot be done with a document. -/
inductive DocumentError where
  /-- Two values cannot be merged. -/
  | conflict (conflict : KindConflict)
  /-- What was read is no mapping. -/
  | notAMapping (kind : Kind)
  /-- It cannot be read. -/
  | unreadable (error : ReadError)
  /-- Nothing is at the end of a path. -/
  | pathNotFound (path : String)
deriving DecidableEq, Repr

/-- The wording of a document error. -/
def DocumentError.message : DocumentError → String
  | .conflict c => "cannot merge " ++ c.base.name ++ " with " ++ c.overlay.name
  | .notAMapping kind => "configuration must be a mapping, found " ++ kind.name
  | .unreadable error => error.message
  | .pathNotFound path => "path not found: " ++ path

namespace Document

/-! ## Reading and writing -/

/-- The document that a value is. Null is the empty one. -/
def ofValue : Value → Except DocumentError Document
  | .mapping entries => .ok ⟨entries⟩
  | .null => .ok {}
  | v => .error (.notAMapping v.kind)

/-- The document that was read, if it was. -/
def ofRead (read : Except ReadError Value) : Except DocumentError Document :=
  match read with
  | .error e => .error (.unreadable e)
  | .ok v => ofValue v

/-- The document of a text. -/
def ofText (text : String) : Except DocumentError Document := ofRead (Value.ofYaml text)

/-- The document of bytes. -/
def ofBytes (content : Bytes) : Except DocumentError Document := ofRead (Value.ofBytes content)

/-- The document as a value. -/
def toValue (d : Document) : Value := .mapping d.entries

/-- The canonical text of a document: a heading, an empty line, and the mapping. -/
def toText (d : Document) : String := Heading.cloudConfig.text ++ "\n\n" ++ d.toValue.toYaml

/-! ## Merging -/

/-- The document with another one laid over it. -/
def merge (d overlay : Document) : Except DocumentError Document :=
  match Value.mergeEntries d.entries overlay.entries with
  | .error c => .error (.conflict c)
  | .ok entries => .ok ⟨entries⟩

/-! ## Links -/

/-- The key under which a document names a further one. -/
def linkKey : String := "config_url"

/-- The further document that this one names: a string that is not empty. -/
def link? (d : Document) : Option String := do
  let url ← (← d.entries.get? linkKey).string?
  if url.isEmpty then none else some url

/-! ## Paths -/

/-- The position that a segment of a path gives: decimal digits, with an optional plus. -/
def position? (segment : List Char) : Option Nat :=
  match segment with
  | '+' :: digits => Numeral.digits? 10 digits
  | digits => Numeral.digits? 10 digits

/-- What a segment of a path leads to: the value under a key, or the item at a position. -/
def child? (segment : List Char) : Value → Option Value
  | .mapping entries => Entries.get? (String.ofList segment) entries
  | .sequence items => (position? segment).bind (items[·]?)
  | _ => none

/-- What the segments of a path lead to. -/
def descend? : List (List Char) → Value → Option Value
  | [], v => some v
  | segment :: segments, v => (child? segment v).bind (descend? segments)

/-- The segments of a path between its dots. Those that are empty do not count. -/
def segments (path : String) : List (List Char) :=
  (Text.pieces '.' path.toList).filter (!·.isEmpty)

/-- The part of the document at a dotted path; a path without segments has none. -/
def lookup? (d : Document) (path : String) : Option Value :=
  match segments path with
  | [] => none
  | s :: ss => descend? (s :: ss) d.toValue

/-- The text of the part at a path, or of the whole document if the path is nothing but dots. -/
def query (d : Document) (path : String) : Except DocumentError String :=
  if path.toList.all (· == '.') then .ok d.toValue.toYaml
  else
    match d.lookup? path with
    | some v => .ok v.toYaml
    | none => .error (.pathNotFound path)

end Document

end Provision
