import Provision.Document

/-!
# Sieves

A sieve sees the bytes of a source before anything else does, and gives those that are read in their
place, or refuses the source with a message.
-/

namespace Provision

/-- What is read in the place of a source, or why it is refused. -/
abbrev Sieve := Bytes → Except String Bytes

namespace Sieve

/-- The sieve that keeps everything. -/
def keepAll : Sieve := .ok

/-- The bytes that the entries of a document become: its heading, if it had one, and their text. -/
def written (heading : Option Heading) (entries : Entries Value) : Bytes :=
  let mapping := (Value.mapping entries).toYaml
  Bytes.ofText (match heading with
    | some h => h.text ++ "\n\n" ++ mapping
    | none => mapping)

/-- The sieve that keeps the listed keys of a mapping. What is no mapping, or cannot be read, stays
as it is. -/
def allowKeys (keys : List String) : Sieve := fun content =>
  match Value.ofBytes content with
  | .ok (.mapping entries) =>
    .ok (written (Heading.ofBytes? content) (Entries.restrict keys.contains entries))
  | _ => .ok content

/-- The sieve that refuses what holds certain bytes. -/
def refuse (part : Bytes) (message : String) : Sieve := fun content =>
  if Bytes.contains part content then .error message else .ok content

end Sieve

end Provision
