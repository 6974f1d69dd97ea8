import Provision.Gather.FileSystem
import Provision.Value

/-!
# Origins and notices

Where a source came from, and what a run reports while it goes on. The notices that something was
passed over can be silenced; those that something is merged or fetched cannot.
-/

namespace Provision

/-- Where a source came from. -/
inductive Origin where
  /-- The command line in a boot file. -/
  | bootLine (path : String)
  /-- A regular file of a configured directory. -/
  | file (path : String)
  /-- A reader, counted from zero. -/
  | reader (index : Nat)
  /-- The document that is laid over everything else. -/
  | overwrites
deriving DecidableEq, Repr

namespace Origin

/-- The name of an origin in messages. -/
def text : Origin → String
  | .bootLine path => "boot command line " ++ path
  | .file path => path
  | .reader index => "reader #" ++ String.ofList (Nat.toDigits 10 index)
  | .overwrites => "overwrites"

/-- Whether a source takes part only with a heading. Files that happen to lie in a directory need
one; every other source was given on purpose. -/
def needsHeading : Origin → Bool
  | .file _ => true
  | _ => false

end Origin

/-- How much a notice matters. -/
inductive Severity where
  | debug
  | warning
deriving DecidableEq, Repr

/-- What a run reports. -/
inductive Notice where
  /-- The boot file cannot be read. -/
  | bootLineUnreadable (path : String) (cause : TextFault)
  /-- A file has no heading. -/
  | headingMissing (origin : Origin)
  /-- A source is no mapping. -/
  | notAMapping (origin : Origin) (kind : Kind)
  /-- A source with so many keys is merged. -/
  | merging (origin : Origin) (keys : Nat)
  /-- A link is followed; `depth` counts the links so far. -/
  | fetching (url : String) (depth : Nat)
  /-- What a link led to has no heading. -/
  | remoteHeadingMissing (url : String)
deriving DecidableEq, Repr

/-- What a field of a notice holds. -/
inductive NoticeField where
  | text (s : String)
  | count (n : Nat)
deriving DecidableEq, Repr

namespace Notice

/-- How much the notice matters. -/
def severity : Notice → Severity
  | .bootLineUnreadable _ _ => .warning
  | .headingMissing _ => .debug
  | .notAMapping _ _ => .warning
  | .merging _ _ => .debug
  | .fetching _ _ => .debug
  | .remoteHeadingMissing _ => .warning

/-- The wording of the notice. -/
def message : Notice → String
  | .bootLineUnreadable _ _ => "Cannot read boot command line, skipping"
  | .headingMissing _ => "No valid header, skipping"
  | .notAMapping _ _ => "Document is not a mapping, skipping"
  | .merging _ _ => "Merging source"
  | .fetching _ _ => "Fetching config_url"
  | .remoteHeadingMissing _ => "No valid header in remote config, ignoring it"

/-- What the notice is about, by name. -/
def fields : Notice → List (String × NoticeField)
  | .bootLineUnreadable path cause => [("path", .text path), ("error", .text cause.name)]
  | .headingMissing origin => [("origin", .text origin.text)]
  | .notAMapping origin kind => [("origin", .text origin.text), ("kind", .text kind.name)]
  | .merging origin keys => [("origin", .text origin.text), ("keys", .count keys)]
  | .fetching url depth => [("url", .text url), ("depth", .count depth)]
  | .remoteHeadingMissing url => [("url", .text url)]

/-- Whether the notice can be silenced: it tells that something was passed over. -/
def silenceable : Notice → Bool
  | .merging _ _ => false
  | .fetching _ _ => false
  | _ => true

/-- The notices that a run reports: in a quiet one, only those that cannot be silenced. -/
def reported (quiet : Bool) (notices : List Notice) : List Notice :=
  if quiet then notices.filter (!·.silenceable) else notices

end Notice

end Provision
