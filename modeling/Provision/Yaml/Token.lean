/-!
# Tokens

The tokens that a stream is made of. The reader adds those that have no characters of their own: the
start and the end of block collections, which indentation tells, the mark before a key, which only
the colon after it tells, and the braces that a single pair in a flow sequence leaves out.
-/

namespace Provision.Yaml

/-- A token of a stream. -/
inductive Token where
  | streamEnd
  | versionDirective
  | tagDirective (handle : List Char)
  | documentStart
  | documentEnd
  | blockSequenceStart
  | blockMappingStart
  | blockEnd
  | flowSequenceStart
  | flowSequenceEnd
  | flowMappingStart
  | flowMappingEnd
  | blockEntry
  | flowEntry
  | key
  | value
  | alias (name : List Char)
  | anchor (name : List Char)
  | tag (handle suffix : List Char)
  | scalar (plain : Bool) (text : List Char)
deriving DecidableEq, Repr

end Provision.Yaml
