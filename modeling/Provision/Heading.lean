import Provision.Text.Bytes
import Provision.Text.Classes
import Provision.Text.Pieces

/-!
# Headings

A file or a remote body takes part in a configuration only if it starts with a heading: a line that
names one of three kinds of configuration documents. Blank lines and comments may stand above it,
and a byte order mark before everything. `Heading.ofBytes?` looks at lines of bytes, so that what
follows the heading need not even be text.
-/

namespace Provision

/-- The kinds of configuration documents. -/
inductive Heading where
  | cloudConfig
  | kairosConfig
  | nodeConfig
deriving DecidableEq, Repr

namespace Heading

/-- The line that is the heading. -/
def text : Heading → String
  | .cloudConfig => "#cloud-config"
  | .kairosConfig => "#kairos-config"
  | .nodeConfig => "#node-config"

/-- All headings. -/
def all : List Heading := [.cloudConfig, .kairosConfig, .nodeConfig]

/-- The heading that a line is, whatever white space is at its end. -/
def ofLine? (line : Bytes) : Option Heading := do
  let text ← line.text?
  all.find? fun h => h.text.toList == Text.trimEnd text.toList

/-- The byte of the character that starts a comment. -/
def hashByte : UInt8 := 35

/-- Whether a line may stand above a heading: it starts with the character of comments, or it is
white space only. -/
def isFiller (line : Bytes) : Bool :=
  line.head? == some hashByte || line.text?.any fun text => text.toList.all Text.isSpace

/-- The heading among lines, with nothing but filler above it. -/
def ofLines? : List Bytes → Option Heading
  | [] => none
  | line :: lines =>
    match ofLine? line with
    | some h => some h
    | none => if isFiller line then ofLines? lines else none

/-- The byte order mark in UTF-8. -/
def byteOrderMark : Bytes := [0xEF, 0xBB, 0xBF]

/-- The bytes without the byte order mark that they may start with. -/
def dropByteOrderMark (content : Bytes) : Bytes :=
  if byteOrderMark.isPrefixOf content then content.drop byteOrderMark.length else content

/-- The byte that ends a line. -/
def lineFeed : UInt8 := 10

/-- The heading of a document. -/
def ofBytes? (content : Bytes) : Option Heading :=
  ofLines? (Text.pieces lineFeed (dropByteOrderMark content))

end Heading

end Provision
