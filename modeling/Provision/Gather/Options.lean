import Provision.Gather.Chain
import Provision.Text.Quoted

/-!
# Options of a run

Which sources a run reads, and how. Directories, readers and the document that is laid over
everything add up in the order in which they are given; everything else is what was set last.
-/

namespace Provision

/-- A source that the caller hands over: its bytes, and the message with which reading it fails
after them, if it does. -/
structure Reader where
  content : Bytes := []
  failure : Option String := none

/-- The options of a run. -/
structure Options where
  directories : List String := []
  readers : List Reader := []
  overwrites : Option String := none
  bootFile : String := "/proc/cmdline"
  /-- Whether the boot command line is the first source. -/
  mergeBootLine : Bool := false
  /-- Whether the notices that can be silenced are. -/
  quiet : Bool := false
  fetcher : Option Fetcher := none
  linkLimit : Nat := Chain.defaultLimit

namespace Options

/-- The options with one more directory. -/
def addDirectory (path : String) (o : Options) : Options :=
  { o with directories := o.directories ++ [path] }

/-- The options with more directories. -/
def addDirectories (paths : List String) (o : Options) : Options :=
  { o with directories := o.directories ++ paths }

/-- The options with one more reader. -/
def addReader (reader : Reader) (o : Options) : Options :=
  { o with readers := o.readers ++ [reader] }

/-- A change of options, which may fail. -/
abbrev Change := Options → Except GatherError Options

/-- The options after changes in order, up to the first that fails, and its error. -/
def applyAll : List Change → Options → Options × Option GatherError
  | [], o => (o, none)
  | change :: changes, o =>
    match change o with
    | .ok o => applyAll changes o
    | .error e => (o, some e)

/-! ## The text of options -/

/-- The text of a truth value. -/
def boolText (b : Bool) : String := if b then "true" else "false"

/-- The text of a count. -/
def countText (n : Nat) : String := String.ofList (Nat.toDigits 10 n)

/-- A text between brackets, its parts between commas. -/
def listText (parts : List String) : String := "[" ++ String.intercalate ", " parts ++ "]"

/-- The options on one line, for a reader who looks for a mistake. Readers are counted, and of the
fetcher only its presence is told. -/
def describe (o : Options) : String :=
  let overwrites := match o.overwrites with
    | none => "None"
    | some text => "Some(" ++ Text.quoted Text.literalEscapes text ++ ")"
  let path := Text.quoted Text.pathEscapes
  let fields := [("directories", listText (o.directories.map path)),
    ("readers", countText o.readers.length), ("overwrites", overwrites),
    ("boot_cmdline_file", path o.bootFile), ("merge_boot_line", boolText o.mergeBootLine),
    ("no_logs", boolText o.quiet), ("fetcher", boolText o.fetcher.isSome),
    ("max_config_url_depth", countText o.linkLimit)]
  "ScanOptions \x7b " ++
    String.intercalate ", " (fields.map fun (name, text) => name ++ ": " ++ text) ++
    " \x7d"

end Options

end Provision
