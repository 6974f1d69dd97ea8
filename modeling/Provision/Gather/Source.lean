import Provision.Gather.BootLine
import Provision.Gather.Options

/-!
# Sources

The sources of a run in the order in which they are merged: the boot command line, the files of the
configured directories, the readers, and the document that is laid over everything. The first file
or reader that cannot be read ends the collection. Readers are used up by reading them: after a
failed reader all are gone, while a directory that cannot be listed leaves all of them, and so does
a file that the system refuses to read.
-/

namespace Provision

/-- Bytes that wait to be read as a document, and where they came from. -/
structure Source where
  origin : Origin
  content : Bytes
deriving DecidableEq, Repr

/-- What collecting the sources came to. -/
structure Collected where
  outcome : Except GatherError (List Source)
  /-- The options afterwards. -/
  options : Options
  notices : List Notice

namespace Source

/-- The source that the boot command line is, and what is reported if it cannot be read. -/
def ofBootLine (system : FileSystem) (o : Options) : List Source × List Notice :=
  if o.mergeBootLine then
    match system.text? o.bootFile with
    | .ok line => ([⟨.bootLine o.bootFile, Bytes.ofText (BootLine.document line).toText⟩], [])
    | .error cause => ([], Notice.reported o.quiet [.bootLineUnreadable o.bootFile cause])
  else ([], [])

/-- The source that a file is. -/
def ofFile (read : Reading) (file : FoundFile) : Except GatherError Source :=
  match read file with
  | .error why => .error (.file file.path why)
  | .ok content => .ok ⟨.file file.path, content⟩

/-- The files of a directory, one after the other. -/
def ofDirectory (system : FileSystem) (path : String) : Except GatherError (List Source) :=
  match system.listing path with
  | .error fault => .error (.directory path fault)
  | .ok found => found.mapM (ofFile system.read)

/-- The files of directories, one directory after the other. -/
def ofDirectories (system : FileSystem) (paths : List String) :
    Except GatherError (List Source) :=
  (paths.mapM (ofDirectory system)).map List.flatten

/-- The content of a reader, under its number. -/
def ofReader (r : Reader) (index : Nat) : Except GatherError Source :=
  match r.failure with
  | some message => .error (.reader (.reader index) message)
  | none => .ok ⟨.reader index, r.content⟩

/-- The contents of readers, which are counted from zero. -/
def ofReaders (readers : List Reader) : Except GatherError (List Source) :=
  readers.zipIdx.mapM fun r => ofReader r.1 r.2

/-- The source that is laid over everything. -/
def ofOverwrites (o : Options) : List Source :=
  o.overwrites.toList.map fun text => ⟨.overwrites, Bytes.ofText text⟩

/-- The sources that a run reads. -/
def collect (system : FileSystem) (o : Options) : Collected :=
  let (boot, notices) := ofBootLine system o
  match ofDirectories system o.directories with
  | .error e => { outcome := .error e, options := o, notices }
  | .ok files =>
    let outcome := (ofReaders o.readers).map fun readers =>
      boot ++ files ++ readers ++ ofOverwrites o
    { outcome, options := { o with readers := [] }, notices }

end Source

end Provision
