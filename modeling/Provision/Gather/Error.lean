import Provision.Document
import Provision.Gather.Notice

/-!
# Errors of a run

Why a run gives no document. Every cause stops the run where it arises, and nothing of what was
merged until then is kept.
-/

namespace Provision

/-- Why a remote document cannot be had. -/
inductive FetchError where
  /-- The server answered with a status that is no success. -/
  | status (url : String) (code : Nat)
  /-- Nothing is served under this name. -/
  | unavailable (url : String)
  /-- No answer comes over HTTP, for a reason that the client names. -/
  | http (why : String)
deriving DecidableEq, Repr

/-- The wording of a fetch error. -/
def FetchError.message : FetchError → String
  | .status url code => url ++ " returned status " ++ String.ofList (Nat.toDigits 10 code)
  | .unavailable url => "no document available at " ++ url
  | .http why => why

/-- Why a run gives no document. -/
inductive GatherError where
  /-- A configured directory cannot be listed. -/
  | directory (path : String) (fault : FileFault)
  /-- A file of a configured directory cannot be read, for a reason that the system names. -/
  | file (path : String) (why : String)
  /-- A reader failed with a message of its own. -/
  | reader (origin : Origin) (message : String)
  /-- The sieve refused a source. -/
  | refused (origin : Origin) (message : String)
  /-- A source that must be a document is none. -/
  | unreadable (origin : Origin) (cause : DocumentError)
  /-- Two documents cannot be merged. -/
  | merge (cause : DocumentError)
  /-- What a link names cannot be had. -/
  | fetch (url : String) (cause : FetchError)
  /-- What a link names is no document. -/
  | remote (url : String) (cause : DocumentError)
  /-- A link leads back to a document that was fetched already. -/
  | cycle (url : String)
  /-- There are more links than may be followed. -/
  | tooDeep (limit : Nat)
deriving DecidableEq, Repr

/-- The wording of an error. -/
def GatherError.message : GatherError → String
  | .directory path fault => "cannot read directory " ++ path ++ ": " ++ fault.name
  | .file path why => "cannot read file " ++ path ++ ": " ++ why
  | .reader origin message => "cannot read " ++ origin.text ++ ": " ++ message
  | .refused origin message => "filtering " ++ origin.text ++ " failed: " ++ message
  | .unreadable origin cause => "cannot decode " ++ origin.text ++ ": " ++ cause.message
  | .merge cause => cause.message
  | .fetch url cause => "cannot fetch " ++ url ++ ": " ++ cause.message
  | .remote url cause => "cannot decode document from " ++ url ++ ": " ++ cause.message
  | .cycle url => "config_url chain loops back to " ++ url
  | .tooDeep limit =>
    "config_url chain exceeds " ++ String.ofList (Nat.toDigits 10 limit) ++ " links"

end Provision
