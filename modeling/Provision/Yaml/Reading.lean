import Provision.Text.Bytes
import Provision.Yaml.Assembly
import Provision.Yaml.Grammar
import Provision.Yaml.TokenReader

/-!
# Reading documents

`Value.ofYaml` reads the first document of a text as a value, `Value.ofBytes` the same of bytes. A
text that does not follow the grammar has no events, so its error wins over those in the structure
of values.
-/

namespace Provision

/-- Why a document cannot be read. -/
inductive ReadError where
  /-- It does not follow the grammar. -/
  | malformed
  /-- Its nodes do not make a value. -/
  | structural (error : Yaml.StructureError)
  /-- It is not text. -/
  | invalidUtf8
deriving DecidableEq, Repr

/-- The wording of a read error. -/
def ReadError.message : ReadError → String
  | .malformed => "Parse error"
  | .structural error => "Invalid YAML structure: " ++ error.message
  | .invalidUtf8 => "Document is not valid UTF-8"

/-- The value of the first document of a text. A byte order mark at its start is ignored. -/
def Value.ofYaml (text : String) : Except ReadError Value :=
  match Yaml.events? (Yaml.tokens (Yaml.dropByteOrderMark text.toList)) with
  | none => .error .malformed
  | some events => (Yaml.assemble events).mapError .structural

/-- The value of the first document in bytes. -/
def Value.ofBytes (bytes : Bytes) : Except ReadError Value :=
  match bytes.text? with
  | none => .error .invalidUtf8
  | some text => Value.ofYaml text

end Provision
