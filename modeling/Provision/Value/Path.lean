import Provision.Value

/-!
# Paths of keys

A path leads from a value through mappings, one key after the other, to a part of it. Sequences are
not entered: what is in them has no path of keys.
-/

namespace Provision.Value

/-- What a path of keys leads to. -/
def at? (v : Value) : List String → Option Value
  | [] => some v
  | key :: path => (v.get? key).bind fun w => at? w path

@[simp] theorem at?_nil (v : Value) : v.at? [] = some v := rfl

@[simp] theorem at?_cons (v : Value) (key : String) (path : List String) :
    v.at? (key :: path) = (v.get? key).bind (·.at? path) := rfl

end Provision.Value
