import Provision.Entries
import Provision.Number

/-!
# Values

A value is what a document or a part of it says: nothing, a truth value, a number, a string, a
sequence of values, or a mapping from keys to values. The keys of a mapping are distinct in every
value that the library makes; `Value.Distinct` says so of a value at every depth. The order of
the entries is kept, but it is no part of what a mapping says.
-/

namespace Provision

/-- A value of a document. -/
inductive Value where
  | null
  | bool (b : Bool)
  | number (n : Number)
  | string (s : String)
  | sequence (items : List Value)
  | mapping (entries : List (String × Value))
deriving Inhabited

/-- The kinds of values. -/
inductive Kind where
  | null
  | bool
  | number
  | string
  | sequence
  | mapping
deriving DecidableEq, Repr

/-- The name of a kind in messages. -/
def Kind.name : Kind → String
  | .null => "null"
  | .bool => "bool"
  | .number => "number"
  | .string => "string"
  | .sequence => "sequence"
  | .mapping => "mapping"

namespace Value

/-- Induction on a value: of a collection a property is shown from that of everything in it. -/
@[elab_as_elim, induction_eliminator]
theorem induction {motive : Value → Prop} (null : motive .null) (bool : ∀ b, motive (.bool b))
    (number : ∀ n, motive (.number n)) (string : ∀ s, motive (.string s))
    (sequence : ∀ items, (∀ v ∈ items, motive v) → motive (.sequence items))
    (mapping : ∀ entries : Entries Value, (∀ e ∈ entries, motive e.2) → motive (.mapping entries)) :
    ∀ v, motive v
  | .null => null
  | .bool b => bool b
  | .number n => number n
  | .string s => string s
  | .sequence items =>
    sequence items fun v _ => induction null bool number string sequence mapping v
  | .mapping entries =>
    mapping entries fun e _ => induction null bool number string sequence mapping e.2
termination_by v => v
decreasing_by
  · have := List.sizeOf_lt_of_mem ‹v ∈ items›
    simp
    omega
  · have := List.sizeOf_lt_of_mem ‹e ∈ entries›
    obtain ⟨key, v⟩ := e
    simp at this ⊢
    omega

/-- The kind of a value. -/
def kind : Value → Kind
  | .null => .null
  | .bool _ => .bool
  | .number _ => .number
  | .string _ => .string
  | .sequence _ => .sequence
  | .mapping _ => .mapping

/-- The empty value of the same kind, which a null in an overriding document leaves behind. -/
def zero : Value → Value
  | .null => .null
  | .bool _ => .bool false
  | .number _ => .number (.integer 0)
  | .string _ => .string ""
  | .sequence _ => .sequence []
  | .mapping _ => .mapping []

/-- Whether the value is null. -/
def isNull : Value → Bool
  | .null => true
  | _ => false

/-- Whether the value is neither a sequence nor a mapping. -/
def isScalar : Value → Bool
  | .sequence _ => false
  | .mapping _ => false
  | _ => true

/-- The text of a string. -/
def string? : Value → Option String
  | .string s => some s
  | _ => none

/-- The truth value of a bool. -/
def bool? : Value → Option Bool
  | .bool b => some b
  | _ => none

/-- The integer of a number that is one. -/
def integer? : Value → Option Int64
  | .number (.integer i) => some i
  | _ => none

/-- The float of a number; an integer is rounded to the nearest one. -/
def float? : Value → Option Binary64
  | .number n => some n.toFloat
  | _ => none

/-- The items of a sequence. -/
def items? : Value → Option (List Value)
  | .sequence items => some items
  | _ => none

/-- The entries of a mapping. -/
def entries? : Value → Option (Entries Value)
  | .mapping entries => some entries
  | _ => none

/-- What a mapping holds under a key. -/
def get? (v : Value) (key : String) : Option Value := v.entries?.bind (·.get? key)

mutual

/-- Equality of values: floats compare as numbers, so a NaN equals nothing, integers never equal
floats, and the order of entries does not matter. -/
def same : Value → Value → Bool
  | .null, .null => true
  | .bool a, .bool b => a == b
  | .number m, .number n => m.same n
  | .string s, .string t => s == t
  | .sequence vs, .sequence ws => sameItems vs ws
  | .mapping es, .mapping fs => es.length == fs.length && sameEntries es fs
  | _, _ => false

/-- Equality of sequences, item by item. -/
def sameItems : List Value → List Value → Bool
  | [], [] => true
  | v :: vs, w :: ws => v.same w && sameItems vs ws
  | _, _ => false

/-- Whether each entry is one of the others. -/
def sameEntries : List (String × Value) → List (String × Value) → Bool
  | [], _ => true
  | (k, v) :: es, fs =>
    (match Entries.get? k fs with
      | some w => v.same w
      | none => false) && sameEntries es fs

end

mutual

/-- The value with the entries of every mapping in it in the order of their keys. -/
def sorted : Value → Value
  | .sequence vs => .sequence (sortedItems vs)
  | .mapping es => .mapping (Entries.sorted (sortedEntries es))
  | v => v

/-- The items, each sorted. -/
def sortedItems : List Value → List Value
  | [] => []
  | v :: vs => v.sorted :: sortedItems vs

/-- The entries in their own order, each with a sorted value. -/
def sortedEntries : List (String × Value) → List (String × Value)
  | [] => []
  | (k, v) :: es => (k, v.sorted) :: sortedEntries es

end

mutual

/-- The keys of every mapping in the value are distinct. -/
def Distinct : Value → Prop
  | .sequence vs => DistinctItems vs
  | .mapping es => (Entries.keys es).Nodup ∧ DistinctEntries es
  | _ => True

/-- `Distinct` of every item. -/
def DistinctItems : List Value → Prop
  | [] => True
  | v :: vs => v.Distinct ∧ DistinctItems vs

/-- `Distinct` of the value of every entry. -/
def DistinctEntries : List (String × Value) → Prop
  | [] => True
  | (_, v) :: es => v.Distinct ∧ DistinctEntries es

end

end Value

end Provision
