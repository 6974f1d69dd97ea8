import Provision.Yaml.CoreSchema
import Provision.Yaml.Event

/-!
# Assembling values

The value of a document, put together while its events come in. Open collections wait on a stack,
and a node that is complete goes into the innermost one. Only a scalar can be a key, and it is one
by its text; a key that comes again replaces what it held.
-/

namespace Provision.Yaml

/-- Why events do not make a value. -/
inductive StructureError where
  /-- A sequence or a mapping is a key. -/
  | collectionKey (kind : Kind)
  /-- A collection ends that was not open. -/
  | unbalancedEnd
deriving DecidableEq, Repr

/-- The wording of a structure error. -/
def StructureError.message : StructureError → String
  | .collectionKey kind => kind.name ++ " used as a mapping key"
  | .unbalancedEnd => "unbalanced collection end"

/-- The text by which a value is a key, or the kind of one that cannot be. -/
def keyText : Value → Except StructureError String
  | .null => .ok "null"
  | .bool true => .ok "true"
  | .bool false => .ok "false"
  | .number n => .ok (String.ofList n.text)
  | .string s => .ok s
  | v => .error (.collectionKey v.kind)

/-- The value of a scalar. The tag suffix `str` makes a plain one a string. -/
def scalarValue (p : Properties) (plain : Bool) (text : List Char) : Value :=
  if plain ∧ p.tag ≠ some "str".toList then CoreSchema.resolve text
  else .string (String.ofList text)

/-- A collection whose end has not come yet. -/
inductive OpenCollection where
  /-- A sequence with its items so far, the last one first. -/
  | sequence (anchor : Option Nat) (items : List Value)
  /-- A mapping with its entries so far, and a key whose value has not come yet. -/
  | mapping (anchor : Option Nat) (entries : Entries Value) (key : Option String)

/-- The state between two events. -/
structure Assembly where
  /-- The open collections, the innermost first. -/
  opened : List OpenCollection := []
  /-- The values of anchored nodes, the last one first. -/
  anchors : List (Nat × Value) := []
  root : Option Value := none

namespace Assembly

/-- A complete node without an anchor. -/
def place (a : Assembly) (v : Value) : Except StructureError Assembly :=
  match a.opened with
  | [] => .ok { a with root := some v }
  | .sequence anchor items :: outer =>
    .ok { a with opened := .sequence anchor (v :: items) :: outer }
  | .mapping anchor entries none :: outer =>
    (keyText v).map fun key => { a with opened := .mapping anchor entries (some key) :: outer }
  | .mapping anchor entries (some key) :: outer =>
    .ok { a with opened := .mapping anchor (entries.put key v) none :: outer }

/-- A complete node. -/
def complete (a : Assembly) (anchor : Option Nat) (v : Value) : Except StructureError Assembly :=
  match anchor with
  | none => a.place v
  | some id => { a with anchors := (id, v) :: a.anchors }.place v

/-- The end of the innermost collection. -/
def close (a : Assembly) : Except StructureError Assembly :=
  match a.opened with
  | [] => .error .unbalancedEnd
  | .sequence anchor items :: outer =>
    { a with opened := outer }.complete anchor (.sequence items.reverse)
  | .mapping anchor entries _ :: outer =>
    { a with opened := outer }.complete anchor (.mapping entries)

/-- The state after an event. An alias stands for the value of the anchored node, and for null where
that is not complete. -/
def step (a : Assembly) : Event → Except StructureError Assembly
  | .alias id => a.place ((a.anchors.lookup id).getD .null)
  | .scalar p plain text => a.complete p.anchor (scalarValue p plain text)
  | .sequenceStart p => .ok { a with opened := .sequence p.anchor [] :: a.opened }
  | .mappingStart p => .ok { a with opened := .mapping p.anchor [] none :: a.opened }
  | .sequenceEnd => a.close
  | .mappingEnd => a.close

end Assembly

/-- The value that events make: that of the root node, or null without one. The first structure
error decides. -/
def assemble (events : List Event) : Except StructureError Value :=
  (events.foldlM Assembly.step {}).map fun a => a.root.getD .null

end Provision.Yaml
