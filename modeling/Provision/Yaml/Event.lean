/-!
# Events

A document as the list of its nodes in the order of the text: scalars and aliases, and the starts
and ends of collections. Anchors are numbered in the order in which they are set, so that an alias
says which of several anchors of one name it means.
-/

namespace Provision.Yaml

/-- What may stand before a node: an anchor, by its number, and a tag, by its suffix. -/
structure Properties where
  anchor : Option Nat := none
  tag : Option (List Char) := none
deriving DecidableEq, Repr

/-- Whether neither is there. -/
def Properties.isEmpty (p : Properties) : Bool := p.anchor.isNone && p.tag.isNone

/-- A step through a document. -/
inductive Event where
  | alias (anchor : Nat)
  | scalar (properties : Properties) (plain : Bool) (text : List Char)
  | sequenceStart (properties : Properties)
  | sequenceEnd
  | mappingStart (properties : Properties)
  | mappingEnd
deriving DecidableEq, Repr

/-- A node that is not written: a plain scalar without text. -/
def Event.absent : Event := .scalar {} true []

end Provision.Yaml
