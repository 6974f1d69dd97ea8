import Provision.Yaml.Assembly

/-!
# Nodes

A document as a tree. `Node.events` is the walk through the tree in the order of the text, and
`Node.value` what the tree says, found by recursion on it. An alias stands for the value of the node
that has its anchor, and for null inside that node, whose value is not known there.
-/

namespace Provision.Yaml

/-- A node of a document. -/
inductive Node where
  | alias (anchor : Nat)
  | scalar (properties : Properties) (plain : Bool) (text : List Char)
  | sequence (properties : Properties) (items : List Node)
  | mapping (properties : Properties) (entries : List (Node × Node))

/-- The values of the anchored nodes that are complete, the last one first. -/
abbrev Anchored := List (Nat × Value)

/-- The anchored values after a node with these properties. -/
def Properties.record (p : Properties) (v : Value) (anchored : Anchored) : Anchored :=
  match p.anchor with
  | none => anchored
  | some id => (id, v) :: anchored

namespace Node

/-- Induction on a node: of a collection a property is shown from that of every node in it. -/
@[elab_as_elim, induction_eliminator]
theorem induction {motive : Node → Prop} (aliased : ∀ id, motive (.alias id))
    (scalar : ∀ p plain text, motive (.scalar p plain text))
    (sequence : ∀ p items, (∀ node ∈ items, motive node) → motive (.sequence p items))
    (mapping : ∀ p entries, (∀ e ∈ entries, motive e.1 ∧ motive e.2) →
      motive (.mapping p entries)) :
    ∀ node, motive node
  | .alias id => aliased id
  | .scalar p plain text => scalar p plain text
  | .sequence p items =>
    sequence p items fun node _ => induction aliased scalar sequence mapping node
  | .mapping p entries =>
    mapping p entries fun e _ => ⟨induction aliased scalar sequence mapping e.1,
      induction aliased scalar sequence mapping e.2⟩
termination_by node => node
decreasing_by
  · have := List.sizeOf_lt_of_mem ‹node ∈ items›
    simp
    omega
  all_goals
    have := List.sizeOf_lt_of_mem ‹e ∈ entries›
    obtain ⟨key, node⟩ := e
    simp at this ⊢
    omega

mutual

/-- The walk through a node. -/
def events : Node → List Event
  | .alias id => [.alias id]
  | .scalar p plain text => [.scalar p plain text]
  | .sequence p items => .sequenceStart p :: (itemEvents items ++ [.sequenceEnd])
  | .mapping p entries => .mappingStart p :: (entryEvents entries ++ [.mappingEnd])

/-- The walk through the items of a sequence. -/
def itemEvents : List Node → List Event
  | [] => []
  | item :: items => item.events ++ itemEvents items

/-- The walk through the entries of a mapping, each key before its value. -/
def entryEvents : List (Node × Node) → List Event
  | [] => []
  | (key, v) :: entries => key.events ++ (v.events ++ entryEvents entries)

end

mutual

/-- The value of a node where `anchored` is known, and what is known after it. -/
def value (anchored : Anchored) : Node → Except StructureError (Value × Anchored)
  | .alias id => .ok ((anchored.lookup id).getD .null, anchored)
  | .scalar p plain text =>
    let v := scalarValue p plain text
    .ok (v, p.record v anchored)
  | .sequence p items =>
    match itemValues anchored items with
    | .error e => .error e
    | .ok (vs, anchored) => .ok (.sequence vs, p.record (.sequence vs) anchored)
  | .mapping p entries =>
    match entryValues anchored [] entries with
    | .error e => .error e
    | .ok (es, anchored) => .ok (.mapping es, p.record (.mapping es) anchored)

/-- The values of the items of a sequence. -/
def itemValues (anchored : Anchored) :
    List Node → Except StructureError (List Value × Anchored)
  | [] => .ok ([], anchored)
  | item :: items =>
    match value anchored item with
    | .error e => .error e
    | .ok (v, anchored) =>
      match itemValues anchored items with
      | .error e => .error e
      | .ok (vs, anchored) => .ok (v :: vs, anchored)

/-- The entries of a mapping, put one after the other into those that are there already. -/
def entryValues (anchored : Anchored) (known : Entries Value) :
    List (Node × Node) → Except StructureError (Entries Value × Anchored)
  | [] => .ok (known, anchored)
  | (key, v) :: entries =>
    match value anchored key with
    | .error e => .error e
    | .ok (k, anchored) =>
      match keyText k with
      | .error e => .error e
      | .ok text =>
        match value anchored v with
        | .error e => .error e
        | .ok (w, anchored) => entryValues anchored (known.put text w) entries

end

end Node

end Provision.Yaml
