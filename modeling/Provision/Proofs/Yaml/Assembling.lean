import Provision.Yaml.Node

/-!
# The walk through a node

The events of a node make its value: the assembly is a stack machine, and a walk through a node
leaves its stack as it was with the value of the node placed on it (`Assembly.walks_node`). Two
walks over lists stand behind this, one for items and one for entries.
-/

namespace Provision.Yaml.Assembly

/-- The state after a node whose value was found, or the error of the node. -/
def take (a : Assembly) (found : Except StructureError (Value × Anchored)) :
    Except StructureError Assembly :=
  match found with
  | .error e => .error e
  | .ok (v, anchored) => { a with anchors := anchored }.place v

/-- A node that sets an anchor is placed with the anchor recorded. -/
theorem complete_eq (a : Assembly) (p : Properties) (v : Value) :
    a.complete p.anchor v = a.take (.ok (v, p.record v a.anchors)) := by
  unfold complete take Properties.record
  cases p.anchor <;> rfl

/-- That the walk through a node is its value. -/
def Walks (node : Node) : Prop :=
  ∀ a : Assembly, node.events.foldlM step a = a.take (node.value a.anchors)

/-- The walk through items goes on with the innermost sequence. -/
theorem foldlM_itemEvents {items : List Node} (walks : ∀ node ∈ items, Walks node) (a : Assembly)
    (anchor : Option Nat) (known : List Value) (outer : List OpenCollection) :
    (Node.itemEvents items).foldlM step { a with opened := .sequence anchor known :: outer } =
      match Node.itemValues a.anchors items with
      | .error e => .error e
      | .ok (vs, anchored) =>
        .ok { a with
          anchors := anchored, opened := .sequence anchor (vs.reverse ++ known) :: outer } := by
  induction items generalizing a known with
  | nil => rfl
  | cons node items ih =>
    rw [Node.itemEvents, List.foldlM_append, walks node List.mem_cons_self, Node.itemValues]
    cases hvalue : node.value a.anchors with
    | error e => rfl
    | ok found =>
      obtain ⟨v, anchored⟩ := found
      have ih := ih (fun n hn => walks n (List.mem_cons_of_mem _ hn)) { a with anchors := anchored }
        (v :: known)
      show (Node.itemEvents items).foldlM step
        { a with anchors := anchored, opened := .sequence anchor (v :: known) :: outer } = _
      rw [ih]
      cases hitems : Node.itemValues anchored items with
      | error e => simp only [hitems]
      | ok found => simp [hitems]

/-- The walk through entries goes on with the innermost mapping. -/
theorem foldlM_entryEvents {entries : List (Node × Node)}
    (walks : ∀ e ∈ entries, Walks e.1 ∧ Walks e.2) (a : Assembly) (anchor : Option Nat)
    (known : Entries Value) (outer : List OpenCollection) :
    (Node.entryEvents entries).foldlM step
        { a with opened := .mapping anchor known none :: outer } =
      match Node.entryValues a.anchors known entries with
      | .error e => .error e
      | .ok (es, anchored) =>
        .ok { a with anchors := anchored, opened := .mapping anchor es none :: outer } := by
  induction entries generalizing a known with
  | nil => rfl
  | cons e entries ih =>
    obtain ⟨key, node⟩ := e
    obtain ⟨hkey, hnode⟩ := walks _ List.mem_cons_self
    rw [Node.entryEvents, List.foldlM_append, hkey, Node.entryValues]
    cases hk : key.value a.anchors with
    | error e => rfl
    | ok found =>
      obtain ⟨k, anchored⟩ := found
      cases htext : keyText k with
      | error e =>
        have hplace : take { a with opened := .mapping anchor known none :: outer }
            (.ok (k, anchored)) = .error e := by
          simp [take, place, htext, Except.map]
        rw [hplace]
        simp only [htext]
        rfl
      | ok text =>
        -- The key waits with the mapping until its value is placed.
        have hplace : take { a with opened := .mapping anchor known none :: outer }
            (.ok (k, anchored)) = .ok { a with
              anchors := anchored, opened := .mapping anchor known (some text) :: outer } := by
          simp [take, place, htext, Except.map]
        rw [hplace]
        show ((node.events ++ Node.entryEvents entries).foldlM step
          { a with anchors := anchored, opened := .mapping anchor known (some text) :: outer }) = _
        rw [List.foldlM_append, hnode]
        cases hv : node.value anchored with
        | error e =>
          simp only [htext, hv]
          rfl
        | ok found =>
          obtain ⟨w, anchored⟩ := found
          have ih := ih (fun e he => walks e (List.mem_cons_of_mem _ he))
            { a with anchors := anchored } (known.put text w)
          simp only [htext, hv]
          exact ih

theorem foldlM_singleton (a : Assembly) (e : Event) : [e].foldlM step a = a.step e := by
  rw [List.foldlM_cons]
  exact bind_pure (a.step e)

/-- The walk through every node, by induction on what is in it. -/
theorem walks_node (node : Node) : Walks node := by
  induction node with
  | aliased id => exact fun a => foldlM_singleton a (.alias id)
  | scalar p plain text =>
    intro a
    rw [Node.events, foldlM_singleton, Node.value]
    exact complete_eq a p _
  | sequence p items walks =>
    intro a
    show ((Node.itemEvents items ++ [Event.sequenceEnd]).foldlM step
      { a with opened := .sequence p.anchor [] :: a.opened }) = _
    rw [List.foldlM_append, foldlM_itemEvents walks, Node.value]
    cases hvalues : Node.itemValues a.anchors items with
    | error e => rfl
    | ok found =>
      obtain ⟨vs, anchored⟩ := found
      show [Event.sequenceEnd].foldlM step _ = _
      rw [foldlM_singleton]
      simp only [step, close, complete_eq, List.append_nil, List.reverse_reverse]
      rfl
  | mapping p entries walks =>
    intro a
    show ((Node.entryEvents entries ++ [Event.mappingEnd]).foldlM step
      { a with opened := .mapping p.anchor [] none :: a.opened }) = _
    rw [List.foldlM_append, foldlM_entryEvents walks, Node.value]
    cases hvalues : Node.entryValues a.anchors [] entries with
    | error e => rfl
    | ok found =>
      obtain ⟨es, anchored⟩ := found
      show [Event.mappingEnd].foldlM step _ = _
      rw [foldlM_singleton]
      simp only [step, close, complete_eq]
      rfl

end Provision.Yaml.Assembly

namespace Provision.Yaml

/-- The events of a node make its value, or fail as it does. -/
theorem assemble_events (node : Node) :
    assemble node.events = (node.value []).map fun found => found.1 := by
  unfold assemble
  rw [Assembly.walks_node node]
  cases node.value [] with
  | error e => rfl
  | ok found => rfl

end Provision.Yaml
