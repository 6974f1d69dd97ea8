import Provision.Proofs.Yaml.Assembling

/-!
# Surveys of nodes

A survey of a node goes through the whole tree in the order of the text and stops at nothing. It
finds a value, and the values of all nodes that are keys, in the order in which they are complete. A
node is an error exactly if one of these keys is a collection, and the first of them is the error
(`Node.value_eq_survey`); otherwise the node says what the survey finds.

The survey knows which anchors are set around a place, and takes an alias to one of them for null.
This needs every anchor to be set once (`Node.Own`).
-/

namespace Provision.Yaml

/-- What a survey finds. -/
structure Survey (α : Type) where
  found : α
  /-- The values of the nodes that are keys, in the order in which they are complete. -/
  keys : List Value
  /-- The values of the anchored nodes that are complete, the last one first. -/
  anchored : Anchored

/-- What a survey amounts to: the first key that is a collection is an error. -/
def Survey.outcome {α : Type} (s : Survey α) : Except StructureError (α × Anchored) :=
  match s.keys.find? (!·.isScalar) with
  | some key => .error (.collectionKey key.kind)
  | none => .ok (s.found, s.anchored)

/-- The entries whose keys have a text. -/
def keyTexts (pairs : List (Value × Value)) : List (String × Value) :=
  pairs.filterMap fun (key, v) => (keyText key).toOption.map (·, v)

namespace Node

mutual

/-- The survey of a node with the anchors of `around` set around it, where `anchored` is known. -/
def survey (around : List Nat) (anchored : Anchored) : Node → Survey Value
  | .alias id => ⟨if id ∈ around then .null else (anchored.lookup id).getD .null, [], anchored⟩
  | .scalar p plain text => ⟨scalarValue p plain text, [],
      p.record (scalarValue p plain text) anchored⟩
  | .sequence p items =>
    let s := surveyItems (p.anchor.toList ++ around) anchored items
    ⟨.sequence s.found, s.keys, p.record (.sequence s.found) s.anchored⟩
  | .mapping p entries =>
    let s := surveyEntries (p.anchor.toList ++ around) anchored entries
    let v := Value.mapping (Entries.ofList (keyTexts s.found))
    ⟨v, s.keys, p.record v s.anchored⟩

/-- The survey of the items of a sequence. -/
def surveyItems (around : List Nat) (anchored : Anchored) : List Node → Survey (List Value)
  | [] => ⟨[], [], anchored⟩
  | item :: items =>
    let first := survey around anchored item
    let rest := surveyItems around first.anchored items
    ⟨first.found :: rest.found, first.keys ++ rest.keys, rest.anchored⟩

/-- The survey of the entries of a mapping. A key is complete after the keys in it, and before those
in its value. -/
def surveyEntries (around : List Nat) (anchored : Anchored) :
    List (Node × Node) → Survey (List (Value × Value))
  | [] => ⟨[], [], anchored⟩
  | (key, v) :: entries =>
    let k := survey around anchored key
    let w := survey around k.anchored v
    let rest := surveyEntries around w.anchored entries
    ⟨(k.found, w.found) :: rest.found, k.keys ++ k.found :: (w.keys ++ rest.keys), rest.anchored⟩

end

mutual

/-- The anchors that are set in a node. -/
def anchors : Node → List Nat
  | .alias _ => []
  | .scalar p _ _ => p.anchor.toList
  | .sequence p items => p.anchor.toList ++ itemAnchors items
  | .mapping p entries => p.anchor.toList ++ entryAnchors entries

/-- The anchors that are set in the items of a sequence. -/
def itemAnchors : List Node → List Nat
  | [] => []
  | item :: items => item.anchors ++ itemAnchors items

/-- The anchors that are set in the entries of a mapping. -/
def entryAnchors : List (Node × Node) → List Nat
  | [] => []
  | (key, v) :: entries => key.anchors ++ (v.anchors ++ entryAnchors entries)

end

/-! ## Anchors -/

/-- The anchors that have a value. -/
def anchoredIds (anchored : Anchored) : List Nat := anchored.map Prod.fst

/-- Anchors that are each set once, and neither around the place nor before it. -/
structure Own (ids around : List Nat) (anchored : Anchored) : Prop where
  nodup : ids.Nodup
  inside : ∀ id ∈ ids, id ∉ around
  new : ∀ id ∈ ids, id ∉ anchoredIds anchored
  /-- What is around the place is not complete. -/
  unfinished : ∀ id ∈ around, id ∉ anchoredIds anchored

variable {ids more around : List Nat} {anchored after : Anchored}

theorem Own.left (own : Own (ids ++ more) around anchored) : Own ids around anchored where
  nodup := (List.nodup_append.1 own.nodup).1
  inside id h := own.inside id (List.mem_append_left _ h)
  new id h := own.new id (List.mem_append_left _ h)
  unfinished := own.unfinished

/-- Where one node is complete, the anchors of the next ones are still new. -/
theorem Own.right (own : Own (ids ++ more) around anchored)
    (known : ∀ id ∈ anchoredIds after, id ∈ ids ∨ id ∈ anchoredIds anchored) :
    Own more around after where
  nodup := (List.nodup_append.1 own.nodup).2.1
  inside id h := own.inside id (List.mem_append_right _ h)
  new id h hafter := by
    rcases known id hafter with hids | hanchored
    · exact (List.nodup_append.1 own.nodup).2.2 id hids id h rfl
    · exact own.new id (List.mem_append_right _ h) hanchored
  unfinished id h hafter := by
    rcases known id hafter with hids | hanchored
    · exact own.inside id (List.mem_append_left _ hids) h
    · exact own.unfinished id h hanchored

/-- The anchor of a collection is around what is in it. -/
theorem Own.within (own : Own (ids ++ more) around anchored) :
    Own more (ids ++ around) anchored where
  nodup := (List.nodup_append.1 own.nodup).2.1
  inside id h haround := by
    rcases List.mem_append.1 haround with hids | haround
    · exact (List.nodup_append.1 own.nodup).2.2 id hids id h rfl
    · exact own.inside id (List.mem_append_right _ h) haround
  new id h := own.new id (List.mem_append_right _ h)
  unfinished id h := by
    rcases List.mem_append.1 h with hids | haround
    · exact own.new id (List.mem_append_left _ hids)
    · exact own.unfinished id haround

theorem mem_anchoredIds_record {p : Properties} {v : Value} {id : Nat}
    (h : id ∈ anchoredIds (p.record v anchored)) :
    id ∈ p.anchor.toList ∨ id ∈ anchoredIds anchored := by
  unfold Properties.record at h
  cases hp : p.anchor with
  | none =>
    rw [hp] at h
    exact .inr h
  | some own =>
    rw [hp] at h
    rcases List.mem_cons.1 h with rfl | h
    · exact .inl (List.mem_singleton.2 rfl)
    · exact .inr h

theorem lookup_eq_none {id : Nat} (h : id ∉ anchoredIds anchored) : anchored.lookup id = none := by
  refine List.lookup_eq_none_iff.2 fun p hp => ?_
  simpa using fun e : id = p.1 => h (e ▸ List.mem_map_of_mem hp)

/-- The anchors that are complete after a node are those of the node and those from before. -/
def Adds (node : Node) : Prop :=
  ∀ around anchored, ∀ id ∈ anchoredIds (node.survey around anchored).anchored,
    id ∈ node.anchors ∨ id ∈ anchoredIds anchored

theorem mem_anchoredIds_items {items : List Node} (adds : ∀ node ∈ items, Adds node)
    (around : List Nat) (anchored : Anchored) {id : Nat}
    (h : id ∈ anchoredIds (surveyItems around anchored items).anchored) :
    id ∈ itemAnchors items ∨ id ∈ anchoredIds anchored := by
  induction items generalizing anchored with
  | nil => exact .inr h
  | cons node items ih =>
    rw [itemAnchors, List.mem_append]
    rcases ih (fun n hn => adds n (List.mem_cons_of_mem _ hn)) _ h with hitems | hfirst
    · exact .inl (.inr hitems)
    · rcases adds node List.mem_cons_self _ _ id hfirst with hnode | hanchored
      · exact .inl (.inl hnode)
      · exact .inr hanchored

theorem mem_anchoredIds_entries {entries : List (Node × Node)}
    (adds : ∀ e ∈ entries, Adds e.1 ∧ Adds e.2) (around : List Nat) (anchored : Anchored)
    {id : Nat} (h : id ∈ anchoredIds (surveyEntries around anchored entries).anchored) :
    id ∈ entryAnchors entries ∨ id ∈ anchoredIds anchored := by
  induction entries generalizing anchored with
  | nil => exact .inr h
  | cons e entries ih =>
    obtain ⟨key, v⟩ := e
    obtain ⟨hkey, hv⟩ := adds _ List.mem_cons_self
    rw [entryAnchors, List.mem_append, List.mem_append]
    rcases ih (fun e he => adds e (List.mem_cons_of_mem _ he)) _ h with hentries | hafter
    · exact .inl (.inr (.inr hentries))
    · rcases hv _ _ id hafter with hvalue | hafter
      · exact .inl (.inr (.inl hvalue))
      · rcases hkey _ _ id hafter with hkeys | hanchored
        · exact .inl (.inl hkeys)
        · exact .inr hanchored

theorem adds_node (node : Node) : Adds node := by
  induction node with
  | aliased target => exact fun _ _ _ h => .inr h
  | scalar p plain text => exact fun _ _ _ h => mem_anchoredIds_record h
  | sequence p items ih =>
    intro around anchored id h
    rw [anchors, List.mem_append]
    rcases mem_anchoredIds_record h with hp | h
    · exact .inl (.inl hp)
    · rcases mem_anchoredIds_items ih _ _ h with hitems | hanchored
      · exact .inl (.inr hitems)
      · exact .inr hanchored
  | mapping p entries ih =>
    intro around anchored id h
    rw [anchors, List.mem_append]
    rcases mem_anchoredIds_record h with hp | h
    · exact .inl (.inl hp)
    · rcases mem_anchoredIds_entries ih _ _ h with hentries | hanchored
      · exact .inl (.inr hentries)
      · exact .inr hanchored

end Node

/-! ## Values -/

/-- A scalar is a key by its text, and nothing else is a key. -/
theorem keyText_cases (v : Value) :
    (v.isScalar = true ∧ ∃ text, keyText v = .ok text) ∨
      (v.isScalar = false ∧ keyText v = .error (.collectionKey v.kind)) := by
  cases v with
  | null => exact .inl ⟨rfl, _, rfl⟩
  | bool b => cases b <;> exact .inl ⟨rfl, _, rfl⟩
  | number n => exact .inl ⟨rfl, _, rfl⟩
  | string t => exact .inl ⟨rfl, _, rfl⟩
  | sequence items => exact .inr ⟨rfl, rfl⟩
  | mapping entries => exact .inr ⟨rfl, rfl⟩

namespace Node

variable {around : List Nat} {anchored : Anchored}

/-- That the value of a node is what its survey amounts to. -/
def IsSurveyed (node : Node) : Prop :=
  ∀ {around anchored}, Own node.anchors around anchored →
    node.value anchored = (node.survey around anchored).outcome

theorem itemValues_eq_survey {items : List Node} (each : ∀ node ∈ items, IsSurveyed node)
    (own : Own (itemAnchors items) around anchored) :
    itemValues anchored items = (surveyItems around anchored items).outcome := by
  induction items generalizing anchored with
  | nil => rfl
  | cons node items ih =>
    rw [itemAnchors] at own
    have hfirst := each node List.mem_cons_self own.left
    have hrest := ih (fun n hn => each n (List.mem_cons_of_mem _ hn))
      (own.right (adds_node node around anchored))
    rw [itemValues, hfirst]
    simp only [surveyItems, Survey.outcome, List.find?_append] at hrest ⊢
    -- The keys of the item come before those of the other items.
    cases (node.survey around anchored).keys.find? (!·.isScalar) with
    | some key => rfl
    | none =>
      simp only [hrest, Option.none_or]
      cases (surveyItems around (node.survey around anchored).anchored items).keys.find?
        (!·.isScalar) <;> rfl

/-- The entries of a survey are put in one after the other, those with a text for a key. -/
theorem entryValues_eq_survey {entries : List (Node × Node)}
    (each : ∀ e ∈ entries, IsSurveyed e.1 ∧ IsSurveyed e.2)
    (own : Own (entryAnchors entries) around anchored) (known : Entries Value) :
    entryValues anchored known entries =
      (surveyEntries around anchored entries).outcome.map fun p =>
        ((keyTexts p.1).foldl (fun acc e => acc.put e.1 e.2) known, p.2) := by
  induction entries generalizing anchored known with
  | nil => rfl
  | cons e entries ih =>
    obtain ⟨key, v⟩ := e
    obtain ⟨hkey, hv⟩ := each _ List.mem_cons_self
    rw [entryAnchors] at own
    have hkey := hkey own.left
    have own' := own.right (adds_node key around anchored)
    have hv := hv own'.left
    have hrest := ih (fun e he => each e (List.mem_cons_of_mem _ he))
      (own'.right (adds_node v around _))
    rw [entryValues, hkey]
    simp only [surveyEntries, Survey.outcome, List.find?_append, List.find?_cons] at hv hrest ⊢
    cases (key.survey around anchored).keys.find? (!·.isScalar) with
    | some k => rfl
    | none =>
      -- The keys in the key are scalars; next is the key itself.
      rcases keyText_cases (key.survey around anchored).found with ⟨hscalar, text, htext⟩ |
        ⟨hscalar, htext⟩
      · simp only [htext, hv, hscalar, Option.none_or, Bool.not_true]
        cases (v.survey around (key.survey around anchored).anchored).keys.find? (!·.isScalar) with
        | some k => rfl
        | none =>
          simp only [hrest, Option.none_or]
          generalize (v.survey around (key.survey around anchored).anchored).anchored = known'
          cases (surveyEntries around known' entries).keys.find? (!·.isScalar) with
          | some k => rfl
          | none => simp [Except.map, keyTexts, htext, Except.toOption]
      · simp only [htext, hscalar, Option.none_or, Bool.not_false]
        rfl

/-- The value of a node is what its survey amounts to, if every anchor is set once. -/
theorem value_eq_survey (node : Node) : IsSurveyed node := by
  induction node with
  | aliased id =>
    intro around anchored own
    simp only [value, survey, Survey.outcome, List.find?_nil]
    split
    · next haround => rw [lookup_eq_none (own.unfinished id haround), Option.getD_none]
    · rfl
  | scalar p plain text => exact fun _ => rfl
  | sequence p items ih =>
    intro around anchored own
    rw [anchors] at own
    rw [value, itemValues_eq_survey ih own.within]
    simp only [survey, Survey.outcome]
    cases (surveyItems (p.anchor.toList ++ around) anchored items).keys.find? (!·.isScalar) <;> rfl
  | mapping p entries ih =>
    intro around anchored own
    rw [anchors] at own
    rw [value, entryValues_eq_survey ih own.within]
    simp only [survey, Survey.outcome]
    cases (surveyEntries (p.anchor.toList ++ around) anchored entries).keys.find?
      (!·.isScalar) <;> rfl

/-- What the events of a node amount to: the first key that is a collection is the error, and
without one the value is the one that the survey of the node finds. The events of a node never end a
collection that is not open. -/
theorem assemble_eq_survey (node : Node) (own : node.anchors.Nodup) :
    (assemble node.events =
      match (node.survey [] []).keys.find? (!·.isScalar) with
      | some key => .error (.collectionKey key.kind)
      | none => .ok (node.survey [] []).found) ∧
    assemble node.events ≠ .error .unbalancedEnd := by
  have hvalue : node.value [] = (node.survey [] []).outcome :=
    value_eq_survey node ⟨own, fun _ _ => List.not_mem_nil, fun _ _ => List.not_mem_nil, nofun⟩
  rw [assemble_events, hvalue, Survey.outcome]
  cases (node.survey [] []).keys.find? (!·.isScalar) with
  | some key => exact ⟨rfl, nofun⟩
  | none => exact ⟨rfl, nofun⟩

/-- An alias inside its own node is null, a key that comes again replaces what it held, and of two
keys that are collections the inner one is the error. -/
theorem assemble_eq_survey_alias_and_nested_key :
    assemble (mapping ⟨some 1, none⟩ [(.scalar {} false ['a'], .alias 1),
        (.scalar {} false ['b'], .sequence ⟨some 2, none⟩ [.scalar {} false ['x']]),
        (.scalar {} false ['a'], .alias 2)]).events =
      .ok (.mapping [("a", .sequence [.string "x"]), ("b", .sequence [.string "x"])]) ∧
    assemble (mapping {} [(.mapping {} [(.sequence {} [], .scalar {} false ['x'])],
        .scalar {} false ['y'])]).events =
      .error (.collectionKey .sequence) :=
  ⟨(assemble_eq_survey _ (by decide)).1.trans rfl, (assemble_eq_survey _ (by decide)).1.trans rfl⟩

end Node

end Provision.Yaml
