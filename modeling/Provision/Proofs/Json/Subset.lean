import Provision.Proofs.Json.Numbers
import Provision.Proofs.Json.Reading
import Provision.Proofs.Yaml.RoundTrip

/-!
# JSON texts are read

A JSON text is read as the value that it denotes (`Value.ofYaml_jsonText`), whatever white space,
numbers, escapes and repeated names are in it, with three exceptions, in which it is no document at
all: more than 255 collections open at once, a string with the code unit of half a pair in it, and a
number, a truth value or a null that only tabs separate from the colon before it.
-/

namespace Provision.Json

open Yaml

/-! ## The node of a value -/

namespace Node

mutual

/-- The value as a node of a document. -/
def toYaml : Node → Yaml.Node
  | .null => .scalar {} true "null".toList
  | .bool true => .scalar {} true "true".toList
  | .bool false => .scalar {} true "false".toList
  | .number n => .scalar {} true n.text
  | .string pieces => .scalar {} false (decode pieces)
  | .array _ items => .sequence {} (itemNodes items)
  | .object _ members => .mapping {} (memberNodes members)

def itemNodes : List (Spaced Node) → List Yaml.Node
  | [] => []
  | ⟨_, v, _⟩ :: items => v.toYaml :: itemNodes items

def memberNodes : List (Spaced (List Piece) × Spaced Node) → List (Yaml.Node × Yaml.Node)
  | [] => []
  | (name, ⟨_, v, _⟩) :: members =>
    (.scalar {} false (decode name.inner), v.toYaml) :: memberNodes members

end

/-! ## The grammar -/

/-- The tokens of a value start with one that starts a node of a flow collection. -/
theorem exists_cons_tokens (v : Node) : ∃ t ts, v.tokens = t :: ts ∧ t ≠ .flowSequenceEnd ∧
    t ≠ .key ∧ Slot.skips .flowValue t = false ∧ t.endsDocument = false := by
  cases v with
  | bool b => cases b <;> exact ⟨_, _, rfl, nofun, nofun, rfl, rfl⟩
  | null => exact ⟨_, _, rfl, nofun, nofun, rfl, rfl⟩
  | number n => exact ⟨_, _, rfl, nofun, nofun, rfl, rfl⟩
  | string pieces => exact ⟨_, _, rfl, nofun, nofun, rfl, rfl⟩
  | array gap items => exact ⟨_, _, rfl, nofun, nofun, rfl, rfl⟩
  | object gap members => exact ⟨_, _, rfl, nofun, nofun, rfl, rfl⟩

/-- Where an item may come, one does. -/
theorem run?_flowItem (v : Node) (goals : List Goal) (s : Scope) (rest : List Token) :
    run? (.flowItem :: goals) s (v.tokens ++ rest) =
      run? (.node false false :: .flowItems :: goals) s (v.tokens ++ rest) := by
  obtain ⟨t, ts, hts, hend, hkey, -⟩ := v.exists_cons_tokens
  rw [hts, List.cons_append]
  have hstep : Goal.step? .flowItem s (t :: (ts ++ rest)) =
      some ⟨[], [.node false false, .flowItems], s, t :: (ts ++ rest)⟩ := by
    cases t <;> first | rfl | exact absurd rfl hend | exact absurd rfl hkey
  rw [run?_cons, hstep]
  simp

/-- That the tokens of a value follow the grammar wherever a node may stand. -/
def Parses (v : Node) : Prop :=
  ∀ block bare, Meets (.node block bare) v.tokens v.toYaml.events

/-- What follows an item, by induction on the items that follow. -/
theorem meets_moreItems {items : List (Spaced Node)} (h : ∀ item ∈ items, Parses item.inner) :
    Meets .flowItems
      ((if items.isEmpty then [] else .flowEntry :: itemTokens items) ++ [.flowSequenceEnd])
      (Yaml.Node.itemEvents (itemNodes items) ++ [.sequenceEnd]) := by
  induction items with
  | nil =>
    intro goals s rest
    rw [run?_cons]
    rfl
  | cons item items ih =>
    obtain ⟨before, v, after⟩ := item
    obtain ⟨hv, hitems⟩ := List.forall_mem_cons.1 h
    intro goals s rest
    have htokens : (if (Spaced.mk before v after :: items).isEmpty then []
          else .flowEntry :: itemTokens (⟨before, v, after⟩ :: items)) ++
          [.flowSequenceEnd] ++ rest =
        .flowEntry :: (v.tokens ++
          ((if items.isEmpty then [] else .flowEntry :: itemTokens items) ++
            [.flowSequenceEnd] ++ rest)) := by simp [itemTokens]
    rw [htokens, run?_cons]
    show (run? (.flowItem :: goals) s _).map _ = _
    rw [run?_flowItem, hv false false, ih hitems]
    simp [Option.map_map, Function.comp_def, itemNodes, Yaml.Node.itemEvents]

/-- A member, where one may come. -/
theorem run?_member {v : Node} (h : Parses v) (name : List Char) (goals : List Goal) (s : Scope)
    (rest : List Token) :
    run? (.flowKey :: goals) s (.key :: .scalar false name :: .value :: (v.tokens ++ rest)) =
      (run? (.flowKeys :: goals) s rest).map fun p =>
        (.scalar {} false name :: (v.toYaml.events ++ p.1), p.2) := by
  obtain ⟨t, ts, hts, -, -, hskips, -⟩ := v.exists_cons_tokens
  have hname : Meets (.slot .flowKey) [.scalar false name] [.scalar {} false name] :=
    Meets.slot .flowKey (meets_scalar false false _ _) rfl
  have hvalue : Meets (.slot .flowValue) v.tokens v.toYaml.events := by
    have hv : Meets (.node false false) v.tokens v.toYaml.events := h false false
    rw [hts] at hv ⊢
    exact Meets.slot .flowValue hv hskips
  rw [run?_cons]
  show (run? (.slot .flowKey :: .flowValue :: .flowKeys :: goals) s
    ([.scalar false name] ++ (.value :: (v.tokens ++ rest)))).map _ = _
  rw [hname, run?_cons]
  show ((Option.map _ (run? (.slot .flowValue :: .flowKeys :: goals) s _)).map _).map _ = _
  rw [hvalue]
  simp [Option.map_map, Function.comp_def]

/-- What follows a member, by induction on the members that follow. -/
theorem meets_moreMembers {members : List (Spaced (List Piece) × Spaced Node)}
    (h : ∀ m ∈ members, Parses m.2.inner) :
    Meets .flowKeys
      ((if members.isEmpty then [] else .flowEntry :: memberTokens members) ++ [.flowMappingEnd])
      (Yaml.Node.entryEvents (memberNodes members) ++ [.mappingEnd]) := by
  induction members with
  | nil =>
    intro goals s rest
    rw [run?_cons]
    rfl
  | cons m members ih =>
    obtain ⟨name, before, v, after⟩ := m
    obtain ⟨hv, hmembers⟩ := List.forall_mem_cons.1 h
    intro goals s rest
    have htokens : (if ((name, Spaced.mk before v after) :: members).isEmpty then []
          else .flowEntry :: memberTokens ((name, ⟨before, v, after⟩) :: members)) ++
          [.flowMappingEnd] ++ rest =
        .flowEntry :: .key :: .scalar false (decode name.inner) :: .value :: (v.tokens ++
          ((if members.isEmpty then [] else .flowEntry :: memberTokens members) ++
            [.flowMappingEnd] ++ rest)) := by simp [memberTokens]
    rw [htokens, run?_cons]
    show (run? (.flowKey :: goals) s _).map _ = _
    rw [run?_member hv, ih hmembers]
    simp [Option.map_map, Function.comp_def, memberNodes, Yaml.Node.entryEvents, Yaml.Node.events]

theorem parses_array (gap : Gap) {items : List (Spaced Node)}
    (h : ∀ item ∈ items, Parses item.inner) : Parses (array gap items) := by
  intro block bare goals s rest
  have htokens : (array gap items).tokens ++ rest =
      .flowSequenceStart :: (itemTokens items ++ (.flowSequenceEnd :: rest)) := by simp [tokens]
  rw [htokens, run?_cons]
  show (run? (.flowItem :: goals) s _).map _ = _
  cases items with
  | nil =>
    show (run? (.flowItem :: goals) s (.flowSequenceEnd :: rest)).map _ = _
    rw [run?_cons]
    simp [Goal.step?, Option.map_map, Function.comp_def, toYaml, itemNodes, Yaml.Node.events,
      Yaml.Node.itemEvents]
  | cons item items =>
    obtain ⟨before, v, after⟩ := item
    obtain ⟨hv, hitems⟩ := List.forall_mem_cons.1 h
    have hcut : itemTokens (⟨before, v, after⟩ :: items) ++ (.flowSequenceEnd :: rest) =
        v.tokens ++ ((if items.isEmpty then [] else .flowEntry :: itemTokens items) ++
          [.flowSequenceEnd] ++ rest) := by simp [itemTokens]
    rw [hcut, run?_flowItem, hv false false, meets_moreItems hitems]
    simp [Option.map_map, Function.comp_def, toYaml, itemNodes, Yaml.Node.events,
      Yaml.Node.itemEvents]

theorem parses_object (gap : Gap) {members : List (Spaced (List Piece) × Spaced Node)}
    (h : ∀ m ∈ members, Parses m.2.inner) : Parses (object gap members) := by
  intro block bare goals s rest
  have htokens : (object gap members).tokens ++ rest =
      .flowMappingStart :: (memberTokens members ++ (.flowMappingEnd :: rest)) := by simp [tokens]
  rw [htokens, run?_cons]
  show (run? (.flowKey :: goals) s _).map _ = _
  cases members with
  | nil =>
    show (run? (.flowKey :: goals) s (.flowMappingEnd :: rest)).map _ = _
    rw [run?_cons]
    simp [Goal.step?, Option.map_map, Function.comp_def, toYaml, memberNodes, Yaml.Node.events,
      Yaml.Node.entryEvents]
  | cons m members =>
    obtain ⟨name, before, v, after⟩ := m
    obtain ⟨hv, hmembers⟩ := List.forall_mem_cons.1 h
    have hcut : memberTokens ((name, ⟨before, v, after⟩) :: members) ++
        (.flowMappingEnd :: rest) =
        .key :: .scalar false (decode name.inner) :: .value :: (v.tokens ++
          ((if members.isEmpty then [] else .flowEntry :: memberTokens members) ++
            [.flowMappingEnd] ++ rest)) := by simp [memberTokens]
    rw [hcut, run?_member hv, meets_moreMembers hmembers]
    simp [Option.map_map, Function.comp_def, toYaml, memberNodes, Yaml.Node.events,
      Yaml.Node.entryEvents]

/-- The tokens of every value, by induction on what is in it. -/
theorem parses (v : Node) : Parses v := by
  induction v with
  | null => exact fun block bare => meets_scalar block bare _ _
  | bool b => cases b <;> exact fun block bare => meets_scalar block bare _ _
  | number n => exact fun block bare => meets_scalar block bare _ _
  | string pieces => exact fun block bare => meets_scalar block bare _ _
  | array gap items ih => exact parses_array gap ih
  | object gap members ih => exact parses_object gap ih

/-- The events of a stream that has the tokens of a value. -/
theorem events?_tokens (v : Node) : events? (v.tokens ++ [.streamEnd]) = some v.toYaml.events := by
  obtain ⟨t, ts, hts, -, -, -, hdocument⟩ := v.exists_cons_tokens
  have hmeets := v.parses true false
  rw [hts] at hmeets ⊢
  exact events?_of_meets hmeets hdocument rfl

/-! ## What the node says -/

/-- That the node of a value says what the value denotes, whatever is known before it. -/
def Denotes (v : Node) : Prop := ∀ anchored, v.toYaml.value anchored = .ok (v.value, anchored)

theorem itemValues_itemNodes {items : List (Spaced Node)} (h : ∀ item ∈ items, Denotes item.inner)
    (anchored : Anchored) :
    Yaml.Node.itemValues anchored (itemNodes items) = .ok (itemValues items, anchored) := by
  induction items with
  | nil => rfl
  | cons item items ih =>
    obtain ⟨before, v, after⟩ := item
    obtain ⟨hv, hitems⟩ := List.forall_mem_cons.1 h
    have hvalue : v.toYaml.value anchored = .ok (v.value, anchored) := hv anchored
    rw [itemNodes, Yaml.Node.itemValues, hvalue]
    simp only [ih hitems]
    rfl

/-- Each member is put into those before it, so of two with one name the last one counts. -/
theorem entryValues_memberNodes {members : List (Spaced (List Piece) × Spaced Node)}
    (h : ∀ m ∈ members, Denotes m.2.inner) (known : Entries Value) (anchored : Anchored) :
    Yaml.Node.entryValues anchored known (memberNodes members) =
      .ok ((memberValues members).foldl (fun known m => known.put m.1 m.2) known, anchored) := by
  induction members generalizing known with
  | nil => rfl
  | cons m members ih =>
    obtain ⟨name, before, v, after⟩ := m
    obtain ⟨hv, hmembers⟩ := List.forall_mem_cons.1 h
    have hvalue : v.toYaml.value anchored = .ok (v.value, anchored) := hv anchored
    have hname : (Yaml.Node.scalar {} false (decode name.inner)).value anchored =
        .ok (.string (String.ofList (decode name.inner)), anchored) := rfl
    rw [memberNodes, Yaml.Node.entryValues, hname]
    simp only [keyText, hvalue]
    exact ih hmembers _

theorem denotes (v : Node) : Denotes v := by
  induction v with
  | null => exact fun _ => rfl
  | bool b => cases b <;> exact fun _ => rfl
  | number n =>
    intro anchored
    have hvalue : scalarValue {} true n.text = .number n.value := resolve_numberText n
    rw [toYaml, Yaml.Node.value, hvalue]
    rfl
  | string pieces => exact fun _ => rfl
  | array gap items ih =>
    intro anchored
    rw [toYaml, Yaml.Node.value, itemValues_itemNodes ih]
    rfl
  | object gap members ih =>
    intro anchored
    rw [toYaml, Yaml.Node.value, entryValues_memberNodes ih]
    rfl

end Node

theorem Document.head?_text (d : Document) : d.text.head? ≠ some '\uFEFF' := by
  obtain ⟨x, more, htext, -, -, hx⟩ := d.inner.exists_cons_text
  rw [Document.text, htext]
  cases hgap : d.before.chars with
  | nil => simpa using hx
  | cons y gap =>
    have hy : isSpace y = true := d.before.isWhite y (by rw [hgap]; exact List.mem_cons_self)
    rw [List.cons_append, List.head?_cons, Ne, Option.some.injEq]
    rintro rfl
    revert hy
    decide

end Provision.Json

namespace Provision

/-- A JSON text is read as the value that it denotes, unless it opens too many collections or has a
part that is not readable, and then it is no document. -/
theorem Value.ofYaml_jsonText (d : Json.Document) :
    Value.ofYaml (String.ofList d.text) =
      if d.inner.depth ≤ Yaml.TokenReader.flowLimit ∧ d.inner.readable = true then .ok d.value
      else .error .malformed := by
  have hlist : Yaml.dropByteOrderMark (String.ofList d.text).toList = d.text := by
    rw [String.toList_ofList, Yaml.dropByteOrderMark_of_head? d.head?_text]
  obtain ⟨hread, hstuck⟩ := Json.tokens_text d
  split
  · next hfits =>
    refine Value.ofYaml_of_events ?_ (d.inner.denotes [])
    rw [hlist, hread hfits]
    exact d.inner.events?_tokens
  · next hunfit =>
    unfold Value.ofYaml
    rw [hlist, hstuck hunfit]
    rfl

/-- Of two members with one name the last one counts. -/
example : Value.ofYaml "\x7b\"a\" :\t\"\\u00e9\\/\", \"a\"\n: [12]\x7d" =
    .ok (.mapping [("a", .sequence [.number (.integer 12)])]) := by cbv

/-- The two code units of a pair are not read as its character. -/
example : Value.ofYaml "\"\\ud83d\\ude00\"" = .error .malformed := by cbv

/-- Behind a colon and a tab a number is not read, although a string is. -/
example : Value.ofYaml "\x7b\"a\":\t1\x7d" = .error .malformed := by cbv

end Provision
