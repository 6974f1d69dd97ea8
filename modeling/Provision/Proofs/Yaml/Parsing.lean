import Provision.Proofs.Yaml.WrittenForm
import Provision.Yaml.Grammar

/-!
# Parsing the tokens of written values

The tokens of a value follow the grammar, and its events are the walk through the node of the value
(`events?_valueTokens`). A goal is met by the tokens of a node whatever comes after them, so the
goals that wait on the stack do not matter.
-/

namespace Provision.Yaml

open Writing (isPlain valueTokens itemTokens entryTokens keyNode node itemNodes entryNodes)

/-! ## The grammar -/

theorem run?_cons (goal : Goal) (goals : List Goal) (s : Scope) (tokens : List Token) :
    run? (goal :: goals) s tokens =
      (goal.step? s tokens).bind fun m =>
        (run? (m.goals ++ goals) m.scope m.rest).map fun p => (m.events ++ p.1, p.2) := by
  rw [run?]
  split
  · next h => rw [h]; rfl
  · next h => rw [h]; rfl

/-- A goal that is met by the first tokens, with the events that come of it. -/
def Meets (goal : Goal) (tokens : List Token) (events : List Event) : Prop :=
  ∀ (goals : List Goal) (s : Scope) (rest : List Token),
    run? (goal :: goals) s (tokens ++ rest) =
      (run? goals s rest).map fun p => (events ++ p.1, p.2)

theorem meets_scalar (block bare plain : Bool) (text : List Char) :
    Meets (.node block bare) [.scalar plain text] [.scalar {} plain text] := by
  intro goals s rest
  rw [run?_cons]
  rfl

/-- A slot before a token that starts a node takes the node. -/
theorem Meets.slot (place : Slot) {t : Token} {ts : List Token} {events : List Event}
    (h : Meets place.node (t :: ts) events) (starts : place.skips t = false) :
    Meets (.slot place) (t :: ts) events := by
  intro goals s rest
  have hstep : Goal.step? (.slot place) s (t :: ts ++ rest) =
      some ⟨[], [place.node], s, t :: ts ++ rest⟩ := by
    show (if place.skips t then _ else _) = _
    rw [starts]
    rfl
  rw [run?_cons, hstep]
  simpa using h goals s rest

theorem valueTokens_startsNode (v : Value) :
    ∃ t ts, valueTokens v = t :: ts ∧ Slot.skips .blockValue t = false ∧
      Slot.skips .blockItem t = false ∧ t.endsDocument = false := by
  cases v with
  | bool b => cases b <;> exact ⟨_, _, rfl, rfl, rfl, rfl⟩
  | sequence items => cases items <;> exact ⟨_, _, rfl, rfl, rfl, rfl⟩
  | mapping entries => cases entries <;> exact ⟨_, _, rfl, rfl, rfl, rfl⟩
  | _ => exact ⟨_, _, rfl, rfl, rfl, rfl⟩

theorem meets_items {items : List Value}
    (h : ∀ v ∈ items, ∀ bare, Meets (.node true bare) (valueTokens v) (node v).events) :
    Meets .blockItem (itemTokens items ++ [.blockEnd])
      (Node.itemEvents (itemNodes items) ++ [.sequenceEnd]) := by
  induction items with
  | nil =>
    intro goals s rest
    rw [run?_cons]
    rfl
  | cons v items ih =>
    obtain ⟨t, ts, hts, -, hstarts, -⟩ := valueTokens_startsNode v
    have hitem : Meets (.slot .blockItem) (valueTokens v) (node v).events := by
      have hv := h v List.mem_cons_self false
      rw [hts] at hv ⊢
      exact Meets.slot .blockItem hv hstarts
    have hitems := ih fun w hw => h w (List.mem_cons_of_mem _ hw)
    intro goals s rest
    have htokens : itemTokens (v :: items) ++ [.blockEnd] ++ rest =
        .blockEntry :: (valueTokens v ++ (itemTokens items ++ [.blockEnd] ++ rest)) := by
      simp [itemTokens]
    rw [htokens, run?_cons]
    show (run? (.slot .blockItem :: .blockItem :: goals) s _).map _ = _
    rw [hitem, hitems]
    simp [Option.map_map, Function.comp_def, itemNodes, Node.itemEvents]

theorem meets_entries {entries : List (String × Value)}
    (h : ∀ e ∈ entries, ∀ bare, Meets (.node true bare) (valueTokens e.2) (node e.2).events) :
    Meets .blockKey (entryTokens entries ++ [.blockEnd])
      (Node.entryEvents (entryNodes entries) ++ [.mappingEnd]) := by
  induction entries with
  | nil =>
    intro goals s rest
    rw [run?_cons]
    rfl
  | cons e entries ih =>
    obtain ⟨key, v⟩ := e
    obtain ⟨t, ts, hts, hstarts, -⟩ := valueTokens_startsNode v
    have hkey : Meets (.slot .blockKey) [.scalar (isPlain key.toList) key.toList]
        (keyNode key).events :=
      Meets.slot .blockKey (meets_scalar true true _ _) rfl
    have hvalue : Meets (.slot .blockValue) (valueTokens v) (node v).events := by
      have hv : Meets (.node true true) (valueTokens v) (node v).events :=
        h (key, v) List.mem_cons_self true
      rw [hts] at hv ⊢
      exact Meets.slot .blockValue hv hstarts
    have hentries := ih fun e he => h e (List.mem_cons_of_mem _ he)
    intro goals s rest
    have htokens : entryTokens ((key, v) :: entries) ++ [.blockEnd] ++ rest =
        .key :: ([.scalar (isPlain key.toList) key.toList] ++
          (.value :: (valueTokens v ++ (entryTokens entries ++ [.blockEnd] ++ rest)))) := by
      simp [entryTokens]
    rw [htokens, run?_cons]
    show (run? (.slot .blockKey :: .blockValue :: goals) s _).map _ = _
    rw [hkey, run?_cons]
    show ((Option.map _ (run? (.slot .blockValue :: .blockKey :: goals) s _)).map _).map _ = _
    rw [hvalue, hentries]
    simp [Option.map_map, Function.comp_def, entryNodes, Node.entryEvents]

/-- The tokens of a value are those of its node, by induction on what is in it. -/
theorem meets_node (v : Value) (bare : Bool) :
    Meets (.node true bare) (valueTokens v) (node v).events := by
  induction v generalizing bare with
  | sequence items ih =>
    have hitems := meets_items ih
    intro goals s rest
    cases items with
    | nil =>
      show run? (_ :: goals) s (.flowSequenceStart :: .flowSequenceEnd :: rest) = _
      rw [run?_cons]
      show (run? (.flowItem :: goals) s (.flowSequenceEnd :: rest)).map _ = _
      rw [run?_cons]
      simp [Goal.step?, Option.map_map, Function.comp_def, node, Node.events, itemNodes,
        Node.itemEvents]
    | cons v items =>
      show run? (_ :: goals) s
        (.blockSequenceStart :: (itemTokens (v :: items) ++ [.blockEnd] ++ rest)) = _
      rw [run?_cons]
      show (run? (.blockItem :: goals) s _).map _ = _
      rw [hitems]
      simp [Option.map_map, Function.comp_def, node, Node.events]
  | mapping entries ih =>
    have hentries := meets_entries ih
    intro goals s rest
    cases entries with
    | nil =>
      show run? (_ :: goals) s (.flowMappingStart :: .flowMappingEnd :: rest) = _
      rw [run?_cons]
      show (run? (.flowKey :: goals) s (.flowMappingEnd :: rest)).map _ = _
      rw [run?_cons]
      simp [Goal.step?, Option.map_map, Function.comp_def, node, Node.events, entryNodes,
        Node.entryEvents]
    | cons e entries =>
      show run? (_ :: goals) s
        (.blockMappingStart :: (entryTokens (e :: entries) ++ [.blockEnd] ++ rest)) = _
      rw [run?_cons]
      show (run? (.blockKey :: goals) s _).map _ = _
      rw [hentries]
      simp [Option.map_map, Function.comp_def, node, Node.events]
  | null => exact meets_scalar true bare _ _
  | bool b => cases b <;> exact meets_scalar true bare _ _
  | number n => exact meets_scalar true bare _ _
  | string s => exact meets_scalar true bare _ _

/-- The events of a stream that starts with the tokens of a node, if a document may end there. -/
theorem events?_of_meets {t : Token} {ts rest : List Token} {events : List Event}
    (meets : Meets (.node true false) (t :: ts) events) (inside : t.endsDocument = false)
    (ends : documentEnds rest = true) : events? (t :: ts ++ rest) = some events := by
  have hrun : run? [.node true false] {} (t :: (ts ++ rest)) = some (events, rest) := by
    rw [← List.cons_append, meets]
    simp [run?]
  -- The first token is no mark of a document, so the node is in the first document.
  have hend : (t == .documentEnd) = false := beq_eq_false_iff_ne.2 (by rintro rfl; cases inside)
  have hstream : t ≠ .streamEnd := by
    rintro rfl
    cases inside
  rw [List.cons_append]
  unfold events?
  simp only [List.dropWhile_cons, hend, Bool.false_eq_true, if_false, if_neg hstream, inside]
  simp [document?, hrun, ends]

/-- The events of a stream that starts with the tokens of a value, if a document may end there. -/
theorem events?_valueTokens (v : Value) {rest : List Token} (ends : documentEnds rest = true) :
    events? (valueTokens v ++ rest) = some (node v).events := by
  obtain ⟨t, ts, hts, -, -, hdocument⟩ := valueTokens_startsNode v
  have hmeets := meets_node v false
  rw [hts] at hmeets ⊢
  exact events?_of_meets hmeets hdocument ends

end Provision.Yaml
