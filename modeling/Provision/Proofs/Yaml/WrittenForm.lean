import Provision.Proofs.Values.Distinct
import Provision.Proofs.Yaml.NumberTexts
import Provision.Proofs.Yaml.Scalars
import Provision.Yaml.Node

/-!
# What is written for a value

The tokens of a value (`valueTokens`) and its node (`node`): what the reader and the parser are to
find in its text, which is made of the texts of items and entries (`itemText`, `entryText`). Every
scalar is read from its text, and the node of a value says the value (`value_node`).
-/

namespace Provision.Yaml.Writing

/-- Whether a string is written without quotes. -/
def isPlain (cs : List Char) : Bool :=
  !(cs.isEmpty || cs.any Text.isControl || hasOtherMeaning cs) && !breaksPlain cs

/-- The scalar that stands for a value: whether it is plain, and its text. -/
def scalar? : Value → Option (Bool × List Char)
  | .null => some (true, "null".toList)
  | .bool true => some (true, "true".toList)
  | .bool false => some (true, "false".toList)
  | .number n => some (true, n.text)
  | .string s => some (isPlain s.toList, s.toList)
  | _ => none

mutual

/-- The tokens of a value. -/
def valueTokens : Value → List Token
  | .sequence items =>
    if items.isEmpty then [.flowSequenceStart, .flowSequenceEnd]
    else .blockSequenceStart :: (itemTokens items ++ [.blockEnd])
  | .mapping entries =>
    if entries.isEmpty then [.flowMappingStart, .flowMappingEnd]
    else .blockMappingStart :: (entryTokens entries ++ [.blockEnd])
  | v => (scalar? v).toList.map fun (plain, text) => .scalar plain text

/-- The tokens of the items of a sequence. -/
def itemTokens : List Value → List Token
  | [] => []
  | v :: vs => .blockEntry :: (valueTokens v ++ itemTokens vs)

/-- The tokens of the entries of a mapping. -/
def entryTokens : List (String × Value) → List Token
  | [] => []
  | (key, v) :: es =>
    .key :: .scalar (isPlain key.toList) key.toList :: .value :: (valueTokens v ++ entryTokens es)

end

/-- The node of a key. -/
def keyNode (key : String) : Node := .scalar {} (isPlain key.toList) key.toList

mutual

/-- The node of a value. -/
def node : Value → Node
  | .sequence items => .sequence {} (itemNodes items)
  | .mapping entries => .mapping {} (entryNodes entries)
  | v =>
    match scalar? v with
    | some (plain, text) => .scalar {} plain text
    | none => .scalar {} true []

/-- The nodes of the items of a sequence. -/
def itemNodes : List Value → List Node
  | [] => []
  | v :: vs => node v :: itemNodes vs

/-- The nodes of the entries of a mapping. -/
def entryNodes : List (String × Value) → List (Node × Node)
  | [] => []
  | (key, v) :: es => (keyNode key, node v) :: entryNodes es

end

/-! ## Lines -/

/-- The text of an item behind its indentation. -/
def itemText (column : Nat) (v : Value) : List Char :=
  '-' :: ' ' ::
    (match inlineText? v with
      | some text => text ++ ['\n']
      | none => block (column + dashIndentation) dashIndentation v)

/-- The text of an entry behind its indentation. -/
def entryText (column step : Nat) (e : String × Value) : List Char :=
  stringText e.1.toList ++ ':' ::
    (match inlineText? e.2 with
      | some text => ' ' :: text ++ ['\n']
      | none => '\n' :: spaces (column + step) ++ block (column + step) indentation e.2)

theorem itemLines_cons (column : Nat) (v : Value) (vs : List Value) :
    itemLines column (v :: vs) =
      itemText column v ++ (if vs.isEmpty then [] else spaces column ++ itemLines column vs) := rfl

theorem entryLines_cons (column step : Nat) (e : String × Value) (es : List (String × Value)) :
    entryLines column step (e :: es) =
      entryText column step e ++
        (if es.isEmpty then [] else spaces column ++ entryLines column step es) := rfl

/-! ## Scalars -/

/-- A string is read from its text. -/
theorem scalarText_stringText (cs : List Char) : ScalarText (stringText cs) (isPlain cs) cs := by
  unfold stringText isPlain
  cases hquoted : cs.isEmpty || cs.any Text.isControl || hasOtherMeaning cs with
  | true => exact .double cs
  | false =>
    have hnonempty : cs ≠ [] := by
      rintro rfl
      simp at hquoted
    have hvisible : ∀ x ∈ cs, Text.isControl x = false := by
      intro x hx
      simp only [Bool.or_eq_false_iff, List.any_eq_false] at hquoted
      simpa using hquoted.1.2 x hx
    cases hbreaks : breaksPlain cs with
    | true => exact .single hvisible
    | false => exact .plain ⟨hnonempty, hvisible, hbreaks⟩

/-- A scalar is read from its text. -/
theorem scalarText_of_scalar? {v : Value} {plain : Bool} {content : List Char}
    (h : scalar? v = some (plain, content)) :
    ∃ text, inlineText? v = some text ∧ ScalarText text plain content := by
  cases v with
  | null =>
    cases h
    exact ⟨_, rfl, .plain (by decide)⟩
  | bool b =>
    cases b <;> cases h
    · exact ⟨_, rfl, .plain (by decide)⟩
    · exact ⟨_, rfl, .plain (by decide)⟩
  | number n =>
    cases h
    exact ⟨_, rfl, .plain (plainText_number n)⟩
  | string s =>
    cases h
    exact ⟨_, rfl, scalarText_stringText s.toList⟩
  | sequence items => cases h
  | mapping entries => cases h

/-- The words of the core schema are no strings. -/
theorem word?_ne_string (text s : String) : CoreSchema.word? text ≠ some (.string s) := by
  unfold CoreSchema.word?
  repeat' split
  all_goals simp

/-- A string without another meaning is what its plain text says. -/
theorem resolve_of_hasOtherMeaning {cs : List Char} (h : hasOtherMeaning cs = false) :
    CoreSchema.resolve cs = .string (String.ofList cs) := by
  unfold hasOtherMeaning at h
  split at h
  · next s hs =>
    unfold CoreSchema.resolve at hs ⊢
    cases hword : CoreSchema.word? (String.ofList cs) with
    | some v =>
      rw [hword] at hs
      exact absurd (hword.trans (congrArg some hs)) (word?_ne_string _ s)
    | none =>
      rw [hword] at hs
      cases hnumber : CoreSchema.number? cs with
      | some n => simp [hnumber] at hs
      | none => rfl
  · cases h

/-- A scalar says what it was made of. -/
theorem scalarValue_of_scalar? {v : Value} {plain : Bool} {text : List Char}
    (h : scalar? v = some (plain, text)) : scalarValue {} plain text = v := by
  have hplain (text : List Char) : scalarValue {} true text = CoreSchema.resolve text :=
    if_pos (by simp)
  cases v with
  | null =>
    cases h
    rfl
  | bool b => cases b <;> cases h <;> rfl
  | number n =>
    cases h
    rw [hplain, resolve_text]
  | string s =>
    cases h
    cases hquotes : isPlain s.toList with
    | false => simp [scalarValue, String.ofList_toList]
    | true =>
      have hmeaning : hasOtherMeaning s.toList = false := by
        simp only [isPlain, Bool.and_eq_true, Bool.not_eq_true', Bool.or_eq_false_iff] at hquotes
        exact hquotes.1.2
      rw [hplain, resolve_of_hasOtherMeaning hmeaning, String.ofList_toList]
  | sequence items => cases h
  | mapping entries => cases h

/-! ## Nodes -/

theorem put_of_notMem {key : String} {v : Value} {known : Entries Value} (h : key ∉ known.keys) :
    known.put key v = known ++ [(key, v)] := by
  induction known with
  | nil => rfl
  | cons e known ih =>
    obtain ⟨k, w⟩ := e
    have hk : k ≠ key := fun e => h (e ▸ List.mem_cons_self)
    rw [Entries.put, if_neg hk, ih fun hm => h (List.mem_cons_of_mem _ hm), List.cons_append]

theorem itemValues_itemNodes {items : List Value}
    (h : ∀ v ∈ items, ∀ anchored, (node v).value anchored = .ok (v, anchored))
    (anchored : Anchored) :
    Node.itemValues anchored (itemNodes items) = .ok (items, anchored) := by
  induction items with
  | nil => rfl
  | cons v items ih =>
    rw [itemNodes, Node.itemValues, h v List.mem_cons_self]
    simp only [ih fun w hw => h w (List.mem_cons_of_mem _ hw)]

/-- New keys come after those that are there. -/
theorem entryValues_entryNodes {entries : List (String × Value)}
    (h : ∀ e ∈ entries, ∀ anchored, (node e.2).value anchored = .ok (e.2, anchored))
    (known : Entries Value) (distinct : (Entries.keys (known ++ entries)).Nodup)
    (anchored : Anchored) :
    Node.entryValues anchored known (entryNodes entries) = .ok (known ++ entries, anchored) := by
  induction entries generalizing known with
  | nil => rw [List.append_nil]; rfl
  | cons e entries ih =>
    obtain ⟨key, v⟩ := e
    have hkey : (keyNode key).value anchored = .ok (.string key, anchored) := by
      have := scalarValue_of_scalar? (v := .string key) rfl
      simp only [keyNode, Node.value, this]
      rfl
    -- A key that is new is put at the end.
    have hnew : key ∉ known.keys := by
      intro hmem
      simp only [Entries.keys, List.map_append, List.map_cons] at distinct
      exact (List.nodup_append.1 distinct).2.2 key hmem key List.mem_cons_self rfl
    have hput := put_of_notMem (v := v) hnew
    have hv := h _ List.mem_cons_self anchored
    simp only at hv
    rw [entryNodes, Node.entryValues, hkey]
    simp only [keyText, hv, hput]
    rw [ih (fun e he => h e (List.mem_cons_of_mem _ he)) _ (by simpa using distinct)]
    simp

/-- The node of a value says the value, if its keys are distinct. -/
theorem value_node {v : Value} (distinct : v.Distinct) (anchored : Anchored) :
    (node v).value anchored = .ok (v, anchored) := by
  have hscalar {w : Value} {plain : Bool} {text : List Char}
      (hw : scalar? w = some (plain, text)) (hnode : node w = .scalar {} plain text)
      (anchored : Anchored) : (node w).value anchored = .ok (w, anchored) := by
    rw [hnode, Node.value, scalarValue_of_scalar? hw]
    rfl
  induction v generalizing anchored with
  | sequence items ih =>
    have hitems := Value.distinct_sequence.1 distinct
    have hvalues : ∀ w ∈ items, ∀ anchored, (node w).value anchored = .ok (w, anchored) :=
      fun w hw anchored => ih w hw (hitems w hw) anchored
    rw [node, Node.value, itemValues_itemNodes hvalues]
    rfl
  | mapping entries ih =>
    obtain ⟨hkeys, hentries⟩ := Value.distinct_mapping.1 distinct
    have hvalues : ∀ e ∈ entries, ∀ anchored, (node e.2).value anchored = .ok (e.2, anchored) :=
      fun e he anchored => ih e he (hentries e he) anchored
    rw [node, Node.value, entryValues_entryNodes hvalues [] hkeys]
    rfl
  | null => exact hscalar rfl rfl anchored
  | bool b => cases b <;> exact hscalar rfl rfl anchored
  | number n => exact hscalar rfl rfl anchored
  | string s => exact hscalar rfl rfl anchored

end Provision.Yaml.Writing
