import Provision.Proofs.Json.Scalars

/-!
# Tokens of JSON texts

The tokens of a JSON value, and which values can be read: how many collections are open at once in
the value, and whether each part of it is readable, decide that (`Node.Fits`).
-/

namespace Provision.Json

open Yaml Yaml.TokenReader

namespace Node

/-- Whether a value is a number or one of the three words. -/
def isWord : Node → Bool
  | .null => true
  | .bool _ => true
  | .number _ => true
  | _ => false

mutual

/-- Whether every part of a value can be read: no string has a half of a pair in it, and no tabs
stand alone between a colon and a word. -/
def readable : Node → Bool
  | .string pieces => pieces.all Piece.isReadable
  | .array _ items => itemsReadable items
  | .object _ members => membersReadable members
  | _ => true

def itemsReadable : List (Spaced Node) → Bool
  | [] => true
  | ⟨_, v, _⟩ :: items => v.readable && itemsReadable items

def membersReadable : List (Spaced (List Piece) × Spaced Node) → Bool
  | [] => true
  | (name, ⟨before, v, _⟩) :: members =>
    (name.inner.all Piece.isReadable && !(isTabs before.chars && v.isWord)) &&
      (v.readable && membersReadable members)

end

mutual

/-- The tokens of a value. -/
def tokens : Node → List Token
  | .null => [.scalar true "null".toList]
  | .bool true => [.scalar true "true".toList]
  | .bool false => [.scalar true "false".toList]
  | .number n => [.scalar true n.text]
  | .string pieces => [.scalar false (decode pieces)]
  | .array _ items => .flowSequenceStart :: (itemTokens items ++ [.flowSequenceEnd])
  | .object _ members => .flowMappingStart :: (memberTokens members ++ [.flowMappingEnd])

def itemTokens : List (Spaced Node) → List Token
  | [] => []
  | ⟨_, v, _⟩ :: items =>
    v.tokens ++ (if items.isEmpty then [] else .flowEntry :: itemTokens items)

def memberTokens : List (Spaced (List Piece) × Spaced Node) → List Token
  | [] => []
  | (name, ⟨_, v, _⟩) :: members =>
    .key :: .scalar false (decode name.inner) :: .value ::
      (v.tokens ++ (if members.isEmpty then [] else .flowEntry :: memberTokens members))

end

/-! ## What fits -/

/-- Whether a value can be read where so many more collections may be opened. -/
def Fits (v : Node) (room : Nat) : Prop := v.depth ≤ room ∧ v.readable = true

/-- The same of the items of an array. -/
def ItemsFit (items : List (Spaced Node)) (room : Nat) : Prop :=
  itemsDepth items ≤ room ∧ itemsReadable items = true

/-- The same of the members of an object. -/
def MembersFit (members : List (Spaced (List Piece) × Spaced Node)) (room : Nat) : Prop :=
  membersDepth members ≤ room ∧ membersReadable members = true

variable {gap before after : Gap} {v : Node} {items : List (Spaced Node)}
  {name : Spaced (List Piece)} {members : List (Spaced (List Piece) × Spaced Node)} {room : Nat}

theorem fits_of_isWord (h : v.isWord = true) (room : Nat) : v.Fits room := by
  cases v with
  | null => exact ⟨Nat.zero_le _, rfl⟩
  | bool b => exact ⟨Nat.zero_le _, rfl⟩
  | number n => exact ⟨Nat.zero_le _, rfl⟩
  | string pieces => cases h
  | array gap items => cases h
  | object gap members => cases h

theorem fits_string {pieces : List Piece} :
    (string pieces).Fits room ↔ pieces.all Piece.isReadable = true :=
  and_iff_right (Nat.zero_le _)

theorem fits_array : (array gap items).Fits (room + 1) ↔ ItemsFit items room :=
  and_congr_left' Nat.succ_le_succ_iff

theorem fits_object : (object gap members).Fits (room + 1) ↔ MembersFit members room :=
  and_congr_left' Nat.succ_le_succ_iff

theorem itemsFit_nil : ItemsFit [] room := ⟨Nat.zero_le _, rfl⟩

theorem membersFit_nil : MembersFit [] room := ⟨Nat.zero_le _, rfl⟩

theorem itemsFit_cons :
    ItemsFit (⟨before, v, after⟩ :: items) room ↔ v.Fits room ∧ ItemsFit items room := by
  simp only [ItemsFit, Fits, itemsDepth, itemsReadable, Nat.max_le, Bool.and_eq_true]
  exact and_and_and_comm

theorem membersFit_cons :
    MembersFit ((name, ⟨before, v, after⟩) :: members) room ↔
      ((name.inner.all Piece.isReadable = true ∧ (isTabs before.chars && v.isWord) = false) ∧
        v.Fits room) ∧ MembersFit members room := by
  simp only [MembersFit, Fits, membersDepth, membersReadable, Nat.max_le, Bool.and_eq_true,
    Bool.not_eq_true']
  exact (and_left_comm.trans (and_congr_right' and_and_and_comm)).trans and_assoc.symm

/-! ## How values start -/

/-- A word in writing, which is its token as well. -/
theorem wordText_of_isWord (h : v.isWord = true) :
    WordText v.text ∧ v.tokens = [.scalar true v.text] := by
  have hword (c : Char) (w : List Char) (halpha : (c :: w).all Char.isAlphanum = true) :
      WordText (c :: w) := by
    rw [List.all_eq_true] at halpha
    exact ⟨⟨c, w, rfl, .inl (halpha c List.mem_cons_self)⟩,
      fun x hx => isWordChar_of_isAlphanum (halpha x hx)⟩
  cases v with
  | null => exact ⟨hword 'n' _ (by decide), rfl⟩
  | bool b =>
    cases b
    · exact ⟨hword 'f' _ (by decide), rfl⟩
    · exact ⟨hword 't' _ (by decide), rfl⟩
  | number n => exact ⟨wordText_number n, rfl⟩
  | string pieces => cases h
  | array gap items => cases h
  | object gap members => cases h

/-- The first character of a value starts a token and is no byte order mark. Words are told by it.
-/
theorem exists_cons_text (v : Node) : ∃ x more, v.text = x :: more ∧
    (isGap x = false ∧ x ≠ '#' ∧ x ≠ '\r' ∧ x ≠ '\x00') ∧ isNameChar x = v.isWord ∧
      x ≠ '\uFEFF' := by
  by_cases hword : v.isWord = true
  · obtain ⟨⟨⟨c, w, htext, hc⟩, hchars⟩, -⟩ := wordText_of_isWord hword
    rw [htext] at hchars
    have hchar := hchars c List.mem_cons_self
    have hne (x : Char) (hx : isWordChar x = false) : c ≠ x := isWordChar_ne hchar hx
    have hname : isNameChar c = true := by
      rcases hc with hc | ⟨rfl, -⟩
      · simp [isNameChar, hc]
      · decide
    exact ⟨c, w, htext, ⟨(isWordChar_inert hchar).1, hne _ (by decide), hne _ (by decide),
      hne _ (by decide)⟩, hname.trans hword.symm, hne _ (by decide)⟩
  · cases v with
    | null => exact absurd rfl hword
    | bool b => exact absurd rfl hword
    | number n => exact absurd rfl hword
    | string pieces => exact ⟨'"', _, rfl, by decide, rfl, by decide⟩
    | array gap items => exact ⟨'[', _, rfl, by decide, rfl, by decide⟩
    | object gap members => exact ⟨'\x7b', _, rfl, by decide, rfl, by decide⟩

theorem starts_text (v : Node) (cs : List Char) :
    Starts (v.text ++ cs) ∧ atWord (v.text ++ cs) = v.isWord := by
  obtain ⟨x, more, htext, hstarts, hname, -⟩ := v.exists_cons_text
  rw [htext]
  exact ⟨starts_cons hstarts _, hname⟩

end Node

end Provision.Json
