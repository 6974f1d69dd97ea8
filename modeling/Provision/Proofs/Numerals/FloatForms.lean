import Mathlib.Data.List.TakeWhile
import Provision.Proofs.Numerals.DigitRows

/-!
# Forms of numerals

The grammar of decimal numerals, with what each form stands for. A sign is optional everywhere; a
float has digits with a point among, before or after them, and an exponent where it has one. What is
read as a decimal integer, an exponent or a float is just what has the form
(`map_signed_eq_some_iff`, `exponent?_eq_some_iff`, `ofFloatNumeral?_eq_some_iff`).
-/

namespace Provision.Numeral

/-! ## Signs and integers -/

/-- An optional sign, and whether it is a minus. -/
inductive IsSign : List Char → Bool → Prop
  | none : IsSign [] false
  | plus : IsSign ['+'] false
  | minus : IsSign ['-'] true

/-- Decimal digits after an optional sign, and the integer that they stand for. -/
inductive IsDecimal : List Char → Int → Prop
  | mk {sign digits : List Char} {negative : Bool} {n : Nat} : IsSign sign negative →
      Denotes 10 digits n → IsDecimal (sign ++ digits) (signed negative n)

theorem exists_isSign (cs : List Char) :
    ∃ sign, IsSign sign (splitSign cs).1 ∧ cs = sign ++ (splitSign cs).2 := by
  unfold splitSign
  split
  · exact ⟨_, .minus, rfl⟩
  · exact ⟨_, .plus, rfl⟩
  · exact ⟨_, .none, rfl⟩

/-- What does not start with a sign is told from the sign before it. -/
theorem IsSign.splitSign_append {sign body : List Char} {negative : Bool}
    (h : IsSign sign negative) (unsigned : ∀ c ∈ body.head?, c ≠ '-' ∧ c ≠ '+') :
    splitSign (sign ++ body) = (negative, body) := by
  cases h with
  | plus => rfl
  | minus => rfl
  | none =>
    rw [List.nil_append]
    unfold splitSign
    split
    · exact absurd rfl (unsigned '-' rfl).1
    · exact absurd rfl (unsigned '+' rfl).2
    · rfl

theorem Digits.unsigned {cs : List Char} (h : Digits cs) :
    ∀ c ∈ cs.head?, c ≠ '-' ∧ c ≠ '+' := by
  intro c hc
  have hdigit := h c (List.mem_of_mem_head? hc)
  constructor <;> rintro rfl <;> cases hdigit

theorem map_signed_eq_some_iff {cs : List Char} {i : Int} :
    (digits? 10 (splitSign cs).2).map (signed (splitSign cs).1) = some i ↔ IsDecimal cs i := by
  simp only [Option.map_eq_some_iff, digits?_eq_some_iff (show 10 ≤ 16 by decide)]
  constructor
  · rintro ⟨n, hn, rfl⟩
    obtain ⟨sign, hsign, hcs⟩ := exists_isSign cs
    have hform := IsDecimal.mk hsign hn
    rwa [← hcs] at hform
  · rintro ⟨hsign, hn⟩
    rw [hsign.splitSign_append (denotes_ten_iff.1 hn).2.1.unsigned]
    exact ⟨_, hn, rfl⟩

end Provision.Numeral

namespace Provision.Number

open Numeral (Denotes Digits IsSign IsDecimal denotes_ten_iff)

/-! ## Floats -/

/-- An exponent and what it stands for; without one it is zero. -/
inductive IsExponent : List Char → Int → Prop
  | none : IsExponent [] 0
  | mark {c : Char} {cs : List Char} {e : Int} : c = 'e' ∨ c = 'E' → IsDecimal cs e →
      IsExponent (c :: cs) e

/-- Digits with or without a point, the number that all of them stand for, and how many stand behind
the point. There is a digit on one side of the point at least. -/
inductive IsMantissa : List Char → Nat → Nat → Prop
  | whole {digits : List Char} {m : Nat} : Denotes 10 digits m → IsMantissa digits m 0
  | point {whole fraction : List Char} {m : Nat} : Denotes 10 (whole ++ fraction) m →
      IsMantissa (whole ++ '.' :: fraction) m fraction.length

/-- A float numeral and the float that is nearest to what it stands for. -/
inductive IsFloat : List Char → Binary64 → Prop
  | mk {sign body mark : List Char} {negative : Bool} {m places : Nat} {e : Int} :
      IsSign sign negative → IsMantissa body m places → IsExponent mark e →
      IsFloat (sign ++ (body ++ mark)) (.ofDecimal negative m (e - places))

theorem exponent?_eq_some_iff {cs : List Char} {e : Int} :
    exponent? cs = some e ↔ IsExponent cs e := by
  cases cs with
  | nil =>
    constructor
    · rintro ⟨⟩
      exact .none
    · rintro ⟨⟩
      rfl
  | cons c cs =>
    rw [exponent?, Option.ite_none_right_eq_some, Bool.or_eq_true, decide_eq_true_eq,
      decide_eq_true_eq]
    constructor
    · rintro ⟨hmark, h⟩
      exact .mark hmark (Numeral.map_signed_eq_some_iff.1 h)
    · rintro (_ | ⟨hmark, h⟩)
      exact ⟨hmark, Numeral.map_signed_eq_some_iff.2 h⟩

/-- An exponent starts with its letter. -/
theorem IsExponent.stops {mark : List Char} {e : Int} (h : IsExponent mark e) :
    ∀ c ∈ mark.head?, c.isDigit = false ∧ c ≠ '.' := by
  cases h with
  | none => nofun
  | mark hmark _ =>
    rintro c ⟨⟩
    rcases hmark with rfl | rfl <;> decide

theorem isFloat_of_ofFloatNumeral? {cs : List Char} {x : Binary64}
    (h : ofFloatNumeral? cs = some x) : IsFloat cs x := by
  obtain ⟨sign, hsign, hcs⟩ := Numeral.exists_isSign cs
  unfold ofFloatNumeral? at h
  generalize Numeral.splitSign cs = parts at h hsign hcs
  obtain ⟨negative, body⟩ := parts
  obtain rfl : cs = sign ++ body := hcs
  dsimp only at h
  have hbody : body.takeWhile Char.isDigit ++ body.dropWhile Char.isDigit = body :=
    List.takeWhile_append_dropWhile
  have hwhole : Digits (body.takeWhile Char.isDigit) := fun _ => List.mem_takeWhile_imp
  split at h
  · next tail hpoint =>
    have htail : tail.takeWhile Char.isDigit ++ tail.dropWhile Char.isDigit = tail :=
      List.takeWhile_append_dropWhile
    have hfraction : Digits (tail.takeWhile Char.isDigit) := fun _ => List.mem_takeWhile_imp
    obtain ⟨hsome, h⟩ := Option.ite_none_left_eq_some.1 h
    obtain ⟨e, he, rfl⟩ := Option.map_eq_some_iff.1 h
    have hform := IsFloat.mk hsign (.point (denotes_ten_iff.2
      ⟨by simpa using hsome, hwhole.append hfraction, rfl⟩)) (exponent?_eq_some_iff.1 he)
    rwa [List.append_assoc, List.cons_append, htail, ← hpoint, hbody] at hform
  · next hpoint =>
    obtain ⟨hsome, h⟩ := Option.ite_none_left_eq_some.1 h
    obtain ⟨e, he, rfl⟩ := Option.map_eq_some_iff.1 h
    have hform := IsFloat.mk hsign (.whole (denotes_ten_iff.2
      ⟨by simpa using hsome, hwhole, rfl⟩)) (exponent?_eq_some_iff.1 he)
    rw [hbody] at hform
    simpa using hform

theorem IsMantissa.unsigned {body : List Char} {m places : Nat} (h : IsMantissa body m places)
    (mark : List Char) : ∀ c ∈ (body ++ mark).head?, c ≠ '-' ∧ c ≠ '+' := by
  cases h with
  | whole hdigits =>
    obtain ⟨nonempty, digits, -⟩ := denotes_ten_iff.1 hdigits
    obtain ⟨c, rest, rfl⟩ := List.exists_cons_of_ne_nil nonempty
    exact digits.unsigned
  | @point whole fraction _ hdigits =>
    have digits : Digits whole := fun c hc =>
      (denotes_ten_iff.1 hdigits).2.1 c (List.mem_append_left _ hc)
    cases whole with
    | nil =>
      rintro c ⟨⟩
      decide
    | cons c whole => exact digits.unsigned

theorem ofFloatNumeral?_of_isFloat {cs : List Char} {x : Binary64} (h : IsFloat cs x) :
    ofFloatNumeral? cs = some x := by
  obtain @⟨sign, body, mark, negative, m, places, e, hsign, hbody, hmark⟩ := h
  have hexponent := exponent?_eq_some_iff.2 hmark
  unfold ofFloatNumeral?
  rw [hsign.splitSign_append (hbody.unsigned mark)]
  cases hbody with
  | whole hdigits =>
    obtain ⟨nonempty, digits, rfl⟩ := denotes_ten_iff.1 hdigits
    obtain ⟨htake, hdrop⟩ := Numeral.takeWhile_isDigit digits fun c hc => (hmark.stops c hc).1
    dsimp only
    rw [htake, hdrop]
    split
    · exact absurd rfl (hmark.stops '.' rfl).2
    · simp [nonempty, hexponent]
  | @point whole fraction _ hdigits =>
    obtain ⟨nonempty, digits, rfl⟩ := denotes_ten_iff.1 hdigits
    have hwhole : Digits whole := fun c hc => digits c (List.mem_append_left _ hc)
    have hfraction : Digits fraction := fun c hc => digits c (List.mem_append_right _ hc)
    have hpoint : ∀ c ∈ ('.' :: (fraction ++ mark)).head?, c.isDigit = false := by
      rintro c ⟨⟩
      rfl
    obtain ⟨htake, hdrop⟩ := Numeral.takeWhile_isDigit hwhole hpoint
    obtain ⟨htake', hdrop'⟩ := Numeral.takeWhile_isDigit hfraction fun c hc => (hmark.stops c hc).1
    have hsome : (whole.isEmpty && fraction.isEmpty) = false := by
      rw [Bool.eq_false_iff]
      simpa using nonempty
    dsimp only
    rw [List.append_assoc, List.cons_append, htake, hdrop]
    simp only [htake', hdrop', hsome, hexponent, Option.map_some, Bool.false_eq_true, if_false]

/-- What is read as a float is a float numeral. -/
theorem ofFloatNumeral?_eq_some_iff {cs : List Char} {x : Binary64} :
    ofFloatNumeral? cs = some x ↔ IsFloat cs x :=
  ⟨isFloat_of_ofFloatNumeral?, ofFloatNumeral?_of_isFloat⟩

end Provision.Number
