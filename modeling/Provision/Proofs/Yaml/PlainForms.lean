import Provision.Proofs.Numerals.FloatForms
import Provision.Proofs.Yaml.NumberTexts

/-!
# What a plain scalar says

A plain scalar is a word of the core schema, an integer numeral, a float numeral, or a string. The
classes are told apart by their forms:

* **integers** — `IsInteger` numerals are decimal, hexadecimal or octal, and one that 64 bits hold
  is an integer (`integer?_eq_some_iff`);
* **floats** — a float numeral is a float unless it is such an integer, which must be a decimal one
  (`IsInteger.isDecimal`); decimal integers are float numerals (`Number.isFloat_of_isDecimal`);
* **words** — no word is a numeral (`not_isWord_of_numeral`).

`resolve_iff_forms` puts the classes together.
-/

namespace Provision

namespace Number

open Numeral (IsDecimal)

/-- The integers that 64 bits hold: those from -2⁶³ up to below 2⁶³. -/
def Fits (n : Int) : Prop := -0x8000000000000000 ≤ n ∧ n < 0x8000000000000000

theorem ofInt?_eq_some_iff {n : Int} {m : Number} :
    ofInt? n = some m ↔ ∃ i : Int64, i.toInt = n ∧ m = .integer i := by
  constructor
  · intro h
    obtain ⟨⟨hmin, hmax⟩, h⟩ := Option.ite_none_right_eq_some.1 h
    cases h
    exact ⟨_, Int64.toInt_ofInt_of_le hmin (Int.lt_of_le_sub_one hmax), rfl⟩
  · rintro ⟨i, rfl, rfl⟩
    exact ofInt?_toInt i

theorem exists_toInt_eq_iff (n : Int) : (∃ i : Int64, i.toInt = n) ↔ Fits n := by
  constructor
  · rintro ⟨i, rfl⟩
    exact ⟨i.le_toInt, i.toInt_lt⟩
  · rintro ⟨hmin, hmax⟩
    exact ⟨.ofInt n, Int64.toInt_ofInt_of_le hmin hmax⟩

/-- A decimal integer is a float numeral as well. -/
theorem isFloat_of_isDecimal {cs : List Char} {n : Int} (h : IsDecimal cs n) :
    ∃ x, IsFloat cs x := by
  obtain ⟨hsign, hdigits⟩ := h
  have hform := IsFloat.mk hsign (.whole hdigits) .none
  rw [List.append_nil] at hform
  exact ⟨_, hform⟩

end Number

namespace Yaml.CoreSchema

open Number (Fits IsFloat)
open Numeral (Denotes IsDecimal)

/-! ## Integers -/

/-- An integer numeral and what it stands for: a decimal one with an optional sign, a hexadecimal
one, or an octal one. -/
inductive IsInteger : List Char → Int → Prop
  | decimal {cs : List Char} {n : Int} : IsDecimal cs n → IsInteger cs n
  | hexadecimal {digits : List Char} {n : Nat} : Denotes 16 digits n →
      IsInteger ('0' :: 'x' :: digits) n
  | octal {digits : List Char} {n : Nat} : Denotes 8 digits n →
      IsInteger ('0' :: 'o' :: digits) n

/-- Nothing but a digit follows the first digit of a decimal integer. -/
theorem isDigit_of_isDecimal {c : Char} {cs : List Char} {n : Int}
    (h : IsDecimal ('0' :: c :: cs) n) : c.isDigit = true := by
  generalize htext : '0' :: c :: cs = text at h
  obtain ⟨hsign, hdigits⟩ := h
  cases hsign with
  | none =>
    rw [List.nil_append] at htext
    exact (Numeral.denotes_ten_iff.1 hdigits).2.1 c (by simp [← htext])
  | plus => cases htext
  | minus => cases htext

theorem numeral?_eq_some_iff {cs : List Char} {n : Int} :
    numeral? cs = some n ↔ IsInteger cs n := by
  constructor
  · intro h
    unfold numeral? at h
    split at h
    · obtain ⟨m, hm, rfl⟩ := Option.map_eq_some_iff.1 h
      exact .hexadecimal ((Numeral.digits?_eq_some_iff (by decide)).1 hm)
    · obtain ⟨m, hm, rfl⟩ := Option.map_eq_some_iff.1 h
      exact .octal ((Numeral.digits?_eq_some_iff (by decide)).1 hm)
    · exact .decimal (Numeral.map_signed_eq_some_iff.1 h)
  · intro h
    cases h with
    | hexadecimal hdigits =>
      rw [numeral?, (Numeral.digits?_eq_some_iff (by decide)).2 hdigits]
      rfl
    | octal hdigits =>
      rw [numeral?, (Numeral.digits?_eq_some_iff (by decide)).2 hdigits]
      rfl
    | decimal hdecimal =>
      unfold numeral?
      split
      · cases isDigit_of_isDecimal hdecimal
      · cases isDigit_of_isDecimal hdecimal
      · exact Numeral.map_signed_eq_some_iff.2 hdecimal

theorem integer?_eq_some_iff {cs : List Char} {m : Number} :
    (numeral? cs).bind Number.ofInt? = some m ↔
      ∃ i : Int64, IsInteger cs i.toInt ∧ m = .integer i := by
  simp only [Option.bind_eq_some_iff, numeral?_eq_some_iff, Number.ofInt?_eq_some_iff]
  constructor
  · rintro ⟨n, hn, i, rfl, rfl⟩
    exact ⟨i, hn, rfl⟩
  · rintro ⟨i, hi, rfl⟩
    exact ⟨_, hi, i, rfl, rfl⟩

/-- A float numeral that is an integer is a decimal one. -/
theorem IsInteger.isDecimal {cs : List Char} {n : Int} {x : Binary64} (h : IsInteger cs n)
    (float : IsFloat cs x) : IsDecimal cs n := by
  have hread := Number.ofFloatNumeral?_eq_some_iff.2 float
  cases h with
  | decimal h => exact h
  | hexadecimal _ => cases hread
  | octal _ => cases hread

/-- No integer is read where 64 bits hold none. -/
theorem integer?_eq_none_iff {cs : List Char} :
    (numeral? cs).bind Number.ofInt? = none ↔ ¬ ∃ n, IsInteger cs n ∧ Fits n := by
  rw [← Option.not_isSome_iff_eq_none, Option.isSome_iff_exists, not_iff_not]
  simp only [integer?_eq_some_iff, ← Number.exists_toInt_eq_iff]
  constructor
  · rintro ⟨_, i, hi, -⟩
    exact ⟨_, hi, i, rfl⟩
  · rintro ⟨_, hi, i, rfl⟩
    exact ⟨_, i, hi, rfl⟩

/-! ## Numbers -/

/-- A number is an integer that 64 bits hold, or else a float. -/
theorem number?_eq_some_iff {cs : List Char} {m : Number} :
    number? cs = some m ↔ (∃ i : Int64, IsInteger cs i.toInt ∧ m = .integer i) ∨
      (¬ ∃ n, IsInteger cs n ∧ Fits n) ∧ ∃ x, IsFloat cs x ∧ .float x = m := by
  rw [← integer?_eq_some_iff, ← integer?_eq_none_iff, number?]
  simp only [← Number.ofFloatNumeral?_eq_some_iff]
  cases (numeral? cs).bind Number.ofInt? with
  | some k => simp
  | none => simp

theorem number?_eq_integer_iff {cs : List Char} {i : Int64} :
    number? cs = some (.integer i) ↔ IsInteger cs i.toInt := by
  rw [number?_eq_some_iff]
  constructor
  · rintro (⟨j, hj, ⟨⟩⟩ | ⟨-, x, -, ⟨⟩⟩)
    exact hj
  · exact fun h => .inl ⟨i, h, rfl⟩

theorem number?_eq_float_iff {cs : List Char} {x : Binary64} :
    number? cs = some (.float x) ↔ IsFloat cs x ∧ ¬ ∃ n, IsDecimal cs n ∧ Fits n := by
  rw [number?_eq_some_iff]
  constructor
  · rintro (⟨j, -, ⟨⟩⟩ | ⟨hnone, y, hy, ⟨⟩⟩)
    exact ⟨hy, fun ⟨n, hn, hfits⟩ => hnone ⟨n, .decimal hn, hfits⟩⟩
  · rintro ⟨hx, hnone⟩
    exact .inr ⟨fun ⟨n, hn, hfits⟩ => hnone ⟨n, hn.isDecimal hx, hfits⟩, x, hx, rfl⟩

theorem number?_eq_none_iff {cs : List Char} :
    number? cs = none ↔ (¬ ∃ n, IsInteger cs n ∧ Fits n) ∧ ¬ ∃ x, IsFloat cs x := by
  rw [number?, ← integer?_eq_none_iff]
  simp only [← Number.ofFloatNumeral?_eq_some_iff, ← Option.isSome_iff_exists,
    Option.not_isSome_iff_eq_none]
  cases (numeral? cs).bind Number.ofInt? with
  | some k => simp
  | none => simp

/-! ## Words -/

/-- What the words of the schema say. -/
inductive IsWord (text : String) : Value → Prop
  | null : text ∈ nullWords → IsWord text .null
  | truth : text ∈ trueWords → IsWord text (.bool true)
  | untruth : text ∈ falseWords → IsWord text (.bool false)
  | infinity : text ∈ infinityWords → IsWord text (.number (.float (.infinite false)))
  | negativeInfinity : text ∈ negativeInfinityWords →
      IsWord text (.number (.float (.infinite true)))
  | nan : text ∈ nanWords → IsWord text (.number (.float .nan))

theorem word?_eq_some_iff {text : String} {v : Value} : word? text = some v ↔ IsWord text v := by
  constructor
  · intro h
    unfold word? at h
    obtain ⟨hw, ⟨⟩⟩ | ⟨-, h⟩ := ite_eq_iff.1 h
    · exact .null hw
    obtain ⟨hw, ⟨⟩⟩ | ⟨-, h⟩ := ite_eq_iff.1 h
    · exact .truth hw
    obtain ⟨hw, ⟨⟩⟩ | ⟨-, h⟩ := ite_eq_iff.1 h
    · exact .untruth hw
    obtain ⟨hw, ⟨⟩⟩ | ⟨-, h⟩ := ite_eq_iff.1 h
    · exact .infinity hw
    obtain ⟨hw, ⟨⟩⟩ | ⟨-, h⟩ := ite_eq_iff.1 h
    · exact .negativeInfinity hw
    · obtain ⟨hw, ⟨⟩⟩ := Option.ite_none_right_eq_some.1 h
      exact .nan hw
  · -- No word stands in two of the lists.
    have hwords : (∀ w ∈ trueWords, word? w = some (.bool true)) ∧
        (∀ w ∈ falseWords, word? w = some (.bool false)) ∧
        (∀ w ∈ infinityWords, word? w = some (.number (.float (.infinite false)))) ∧
        (∀ w ∈ negativeInfinityWords, word? w = some (.number (.float (.infinite true)))) ∧
        ∀ w ∈ nanWords, word? w = some (.number (.float .nan)) := by
      simp [word?, nullWords, trueWords, falseWords, infinityWords, negativeInfinityWords, nanWords]
    intro h
    cases h with
    | null hw => exact if_pos hw
    | truth hw => exact hwords.1 text hw
    | untruth hw => exact hwords.2.1 text hw
    | infinity hw => exact hwords.2.2.1 text hw
    | negativeInfinity hw => exact hwords.2.2.2.1 text hw
    | nan hw => exact hwords.2.2.2.2 text hw

/-- No numeral is a word, whether 64 bits hold it or not. -/
theorem not_isWord_of_numeral {cs : List Char}
    (numeral : (∃ n, IsInteger cs n) ∨ ∃ x, IsFloat cs x) (v : Value) :
    ¬ IsWord (String.ofList cs) v := by
  have hread : ((numeral? cs).isSome || (Number.ofFloatNumeral? cs).isSome) = true := by
    rw [Bool.or_eq_true, Option.isSome_iff_exists, Option.isSome_iff_exists]
    simpa only [numeral?_eq_some_iff, Number.ofFloatNumeral?_eq_some_iff] using numeral
  have hnone := word?_eq_none_of_test
    (fun cs => (numeral? cs).isSome || (Number.ofFloatNumeral? cs).isSome) (by decide) hread
  intro hword
  rw [word?_eq_some_iff.2 hword] at hnone
  cases hnone

/-! ## Plain scalars -/

/-- A scalar is a word, a number, or a string. -/
theorem resolve_eq_iff {cs : List Char} {v : Value} :
    resolve cs = v ↔ IsWord (String.ofList cs) v ∨ (∀ w, ¬ IsWord (String.ofList cs) w) ∧
      ((∃ m, number? cs = some m ∧ v = .number m) ∨
        number? cs = none ∧ v = .string (String.ofList cs)) := by
  simp only [← word?_eq_some_iff, resolve]
  cases word? (String.ofList cs) with
  | some w => simp
  | none => cases number? cs <;> simp [eq_comm]

theorem resolve_eq_integer_iff {cs : List Char} {i : Int64} :
    resolve cs = .number (.integer i) ↔ IsInteger cs i.toInt := by
  rw [resolve_eq_iff]
  constructor
  · rintro (hword | ⟨-, ⟨m, hm, ⟨⟩⟩ | ⟨-, ⟨⟩⟩⟩)
    · cases hword
    · exact number?_eq_integer_iff.1 hm
  · intro h
    exact .inr ⟨not_isWord_of_numeral (.inl ⟨_, h⟩), .inl ⟨_, number?_eq_integer_iff.2 h, rfl⟩⟩

theorem resolve_eq_float_iff {cs : List Char} {x : Binary64} :
    resolve cs = .number (.float x) ↔ IsWord (String.ofList cs) (.number (.float x)) ∨
      IsFloat cs x ∧ ¬ ∃ n, IsDecimal cs n ∧ Fits n := by
  rw [resolve_eq_iff]
  refine or_congr_right ⟨?_, fun h => ?_⟩
  · rintro ⟨-, ⟨m, hm, ⟨⟩⟩ | ⟨-, ⟨⟩⟩⟩
    exact number?_eq_float_iff.1 hm
  · exact ⟨not_isWord_of_numeral (.inr ⟨x, h.1⟩), .inl ⟨_, number?_eq_float_iff.2 h, rfl⟩⟩

theorem resolve_eq_string_iff {cs : List Char} {s : String} :
    resolve cs = .string s ↔ s = String.ofList cs ∧ (∀ v, ¬ IsWord (String.ofList cs) v) ∧
      (¬ ∃ n, IsInteger cs n ∧ Fits n) ∧ ¬ ∃ x, IsFloat cs x := by
  rw [resolve_eq_iff, ← number?_eq_none_iff]
  constructor
  · rintro (hword | ⟨hword, ⟨m, -, ⟨⟩⟩ | ⟨hnone, ⟨⟩⟩⟩)
    · cases hword
    · exact ⟨rfl, hword, hnone⟩
  · rintro ⟨rfl, hword, hnone⟩
    exact .inr ⟨hword, .inr ⟨hnone, rfl⟩⟩

/-- Null and the truth values are words only. -/
theorem resolve_eq_iff_isWord {cs : List Char} {v : Value} (number : ∀ m, v ≠ .number m)
    (string : ∀ s, v ≠ .string s) : resolve cs = v ↔ IsWord (String.ofList cs) v := by
  rw [resolve_eq_iff, or_iff_left]
  rintro ⟨-, ⟨m, -, hm⟩ | ⟨-, hs⟩⟩
  · exact number m hm
  · exact string _ hs

theorem IsInteger.unique {cs : List Char} {n m : Int} (hn : IsInteger cs n)
    (hm : IsInteger cs m) : n = m :=
  Option.some.inj ((numeral?_eq_some_iff.2 hn).symm.trans (numeral?_eq_some_iff.2 hm))

/-- What a plain scalar says, by the form of its text: integers (1), floats (2) with the decimal
integers out of range (3), null and the truth values (4, 5), and strings (6) with the other integers
out of range (7). The text of a number says the number. -/
theorem resolve_iff_forms :
    (∀ cs : List Char,
      (∀ n : Int, (∃ i : Int64, i.toInt = n ∧ resolve cs = .number (.integer i)) ↔
        IsInteger cs n ∧ Fits n) ∧
      (∀ x, resolve cs = .number (.float x) ↔ IsWord (String.ofList cs) (.number (.float x)) ∨
        IsFloat cs x ∧ ¬ ∃ n, IsDecimal cs n ∧ Fits n) ∧
      (∀ n, IsDecimal cs n → ¬ Fits n → ∃ x, IsFloat cs x ∧ resolve cs = .number (.float x)) ∧
      (resolve cs = .null ↔ IsWord (String.ofList cs) .null) ∧
      (∀ b, resolve cs = .bool b ↔ IsWord (String.ofList cs) (.bool b)) ∧
      (∀ s, resolve cs = .string s ↔ s = String.ofList cs ∧
        (∀ v, ¬ IsWord (String.ofList cs) v) ∧ (¬ ∃ n, IsInteger cs n ∧ Fits n) ∧
        ¬ ∃ x, IsFloat cs x) ∧
      (∀ n, IsInteger cs n → ¬ IsDecimal cs n → ¬ Fits n →
        resolve cs = .string (String.ofList cs))) ∧
    (∀ m : Number, m ≠ .float .nan → resolve m.text = .number m) := by
  refine ⟨fun cs => ⟨fun n => ?_, fun x => resolve_eq_float_iff, ?_,
    resolve_eq_iff_isWord nofun nofun, fun b => resolve_eq_iff_isWord nofun nofun,
    fun s => resolve_eq_string_iff, ?_⟩, fun m _ => resolve_text m⟩
  · simp only [resolve_eq_integer_iff, ← Number.exists_toInt_eq_iff]
    constructor
    · rintro ⟨i, rfl, hi⟩
      exact ⟨hi, i, rfl⟩
    · rintro ⟨hn, i, rfl⟩
      exact ⟨i, rfl, hn⟩
  · intro n hn wide
    obtain ⟨x, hx⟩ := Number.isFloat_of_isDecimal hn
    refine ⟨x, hx, resolve_eq_float_iff.2 (.inr ⟨hx, ?_⟩)⟩
    rintro ⟨m, hm, hfits⟩
    exact wide ((IsInteger.decimal hn).unique (.decimal hm) ▸ hfits)
  · intro n hn other wide
    refine resolve_eq_string_iff.2 ⟨rfl, not_isWord_of_numeral (.inl ⟨n, hn⟩), ?_, ?_⟩
    · rintro ⟨m, hm, hfits⟩
      exact wide (hn.unique hm ▸ hfits)
    · rintro ⟨x, hx⟩
      exact other (hn.isDecimal hx)

/-- The least integer of 64 bits, the least decimal and the least hexadecimal one above them all,
and the text of a float. -/
theorem resolve_iff_forms_limits :
    (∃ i : Int64, i.toInt = -0x8000000000000000 ∧
      resolve "-9223372036854775808".toList = .number (.integer i)) ∧
    (∃ x, IsFloat "9223372036854775808".toList x ∧
      resolve "9223372036854775808".toList = .number (.float x)) ∧
    resolve ('0' :: 'x' :: "8000000000000000".toList) =
      .string (String.ofList ('0' :: 'x' :: "8000000000000000".toList)) ∧
    resolve (Number.text (.float (.infinite true))) = .number (.float (.infinite true)) := by
  have wide : ¬ Fits 0x8000000000000000 := fun h => absurd h.2 (by decide)
  refine ⟨((resolve_iff_forms.1 _).1 _).2
      ⟨numeral?_eq_some_iff.1 (by decide), by decide, by decide⟩,
    (resolve_iff_forms.1 _).2.2.1 0x8000000000000000 ?_ wide,
    (resolve_iff_forms.1 _).2.2.2.2.2.2 0x8000000000000000
      (numeral?_eq_some_iff.1 (by decide)) ?_ wide,
    resolve_iff_forms.2 _ (by decide)⟩
  · exact Numeral.map_signed_eq_some_iff.1 (by decide)
  · intro h
    cases isDigit_of_isDecimal h

end Yaml.CoreSchema

end Provision
