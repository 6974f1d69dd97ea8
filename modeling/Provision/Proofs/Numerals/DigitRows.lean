import Mathlib.Data.List.Induction
import Provision.Proofs.Numerals.Decimals

/-!
# Rows of digits

What a row of digits stands for, said without the function that reads it: each digit adds its value
to the base times what the digits before it make (`Denotes`). The number that is read from a row is
the one that it stands for (`digits?_eq_some_iff`).
-/

namespace Provision.Numeral

/-- All digits in the order of their values, with small letters above nine. -/
def smallDigits : List Char := "0123456789abcdef".toList

/-- The same with capital letters. -/
def capitalDigits : List Char := "0123456789ABCDEF".toList

/-- A digit of a base and its value, which is its place among all digits. -/
def IsDigitOf (base : Nat) (c : Char) (d : Nat) : Prop :=
  d < base ∧ (smallDigits[d]? = some c ∨ capitalDigits[d]? = some c)

/-- A row of digits, the most significant first, and the number that it stands for. -/
inductive Denotes (base : Nat) : List Char → Nat → Prop
  | single {c : Char} {d : Nat} : IsDigitOf base c d → Denotes base [c] d
  | snoc {cs : List Char} {n : Nat} {c : Char} {d : Nat} : Denotes base cs n →
      IsDigitOf base c d → Denotes base (cs ++ [c]) (n * base + d)

/-! ## Digits -/

/-- What holds of both forms of a digit holds of the digit. -/
theorem IsDigitOf.of_forms {base d : Nat} {c : Char} {p : Char → Bool} (h : IsDigitOf base c d)
    (forms : (smallDigits[d]?).all p = true ∧ (capitalDigits[d]?).all p = true) : p c = true := by
  rcases h.2 with hsmall | hcapital
  · exact (Option.all_eq_true _ _).1 forms.1 c hsmall
  · exact (Option.all_eq_true _ _).1 forms.2 c hcapital

/-- Digits are characters of ASCII. -/
theorem toNat_lt_of_hexValue? {c : Char} {d : Nat} (h : hexValue? c = some d) : c.toNat < 128 := by
  have upper {x : Char} (hx : c ≤ x) (ascii : x.toNat < 128) : c.toNat < 128 :=
    Nat.lt_of_le_of_lt (UInt32.le_iff_toNat_le.1 hx) ascii
  unfold hexValue? at h
  split at h
  · next hdigit =>
    have hbounds := Char.isDigit_iff_toNat.1 hdigit
    have hnine : '9'.toNat = 57 := rfl
    omega
  · split at h
    · next hlower =>
      rw [Bool.and_eq_true, decide_eq_true_eq, decide_eq_true_eq] at hlower
      exact upper hlower.2 (by decide)
    · obtain ⟨hcapital, -⟩ := Option.ite_none_right_eq_some.1 h
      rw [Bool.and_eq_true, decide_eq_true_eq, decide_eq_true_eq] at hcapital
      exact upper hcapital.2 (by decide)

theorem hexValue?_eq_some_iff {c : Char} {d : Nat} : hexValue? c = some d ↔ IsDigitOf 16 c d := by
  constructor
  · intro h
    have hall : ∀ n < 128, ∀ d ∈ hexValue? (Char.ofNat n), d < 16 ∧
        (smallDigits[d]? = some (Char.ofNat n) ∨ capitalDigits[d]? = some (Char.ofNat n)) := by
      decide +kernel
    have hdigit := hall c.toNat (toNat_lt_of_hexValue? h)
    rw [Char.ofNat_toNat] at hdigit
    exact hdigit d h
  · intro h
    have hall : ∀ d < 16, (smallDigits[d]?).all (fun c => hexValue? c == some d) = true ∧
        (capitalDigits[d]?).all (fun c => hexValue? c == some d) = true := by decide
    exact beq_iff_eq.1 (h.of_forms (hall d h.1))

variable {base : Nat}

theorem isDigitOf_iff (small : base ≤ 16) {c : Char} {d : Nat} :
    IsDigitOf base c d ↔ hexValue? c = some d ∧ d < base := by
  rw [hexValue?_eq_some_iff]
  exact ⟨fun h => ⟨⟨Nat.lt_of_lt_of_le h.1 small, h.2⟩, h.1⟩, fun h => ⟨h.2, h.1.2⟩⟩

theorem exists_isDigitOf_iff (small : base ≤ 16) (c : Char) :
    (∃ d, IsDigitOf base c d) ↔ isDigitIn base c = true := by
  simp only [isDigitOf_iff small, isDigitIn, Option.any_eq_true, decide_eq_true_eq]

/-! ## Rows -/

theorem ofDigits_append_singleton (cs : List Char) {c : Char} {d : Nat}
    (value : hexValue? c = some d) :
    ofDigits base (cs ++ [c]) = ofDigits base cs * base + d := by
  rw [ofDigits, List.foldl_append, List.foldl_cons, List.foldl_nil, value, Option.getD_some]
  rfl

theorem denotes_ofDigits (small : base ≤ 16) {cs : List Char} (nonempty : cs ≠ [])
    (digits : ∀ c ∈ cs, isDigitIn base c = true) : Denotes base cs (ofDigits base cs) := by
  induction cs using List.reverseRecOn with
  | nil => exact absurd rfl nonempty
  | append_singleton cs c ih =>
    obtain ⟨d, hd⟩ := (exists_isDigitOf_iff small c).2 (digits c (by simp))
    have hvalue := ((isDigitOf_iff small).1 hd).1
    rw [ofDigits_append_singleton cs hvalue]
    by_cases hcs : cs = []
    · subst hcs
      rw [show ofDigits base [] = 0 from rfl, Nat.zero_mul, Nat.zero_add]
      exact .single hd
    · exact .snoc (ih hcs fun x hx => digits x (List.mem_append_left _ hx)) hd

theorem Denotes.ofDigits_eq (small : base ≤ 16) {cs : List Char} {n : Nat} (h : Denotes base cs n) :
    cs ≠ [] ∧ (∀ c ∈ cs, isDigitIn base c = true) ∧ ofDigits base cs = n := by
  induction h with
  | @single c d hd =>
    refine ⟨List.cons_ne_nil _ _, ?_, ?_⟩
    · exact List.forall_mem_singleton.2 ((exists_isDigitOf_iff small c).1 ⟨d, hd⟩)
    · have hrow : ofDigits base ([] ++ [c]) = ofDigits base [] * base + d :=
        ofDigits_append_singleton [] ((isDigitOf_iff small).1 hd).1
      rwa [show ofDigits base [] = 0 from rfl, Nat.zero_mul, Nat.zero_add] at hrow
  | @snoc cs n c d _ hd ih =>
    obtain ⟨-, hdigits, rfl⟩ := ih
    refine ⟨by simp, ?_, ofDigits_append_singleton cs ((isDigitOf_iff small).1 hd).1⟩
    exact List.forall_mem_append.2
      ⟨hdigits, List.forall_mem_singleton.2 ((exists_isDigitOf_iff small c).1 ⟨d, hd⟩)⟩

/-- What is read from a row of digits is what the row stands for. -/
theorem digits?_eq_some_iff (small : base ≤ 16) {cs : List Char} {n : Nat} :
    digits? base cs = some n ↔ Denotes base cs n := by
  have hrow : (!cs.isEmpty && cs.all (isDigitIn base)) = true ↔
      cs ≠ [] ∧ ∀ c ∈ cs, isDigitIn base c = true := by simp
  rw [digits?, Option.ite_none_right_eq_some, hrow, Option.some.injEq]
  constructor
  · rintro ⟨⟨nonempty, digits⟩, rfl⟩
    exact denotes_ofDigits small nonempty digits
  · intro h
    obtain ⟨nonempty, digits, hn⟩ := h.ofDigits_eq small
    exact ⟨⟨nonempty, digits⟩, hn⟩

/-! ## Decimal rows -/

theorem isDigitIn_ten_iff (c : Char) : isDigitIn 10 c = true ↔ c.isDigit = true := by
  refine ⟨fun h => ?_, isDigitIn_of_isDigit⟩
  obtain ⟨d, hd⟩ := (exists_isDigitOf_iff (by decide) c).2 h
  have hall : ∀ d < 10, (smallDigits[d]?).all Char.isDigit = true ∧
      (capitalDigits[d]?).all Char.isDigit = true := by decide
  exact hd.of_forms (hall d hd.1)

theorem denotes_ten_iff {cs : List Char} {n : Nat} :
    Denotes 10 cs n ↔ cs ≠ [] ∧ Digits cs ∧ ofDigits 10 cs = n := by
  constructor
  · intro h
    obtain ⟨nonempty, digits, hn⟩ := h.ofDigits_eq (by decide)
    exact ⟨nonempty, fun c hc => (isDigitIn_ten_iff c).1 (digits c hc), hn⟩
  · rintro ⟨nonempty, digits, rfl⟩
    exact denotes_ofDigits (by decide) nonempty fun c hc => isDigitIn_of_isDigit (digits c hc)

end Provision.Numeral
