import Provision.Number
import Provision.Proofs.Numerals.Rounding

/-!
# Decimals are read back

Digits stand for the number that they were made of, zeros at their end for factors of ten
(`Numeral.ofDigits_append_zeros`). From this follows that the text of a magnitude is read as a
decimal of its rank (`Number.readsAs_magnitudeText`): the layout moves the point, the exponent moves
it back, and the rank of a decimal does not depend on where its point is written.
-/

namespace Provision.Numeral

/-! ## Digits -/

/-- Digits and nothing else. -/
def Digits (cs : List Char) : Prop := ∀ c ∈ cs, c.isDigit = true

theorem Digits.append {cs ds : List Char} (hc : Digits cs) (hd : Digits ds) :
    Digits (cs ++ ds) := by
  intro c h
  rcases List.mem_append.1 h with h | h
  · exact hc c h
  · exact hd c h

theorem digits_zeros (n : Nat) : Digits (List.replicate n '0') := by
  intro c h
  rw [List.eq_of_mem_replicate h]
  rfl

theorem digits_toDigits (n : Nat) : Digits (Nat.toDigits 10 n) := fun _ h =>
  Nat.isDigit_of_mem_toDigits (by decide) (by decide) h

theorem isDigitIn_of_isDigit {c : Char} (h : c.isDigit = true) : isDigitIn 10 c = true := by
  have hbounds := Char.isDigit_iff_toNat.1 h
  have hnine : '9'.toNat = 57 := rfl
  simp only [isDigitIn, hexValue?, h, if_true, Option.any_some, decide_eq_true_eq]
  omega

/-- The value of decimal digits, as the library counts it. -/
theorem ofDigits_eq {cs : List Char} (h : Digits cs) :
    ofDigits 10 cs = Nat.ofDigitChars 10 cs 0 := by
  have general : ∀ (cs : List Char) (n : Nat), Digits cs →
      cs.foldl (fun n c => n * 10 + (hexValue? c).getD 0) n = Nat.ofDigitChars 10 cs n := by
    intro cs
    induction cs with
    | nil => exact fun n _ => rfl
    | cons c cs ih =>
      intro n h
      have hvalue : hexValue? c = some (c.toNat - 48) := by
        simp only [hexValue?, h c List.mem_cons_self, if_true]
      rw [List.foldl_cons, Nat.ofDigitChars_cons, hvalue, Option.getD_some,
        ih _ fun d hd => h d (List.mem_cons_of_mem _ hd), Nat.mul_comm n 10]
      rfl
  exact general cs 0 h

theorem ofDigits_toDigits (n : Nat) : ofDigits 10 (Nat.toDigits 10 n) = n := by
  rw [ofDigits_eq (digits_toDigits n), Nat.ofDigitChars_ten_toDigits]

theorem ofDigits_zeros_append (n : Nat) (cs : List Char) :
    ofDigits 10 (List.replicate n '0' ++ cs) = ofDigits 10 cs := by
  induction n with
  | zero => rfl
  | succ n ih => exact ih

/-- Zeros at the end are factors of ten. -/
theorem ofDigits_append_zeros {cs : List Char} (h : Digits cs) (n : Nat) :
    ofDigits 10 (cs ++ List.replicate n '0') = ofDigits 10 cs * 10 ^ n := by
  rw [ofDigits_eq (h.append (digits_zeros n)), ofDigits_eq h, Nat.ofDigitChars_append,
    Nat.ofDigitChars_replicate_zero, Nat.mul_comm]

theorem digits?_eq {cs : List Char} (nonempty : cs ≠ []) (h : Digits cs) :
    digits? 10 cs = some (ofDigits 10 cs) := by
  have hall : cs.all (isDigitIn 10) = true :=
    List.all_eq_true.2 fun c hc => isDigitIn_of_isDigit (h c hc)
  simp [digits?, nonempty, hall]

/-- The digits up to a character that is none. -/
theorem takeWhile_isDigit {cs after : List Char} (h : Digits cs)
    (stop : ∀ c ∈ after.head?, c.isDigit = false) :
    (cs ++ after).takeWhile Char.isDigit = cs ∧ (cs ++ after).dropWhile Char.isDigit = after := by
  have hstop : after.takeWhile Char.isDigit = [] ∧ after.dropWhile Char.isDigit = after := by
    cases after with
    | nil => exact ⟨rfl, rfl⟩
    | cons c after => simp [stop c rfl]
  constructor
  · rw [List.takeWhile_append_of_pos h, hstop.1, List.append_nil]
  · rw [List.dropWhile_append_of_pos h, hstop.2]

end Provision.Numeral

namespace Provision.Number

open Numeral (Digits ofDigits)
open Binary64 (shortest rankOfDecimal)

/-! ## Integers -/

/-- A text after a minus, or as it is. -/
def withSign (negative : Bool) (cs : List Char) : List Char := if negative then '-' :: cs else cs

/-- A sign is told from what starts with a digit. -/
theorem splitSign_withSign {c : Char} (hc : c.isDigit = true) (cs : List Char) (negative : Bool) :
    Numeral.splitSign (withSign negative (c :: cs)) = (negative, c :: cs) := by
  cases negative
  · show Numeral.splitSign (c :: cs) = _
    unfold Numeral.splitSign
    split
    · next h => cases h; cases hc
    · next h => cases h; cases hc
    · rfl
  · rfl

theorem intText_eq (i : Int) :
    intText i = withSign (decide (i < 0)) (Nat.toDigits 10 i.natAbs) := by
  simp [intText, withSign]

theorem splitSign_intText (i : Int) :
    Numeral.splitSign (intText i) = (decide (i < 0), Nat.toDigits 10 i.natAbs) := by
  obtain ⟨c, cs, hcs⟩ := List.exists_cons_of_ne_nil (Nat.toDigits_ne_nil (n := i.natAbs) (b := 10))
  have hc : c.isDigit = true := Numeral.digits_toDigits i.natAbs c (by simp [hcs])
  rw [intText_eq, hcs, splitSign_withSign hc]

theorem signed_natAbs (i : Int) : Numeral.signed (decide (i < 0)) i.natAbs = i := by
  unfold Numeral.signed
  simp only [decide_eq_true_eq]
  split <;> omega

theorem digits?_toDigits (n : Nat) : Numeral.digits? 10 (Nat.toDigits 10 n) = some n := by
  rw [Numeral.digits?_eq Nat.toDigits_ne_nil (Numeral.digits_toDigits n), Numeral.ofDigits_toDigits]

/-- An integer of 64 bits is a number. -/
theorem ofInt?_toInt (i : Int64) : ofInt? i.toInt = some (.integer i) := by
  rw [ofInt?, if_pos ⟨i.minValue_le_toInt, i.toInt_le⟩, Int64.ofInt_toInt]

/-! ## Float numerals -/

/-- Whether the text of a magnitude is read as a decimal, whatever sign stands before it. -/
def ReadsAs (body : List Char) (m : Nat) (e : Int) : Prop :=
  ∀ (negative : Bool) (cs : List Char), Numeral.splitSign cs = (negative, body) →
    ofFloatNumeral? cs = some (.ofDecimal negative m e)

/-- Digits around a point, and an exponent or nothing after them. -/
theorem readsAs_point {whole fraction rest : List Char} {e : Int} (nonempty : whole ≠ [])
    (hwhole : Digits whole) (hfraction : Digits fraction)
    (stop : ∀ c ∈ rest.head?, c.isDigit = false) (exponent : exponent? rest = some e) :
    ReadsAs (whole ++ '.' :: (fraction ++ rest)) (ofDigits 10 (whole ++ fraction))
      (e - fraction.length) := by
  intro negative cs hcs
  have point : ∀ c ∈ ('.' :: (fraction ++ rest)).head?, c.isDigit = false := by simp
  obtain ⟨htake, hdrop⟩ := Numeral.takeWhile_isDigit hwhole point
  obtain ⟨htake', hdrop'⟩ := Numeral.takeWhile_isDigit hfraction stop
  unfold ofFloatNumeral?
  simp [hcs, htake, hdrop, htake', hdrop', nonempty, exponent]

/-- Digits around a point, and nothing after them. -/
theorem readsAs_fraction {whole fraction : List Char} (nonempty : whole ≠ [])
    (hwhole : Digits whole) (hfraction : Digits fraction) :
    ReadsAs (whole ++ '.' :: fraction) (ofDigits 10 (whole ++ fraction)) (-fraction.length) := by
  have stop : ∀ c ∈ ([] : List Char).head?, c.isDigit = false := nofun
  have := readsAs_point nonempty hwhole hfraction stop rfl
  rwa [List.append_nil, Int.zero_sub] at this

/-- Digits without a point, and an exponent after them. -/
theorem readsAs_whole {whole rest : List Char} {e : Int} (nonempty : whole ≠ [])
    (hwhole : Digits whole) (stop : ∀ c ∈ rest.head?, c.isDigit = false ∧ c ≠ '.')
    (exponent : exponent? rest = some e) : ReadsAs (whole ++ rest) (ofDigits 10 whole) e := by
  intro negative cs hcs
  obtain ⟨htake, hdrop⟩ := Numeral.takeWhile_isDigit hwhole fun c hc => (stop c hc).1
  have hwhole' : whole.isEmpty = false := by simpa using nonempty
  unfold ofFloatNumeral?
  simp only [hcs, htake, hdrop, hwhole', Bool.false_and, Bool.false_eq_true, if_false]
  split
  · exact absurd rfl (stop '.' rfl).2
  · simp [exponent]

/-- The exponent that the layout writes. -/
theorem exponent?_intText (i : Int) : exponent? (layout.exponentMark :: intText i) = some i := by
  simp [exponent?, layout, splitSign_intText, digits?_toDigits, signed_natAbs]

/-! ## The digits of a magnitude -/

/-- The digits of a number without the zeros at its end, and the zeros. -/
theorem significant_append_zeros (ds : List Char) :
    ∃ n, ds = significant ds ++ List.replicate n '0' := by
  have hsplit := List.takeWhile_append_dropWhile (p := (· == '0')) (l := ds.reverse)
  have hzeros : ds.reverse.takeWhile (· == '0') =
      List.replicate (ds.reverse.takeWhile (· == '0')).length '0' :=
    List.eq_replicate_iff.2 ⟨rfl, fun c hc => by
      simpa using List.all_eq_true.1 List.all_takeWhile c hc⟩
  refine ⟨(ds.reverse.takeWhile (· == '0')).length, ?_⟩
  have := congrArg List.reverse hsplit
  rw [List.reverse_append, List.reverse_reverse, hzeros, List.reverse_replicate] at this
  exact this.symm

/-- Digits around a point have the rank of the digits with their exponent. -/
theorem readsAs_pointText {ds : List Char} (hd : Digits ds) (nonempty : ds ≠ []) (point : Int) :
    ∃ m e, ReadsAs (pointText ds point) m e ∧
      rankOfDecimal m e = rankOfDecimal (ofDigits 10 ds) (point - ds.length) := by
  unfold pointText
  split
  · next hpoint =>
    -- All digits follow the point, after zeros.
    have hfraction := (Numeral.digits_zeros (-point).toNat).append hd
    refine ⟨_, _, readsAs_fraction (List.cons_ne_nil '0' []) (Numeral.digits_zeros 1) hfraction, ?_⟩
    rw [show ['0'] = List.replicate 1 '0' from rfl, Numeral.ofDigits_zeros_append,
      Numeral.ofDigits_zeros_append, List.length_append, List.length_replicate]
    congr 1
    omega
  · split
    · next hpoint hlt =>
      -- The point is among the digits.
      have hwhole : Digits (ds.take point.toNat) := fun c hc => hd c (List.mem_of_mem_take hc)
      have hfraction : Digits (ds.drop point.toNat) := fun c hc => hd c (List.mem_of_mem_drop hc)
      have hne : ds.take point.toNat ≠ [] := by
        simp only [ne_eq, List.take_eq_nil_iff, nonempty, or_false]
        omega
      refine ⟨_, _, readsAs_fraction hne hwhole hfraction, ?_⟩
      rw [List.take_append_drop, List.length_drop]
      congr 1
      omega
    · next hpoint hlt =>
      -- Zeros stand between the digits and the point.
      have hwhole := hd.append (Numeral.digits_zeros (point.toNat - ds.length))
      have hne : ds ++ List.replicate (point.toNat - ds.length) '0' ≠ [] := by
        simp [nonempty]
      refine ⟨_, _, readsAs_fraction hne hwhole (Numeral.digits_zeros 1), ?_⟩
      rw [show ['0'] = List.replicate 1 '0' from rfl, Numeral.ofDigits_append_zeros hwhole,
        Numeral.ofDigits_append_zeros hd, Nat.mul_assoc, ← Nat.pow_add,
        Binary64.rankOfDecimal_shift, List.length_replicate]
      congr 1
      omega

/-- Digits with an exponent have the rank of the digits with theirs. -/
theorem readsAs_exponentText {ds : List Char} (hd : Digits ds) (nonempty : ds ≠ []) (point : Int) :
    ∃ m e, ReadsAs (exponentText ds point) m e ∧
      rankOfDecimal m e = rankOfDecimal (ofDigits 10 ds) (point - ds.length) := by
  obtain ⟨c, ds, rfl⟩ := List.exists_cons_of_ne_nil nonempty
  have hc : Digits [c] := fun x hx => hd x (by simp_all)
  have hds : Digits ds := fun x hx => hd x (List.mem_cons_of_mem _ hx)
  have stop : ∀ x ∈ (layout.exponentMark :: intText (point - 1)).head?,
      x.isDigit = false ∧ x ≠ '.' := by
    intro x hx
    cases hx
    exact ⟨rfl, by decide⟩
  cases ds with
  | nil =>
    refine ⟨_, _, readsAs_whole (List.cons_ne_nil c []) hc stop (exponent?_intText _), rfl⟩
  | cons d ds =>
    refine ⟨_, _, readsAs_point (List.cons_ne_nil c []) hc hds (fun x hx => (stop x hx).1)
      (exponent?_intText _), ?_⟩
    show rankOfDecimal (ofDigits 10 (c :: d :: ds)) (point - 1 - (d :: ds).length) = _
    congr 1
    simp only [List.length_cons]
    omega

/-- The three forms of the text of a magnitude. -/
theorem magnitudeText_cases (k : Nat) :
    (k = 0 ∧ magnitudeText k = ['0', '.', '0']) ∨
      ∃ ds point, Digits ds ∧ ds ≠ [] ∧ k ≠ 0 ∧
        rankOfDecimal (ofDigits 10 ds) (point - ds.length) = k ∧
        (magnitudeText k = pointText ds point ∨ magnitudeText k = exponentText ds point) := by
  by_cases hk : k = 0
  · subst hk
    exact .inl ⟨rfl, rfl⟩
  · have hrank := Binary64.rankOfDecimal_shortest k
    -- The zeros at the end of the digits count for the exponent.
    obtain ⟨z, hz⟩ := significant_append_zeros (Nat.toDigits 10 (shortest k).digits)
    have hdigits : Digits (significant (Nat.toDigits 10 (shortest k).digits)) := fun c hc =>
      Numeral.digits_toDigits _ c (by rw [hz]; exact List.mem_append_left _ hc)
    have hvalue : (shortest k).digits =
        ofDigits 10 (significant (Nat.toDigits 10 (shortest k).digits)) * 10 ^ z := by
      rw [← Numeral.ofDigits_append_zeros hdigits, ← hz, Numeral.ofDigits_toDigits]
    have hlength := congrArg List.length hz
    rw [List.length_append, List.length_replicate] at hlength
    refine .inr ⟨significant (Nat.toDigits 10 (shortest k).digits),
      (Nat.toDigits 10 (shortest k).digits).length + (shortest k).exponent, hdigits, ?_, hk, ?_, ?_⟩
    · intro hnil
      rw [hvalue, hnil, show ofDigits 10 [] = 0 from rfl, Nat.zero_mul,
        Binary64.rankOfDecimal_zero] at hrank
      exact hk hrank.symm
    · rw [hvalue, Binary64.rankOfDecimal_shift] at hrank
      refine Eq.trans ?_ hrank
      congr 1
      omega
    · unfold magnitudeText
      simp only [if_neg hk]
      split
      · exact .inl rfl
      · exact .inr rfl

/-- The text of a magnitude is read as a decimal of its rank. -/
theorem readsAs_magnitudeText (k : Nat) :
    ∃ m e, ReadsAs (magnitudeText k) m e ∧ rankOfDecimal m e = k ∧ (k = 0 → m = 0) := by
  rcases magnitudeText_cases k with ⟨rfl, -⟩ | ⟨ds, point, hd, nonempty, hk, hrank, htext | htext⟩
  · have hzeros : ReadsAs (magnitudeText 0) (ofDigits 10 (['0'] ++ ['0'])) (-1) :=
      readsAs_fraction (List.cons_ne_nil _ _) (Numeral.digits_zeros 1) (Numeral.digits_zeros 1)
    exact ⟨0, -1, hzeros, Binary64.rankOfDecimal_zero _, fun _ => rfl⟩
  · obtain ⟨m, e, hreads, hm⟩ := readsAs_pointText hd nonempty point
    exact ⟨m, e, htext ▸ hreads, hm.trans hrank, fun h => absurd h hk⟩
  · obtain ⟨m, e, hreads, hm⟩ := readsAs_exponentText hd nonempty point
    exact ⟨m, e, htext ▸ hreads, hm.trans hrank, fun h => absurd h hk⟩

/-- A decimal of a magnitude's rank is the magnitude. -/
theorem ofDecimal_eq_finite {m : Nat} {e : Int} {k : Fin Binary64.ranks}
    (rank : rankOfDecimal m e = k.val) (zero : k.val = 0 → m = 0) (negative : Bool) :
    Binary64.ofDecimal negative m e = .finite negative k := by
  by_cases hk : k.val = 0
  · rw [Binary64.ofDecimal, if_pos (zero hk)]
    congr 1
    exact Fin.ext hk.symm
  · exact Binary64.ofDecimal_of_rank negative hk rank

end Provision.Number
