import Mathlib.Algebra.Group.Nat.Defs
import Provision.Numeral.Shortest

/-!
# Rounding to a rank

The rank of a decimal depends on its value alone, not on how it is split into digits and exponent
(`rankOfDecimal_shift`), and the exact expansion of a magnitude has that magnitude's rank
(`exactDecimal_readsAs`). So does the shortest decimal, which is checked when it is chosen.

`ofDecimal` answers exponents far outside the range of magnitudes without rounding; inside the range
it is the number of the rank (`ofDecimal_of_rank`).
-/

namespace Provision.Binary64

/-! ## Powers -/

theorem ranks_eq : ranks = 2047 * 2 ^ 52 := rfl

theorem units_eq (k : Nat) :
    units k = if k < 2 ^ 52 then k else (2 ^ 52 + k % 2 ^ 52) * 2 ^ (k / 2 ^ 52 - 1) := rfl

theorem rankOfRatio_eq (n d : Nat) :
    rankOfRatio n d =
      (Nat.log2 (n * 2 ^ 1074 / d) - 52) * 2 ^ 52 +
        nearest (n * 2 ^ 1074) (d * 2 ^ (Nat.log2 (n * 2 ^ 1074 / d) - 52)) := rfl

theorem rankOfDecimal_eq (m : Nat) (e : Int) :
    rankOfDecimal m e =
      if 0 ≤ e then rankOfRatio (m * 10 ^ e.toNat) 1 else rankOfRatio m (10 ^ (-e).toNat) := rfl

theorem exactDecimal_eq (k : Nat) : exactDecimal k = ⟨units k * 5 ^ 1074, -1074⟩ := rfl

/-! ## Scaling -/

theorem nearest_mul (n d : Nat) {c : Nat} (hc : 0 < c) : nearest (n * c) (d * c) = nearest n d := by
  have hq : n * c / (d * c) = n / d := Nat.mul_div_mul_right n d hc
  have hr : n * c % (d * c) = n % d * c := Nat.mul_mod_mul_right c n d
  have lt_iff (a b : Nat) : a * c < b * c ↔ a < b := Nat.mul_lt_mul_right hc
  unfold nearest
  simp only [hq, hr, ← Nat.mul_assoc, lt_iff]

theorem nearest_one (n : Nat) : nearest n 1 = n := by
  simp [nearest, Nat.mod_one]

/-- A ratio has one rank, whatever common factor its terms have. -/
theorem rankOfRatio_mul (n d : Nat) {c : Nat} (hc : 0 < c) :
    rankOfRatio (n * c) (d * c) = rankOfRatio n d := by
  have hs : n * c * 2 ^ 1074 = n * 2 ^ 1074 * c := Nat.mul_right_comm n c _
  have hq : n * 2 ^ 1074 * c / (d * c) = n * 2 ^ 1074 / d := Nat.mul_div_mul_right _ _ hc
  have hd (s : Nat) : d * c * 2 ^ s = d * 2 ^ s * c := Nat.mul_right_comm d c _
  rw [rankOfRatio_eq, rankOfRatio_eq]
  simp only [hs, hq, hd, nearest_mul _ _ hc]

/-- Moving the point of a decimal by zeros. -/
theorem rankOfDecimal_shift (m j : Nat) (e : Int) :
    rankOfDecimal (m * 10 ^ j) e = rankOfDecimal m (e + j) := by
  have pos (n : Nat) : 0 < 10 ^ n := Nat.pow_pos (by decide)
  rw [rankOfDecimal_eq, rankOfDecimal_eq]
  by_cases he : 0 ≤ e
  · have hsum : (e + j).toNat = j + e.toNat := by omega
    rw [if_pos he, if_pos (by omega), hsum, Nat.pow_add, Nat.mul_assoc]
  · rw [if_neg he]
    -- The zeros move the point to the end of the digits, or leave it inside.
    by_cases hj : 0 ≤ e + j
    · have hsum : j = (e + j).toNat + (-e).toNat := by omega
      rw [if_pos hj]
      have := rankOfRatio_mul (m * 10 ^ (e + j).toNat) 1 (pos (-e).toNat)
      rwa [Nat.mul_assoc, ← Nat.pow_add, ← hsum, Nat.one_mul] at this
    · have hsum : (-e).toNat = (-(e + j)).toNat + j := by omega
      rw [if_neg hj]
      have := rankOfRatio_mul m (10 ^ (-(e + j)).toNat) (pos j)
      rwa [← Nat.pow_add, ← hsum] at this

/-! ## The exact expansion -/

/-- The rank of so many least magnitudes, rounded as if they were a quotient. -/
theorem rankOfRatio_units (u : Nat) :
    rankOfRatio u (2 ^ 1074) = (u.log2 - 52) * 2 ^ 52 + nearest u (2 ^ (u.log2 - 52)) := by
  have pos : 0 < 2 ^ 1074 := Nat.two_pow_pos 1074
  have hq : u * 2 ^ 1074 / 2 ^ 1074 = u := Nat.mul_div_cancel u pos
  rw [rankOfRatio_eq]
  simp only [hq, Nat.mul_comm (2 ^ 1074) (2 ^ (u.log2 - 52)), nearest_mul _ _ pos]

theorem rankOfRatio_units_rank (k : Nat) : rankOfRatio (units k) (2 ^ 1074) = k := by
  rw [rankOfRatio_units, units_eq]
  by_cases hk : k < 2 ^ 52
  · have hlog : k.log2 - 52 = 0 := by
      by_cases h0 : k = 0
      · subst h0; rfl
      · have := (Nat.log2_lt h0).2 hk
        omega
    rw [if_pos hk, hlog, Nat.pow_zero, nearest_one]
    omega
  · -- Rank `k` has the exponent `s` and the fraction `f`.
    obtain ⟨s, hs⟩ : ∃ s, k / 2 ^ 52 = s + 1 := ⟨k / 2 ^ 52 - 1, by omega⟩
    have hf : k % 2 ^ 52 < 2 ^ 52 := Nat.mod_lt _ (by decide)
    have hsplit : k = 2 ^ 52 * (s + 1) + k % 2 ^ 52 := by
      rw [← hs]
      exact (Nat.div_add_mod k (2 ^ 52)).symm
    generalize k % 2 ^ 52 = f at hf hsplit
    have hpos : 0 < 2 ^ s := Nat.pow_pos (by decide)
    have hlog : ((2 ^ 52 + f) * 2 ^ s).log2 = 52 + s := by
      have hne : (2 ^ 52 + f) * 2 ^ s ≠ 0 := Nat.mul_ne_zero (by omega) (by omega)
      have lower : 52 + s ≤ ((2 ^ 52 + f) * 2 ^ s).log2 := by
        rw [Nat.le_log2 hne, Nat.pow_add]
        exact Nat.mul_le_mul_right _ (by omega)
      have upper : ((2 ^ 52 + f) * 2 ^ s).log2 < 53 + s := by
        rw [Nat.log2_lt hne, Nat.pow_add]
        exact (Nat.mul_lt_mul_right hpos).2 (by omega)
      omega
    have hnear : nearest ((2 ^ 52 + f) * 2 ^ s) (2 ^ s) = 2 ^ 52 + f := by
      have := nearest_mul (2 ^ 52 + f) 1 hpos
      rwa [Nat.one_mul, nearest_one] at this
    rw [if_neg hk, hs, Nat.add_sub_cancel, hlog, Nat.add_sub_cancel_left, hnear]
    omega

theorem exactDecimal_readsAs (k : Nat) : (exactDecimal k).readsAs k = true := by
  have hten (n : Nat) : 10 ^ n = 2 ^ n * 5 ^ n := Nat.mul_pow 2 5 n
  have hneg : ¬ (0 : Int) ≤ -1074 := by decide
  have hexp : (- -1074 : Int).toNat = 1074 := rfl
  have pos (n : Nat) : 0 < 5 ^ n := Nat.pow_pos (by decide)
  rw [Decimal.readsAs, exactDecimal_eq, rankOfDecimal_eq, if_neg hneg, hexp, hten,
    rankOfRatio_mul _ _ (pos 1074), rankOfRatio_units_rank]
  exact beq_self_eq_true k

theorem cutAt_readsAs {k total count : Nat} {d : Decimal} (h : cutAt k total count = some d) :
    d.readsAs k = true := by
  unfold cutAt at h
  simp only at h
  split at h
  · next hd =>
    cases h
    simp only [Bool.and_eq_true] at hd
    exact hd.1
  · split at h
    · next hd =>
      cases h
      exact hd
    · cases h

/-- The shortest decimal reads back. -/
theorem shortest_readsAs (k : Nat) : (shortest k).readsAs k = true := by
  unfold shortest
  simp only
  cases h : (List.range' 1 17).findSome?
      (cutAt k (Nat.toDigits 10 (exactDecimal k).digits).length) with
  | none => exact exactDecimal_readsAs k
  | some d =>
    obtain ⟨count, -, hcut⟩ := List.exists_of_findSome?_eq_some h
    exact cutAt_readsAs hcut

theorem rankOfDecimal_shortest (k : Nat) :
    rankOfDecimal (shortest k).digits (shortest k).exponent = k := by
  have := shortest_readsAs k
  rwa [Decimal.readsAs, beq_iff_eq] at this

/-! ## Exponents outside the range -/

theorem rankOfRatio_zero (d : Nat) : rankOfRatio 0 d = 0 := by
  have hlog : Nat.log2 0 = 0 := rfl
  simp only [rankOfRatio_eq, nearest, Nat.zero_mul, Nat.zero_div, Nat.zero_mod, hlog]
  split <;> simp

theorem rankOfDecimal_zero (e : Int) : rankOfDecimal 0 e = 0 := by
  rw [rankOfDecimal_eq]
  split <;> simp [rankOfRatio_zero]

/-- A magnitude of `2 ^ 1024` or more is past the last rank. -/
theorem ranks_le_rankOfRatio {n : Nat} (h : 2 ^ 1024 ≤ n) : ranks ≤ rankOfRatio n 1 := by
  have split (a b c : Nat) (h : a + b = c) : 2 ^ c = 2 ^ a * 2 ^ b := h ▸ Nat.pow_add 2 a b
  have hscaled : 2 ^ 2098 ≤ n * 2 ^ 1074 :=
    calc 2 ^ 2098 = 2 ^ 1024 * 2 ^ 1074 := split 1024 1074 2098 rfl
      _ ≤ n * 2 ^ 1074 := Nat.mul_le_mul h (Nat.le_refl _)
  rw [rankOfRatio_eq]
  simp only [Nat.div_one, Nat.one_mul]
  generalize n * 2 ^ 1074 = scaled at hscaled
  have hne : scaled ≠ 0 := by
    have : 0 < 2 ^ 2098 := Nat.pow_pos (by decide)
    omega
  have hlog : 2098 ≤ scaled.log2 := (Nat.le_log2 hne).2 hscaled
  have hself : 2 ^ scaled.log2 ≤ scaled := Nat.log2_self_le hne
  generalize scaled.log2 = l at hlog hself
  have hquot : 2 ^ 52 ≤ scaled / 2 ^ (l - 52) := by
    rw [Nat.le_div_iff_mul_le (Nat.pow_pos (by decide)), ← Nat.pow_add]
    rwa [show 52 + (l - 52) = l by omega]
  have hnear : scaled / 2 ^ (l - 52) ≤ nearest scaled (2 ^ (l - 52)) := by
    unfold nearest
    simp only
    split
    · omega
    · split <;> omega
  rw [ranks_eq]
  omega

theorem rank_eq_zero_of_small {n d : Nat} (h : 2 * (n * 2 ^ 1074) < d) : rankOfRatio n d = 0 := by
  rw [rankOfRatio_eq]
  generalize n * 2 ^ 1074 = scaled at h
  have hdiv : scaled / d = 0 := Nat.div_eq_of_lt (by omega)
  have hlog : Nat.log2 0 = 0 := rfl
  simp only [hdiv, hlog, Nat.zero_sub, Nat.zero_mul, Nat.pow_zero, Nat.mul_one, Nat.zero_add]
  unfold nearest
  simp only [hdiv, Nat.mod_eq_of_lt (show scaled < d by omega), if_pos h]

/-- A decimal with a rank among the magnitudes, and not the least, is the number of that rank. -/
theorem ofDecimal_of_rank (negative : Bool) {m : Nat} {e : Int} {k : Fin ranks}
    (hk : k.val ≠ 0) (h : rankOfDecimal m e = k.val) :
    ofDecimal negative m e = .finite negative k := by
  have hm : m ≠ 0 := by
    rintro rfl
    rw [rankOfDecimal_zero] at h
    exact hk h.symm
  -- Beyond either bound the answer comes from no rank, but then no decimal there has rank `k`.
  have hbig : ¬ 310 < e := by
    intro he
    have hfactor : 10 ^ 311 ≤ m * 10 ^ e.toNat :=
      calc 10 ^ 311 ≤ 10 ^ e.toNat := Nat.pow_le_pow_right (by decide) (by omega)
        _ ≤ m * 10 ^ e.toNat := Nat.le_mul_of_pos_left _ (Nat.pos_of_ne_zero hm)
    have hpow : 2 ^ 1024 ≤ 10 ^ 311 := by decide +kernel
    have := ranks_le_rankOfRatio (Nat.le_trans hpow hfactor)
    rw [rankOfDecimal_eq, if_pos (by omega)] at h
    omega
  have hsmall : ¬ e + Nat.log2 m + 1 < -330 := by
    intro he
    have hpow : 2 * (2 ^ 1074 : Nat) < 10 ^ 324 := by decide +kernel
    have hdigits : m < 10 ^ (m.log2 + 1) :=
      Nat.lt_of_lt_of_le Nat.lt_log2_self (Nat.pow_le_pow_left (by decide) _)
    have hlt : 2 * (m * 2 ^ 1074) < 10 ^ (-e).toNat :=
      calc 2 * (m * 2 ^ 1074) = m * (2 * 2 ^ 1074) := Nat.mul_left_comm _ _ _
        _ ≤ 10 ^ (m.log2 + 1) * (2 * 2 ^ 1074) := Nat.mul_le_mul_right _ (Nat.le_of_lt hdigits)
        _ < 10 ^ (m.log2 + 1) * 10 ^ 324 :=
          (Nat.mul_lt_mul_left (Nat.pow_pos (by decide))).2 hpow
        _ = 10 ^ (m.log2 + 1 + 324) := (Nat.pow_add 10 (m.log2 + 1) 324).symm
        _ ≤ 10 ^ (-e).toNat := Nat.pow_le_pow_right (by decide) (by omega)
    rw [rankOfDecimal_eq, if_neg (by omega), rank_eq_zero_of_small hlt] at h
    exact hk h.symm
  rw [ofDecimal, if_neg hm, if_neg hbig, if_neg hsmall, ofRank, h, dif_pos k.isLt]

end Provision.Binary64
