/-!
# Binary64

The floating-point numbers of IEEE 754's binary64 format, and the nearest of them to a rational
number. The non-negative finite numbers are numbered by size: number `k` of them is `units k` times
`2 ^ (-1074)`. Rounding goes to the nearest, and from the middle between two neighbours to the one
of even rank. Powers are called by the name `Nat.pow`, which means the same whatever algebra is
imported besides.
-/

namespace Provision

/-- How many finite binary64 numbers are not negative: 2047 exponents times `2 ^ 52` fractions. -/
abbrev Binary64.ranks : Nat := 2047 * Nat.pow 2 52

/-- A binary64 number. A finite one is a sign and a rank among the magnitudes. -/
inductive Binary64 where
  | nan
  | infinite (negative : Bool)
  | finite (negative : Bool) (rank : Fin Binary64.ranks)
deriving DecidableEq

namespace Binary64

/-- Positive zero. -/
def zero : Binary64 := .finite false ⟨0, by decide⟩

/-- The size of the magnitude of rank `k`, counted in the least positive magnitude. -/
def units (k : Nat) : Nat :=
  let fractions := Nat.pow 2 52
  if k < fractions then k else (fractions + k % fractions) * Nat.pow 2 (k / fractions - 1)

/-- The integer nearest to `n / d`; from the middle, the even one. -/
def nearest (n d : Nat) : Nat :=
  let q := n / d
  let r := n % d
  if 2 * r < d then q else if d < 2 * r then q + 1 else q + q % 2

/-- The rank of the magnitude nearest to `n / d`. It is `ranks` or more where the nearest one would
be beyond the largest. -/
def rankOfRatio (n d : Nat) : Nat :=
  let scaled := n * Nat.pow 2 1074
  let shift := Nat.log2 (scaled / d) - 52
  shift * Nat.pow 2 52 + nearest scaled (d * Nat.pow 2 shift)

/-- The finite number of this sign and rank, or the infinity where the rank is past the last. -/
def ofRank (negative : Bool) (k : Nat) : Binary64 :=
  if h : k < ranks then .finite negative ⟨k, h⟩ else .infinite negative

/-- The rank of the magnitude nearest to `m * 10 ^ e`. -/
def rankOfDecimal (m : Nat) (e : Int) : Nat :=
  if 0 ≤ e then rankOfRatio (m * Nat.pow 10 e.toNat) 1 else rankOfRatio m (Nat.pow 10 (-e).toNat)

/-- The number nearest to `m * 10 ^ e` with the given sign. Exponents far outside the range of
magnitudes are answered without raising ten to them. -/
def ofDecimal (negative : Bool) (m : Nat) (e : Int) : Binary64 :=
  if m = 0 then .finite negative ⟨0, by decide⟩
  else if 310 < e then .infinite negative
  else if e + Nat.log2 m + 1 < -330 then .finite negative ⟨0, by decide⟩
  else ofRank negative (rankOfDecimal m e)

/-- The number nearest to an integer. -/
def ofInt (i : Int) : Binary64 := ofDecimal (i < 0) i.natAbs 0

/-- Numeric equality: a NaN differs from everything, and the two zeros are equal. -/
def same : Binary64 → Binary64 → Bool
  | .infinite s, .infinite t => s == t
  | .finite s j, .finite t k => j == k && (s == t || j.val == 0)
  | _, _ => false

/-- Whether the number is a NaN. -/
def isNan : Binary64 → Bool
  | .nan => true
  | _ => false

end Binary64

end Provision
