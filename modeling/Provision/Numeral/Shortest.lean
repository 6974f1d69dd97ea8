import Provision.Numeral.Binary64

/-!
# The shortest decimal of a binary64 number

A finite magnitude has an exact decimal expansion, `units k * 5 ^ 1074` with 1074 decimal places.
`shortest k` is the decimal with the fewest digits that still reads back as the magnitude of rank
`k`, and of several with that many digits the nearest one; a decimal in the middle gives way to the
larger one.
-/

namespace Provision.Binary64

/-- A decimal number `digits * 10 ^ exponent`. -/
structure Decimal where
  digits : Nat
  exponent : Int
deriving DecidableEq, Repr

/-- The exact decimal expansion of the magnitude of rank `k`. -/
def exactDecimal (k : Nat) : Decimal := ⟨units k * Nat.pow 5 1074, -1074⟩

/-- Whether the decimal reads as the magnitude of rank `k`. -/
def Decimal.readsAs (d : Decimal) (k : Nat) : Bool := rankOfDecimal d.digits d.exponent == k

/-- The better of the two decimals that cut the exact expansion after its first `count` digits, if
one of them reads back; `total` is the number of digits of the expansion. -/
def cutAt (k total count : Nat) : Option Decimal :=
  let unit := Nat.pow 10 (total - count)
  let exact := (exactDecimal k).digits
  let exponent := (exactDecimal k).exponent + (total - count : Nat)
  let below : Decimal := ⟨exact / unit, exponent⟩
  let above : Decimal := ⟨exact / unit + 1, exponent⟩
  if below.readsAs k && (2 * (exact % unit) < unit || !above.readsAs k) then some below
  else if above.readsAs k then some above
  else none

/-- The decimal with the fewest digits that reads as the magnitude of rank `k`. Seventeen digits
always suffice; the exact expansion stands behind them. -/
def shortest (k : Nat) : Decimal :=
  let total := (Nat.toDigits 10 (exactDecimal k).digits).length
  ((List.range' 1 17).findSome? (cutAt k total)).getD (exactDecimal k)

end Provision.Binary64
