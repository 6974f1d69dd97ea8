import Provision.Numeral.Digits
import Provision.Numeral.Shortest

/-!
# Numbers

A number of a document is a 64-bit integer or a binary64 float, and the two are never equal. This
module has the text that numbers are written in and the grammar of float numerals.
-/

namespace Provision

/-- A number: an integer of 64 bits or a float. -/
inductive Number where
  | integer (i : Int64)
  | float (x : Binary64)
deriving DecidableEq

namespace Number

/-- How floats are written: the range of positions of the decimal point in which the digits stand
around a point, and the letter before the exponent outside that range. -/
structure Layout where
  leastPoint : Int
  greatestPoint : Int
  exponentMark : Char

/-- Floats from 0.0001 up to below ten to the sixteenth stand around a point, with a digit on both
sides of it; all others have an exponent. -/
def layout : Layout := ⟨-3, 16, 'e'⟩

/-- The decimal digits of an integer, after a minus where it is negative. -/
def intText (i : Int) : List Char :=
  if i < 0 then '-' :: Nat.toDigits 10 i.natAbs else Nat.toDigits 10 i.natAbs

/-- Digits around a point that stands after the first `point` of them. -/
def pointText (digits : List Char) (point : Int) : List Char :=
  if point ≤ 0 then '0' :: '.' :: (List.replicate (-point).toNat '0' ++ digits)
  else if point.toNat < digits.length then
    digits.take point.toNat ++ '.' :: digits.drop point.toNat
  else digits ++ List.replicate (point.toNat - digits.length) '0' ++ ['.', '0']

/-- Digits with an exponent, and with a point after the first where there are more. -/
def exponentText (digits : List Char) (point : Int) : List Char :=
  let fraction := if digits.length ≤ 1 then [] else '.' :: digits.drop 1
  digits.take 1 ++ fraction ++ layout.exponentMark :: intText (point - 1)

/-- The digits without the zeros at their end. -/
def significant (digits : List Char) : List Char :=
  (digits.reverse.dropWhile (· == '0')).reverse

/-- The text of the magnitude of rank `k`. -/
def magnitudeText (k : Nat) : List Char :=
  if k = 0 then ['0', '.', '0']
  else
    let d := Binary64.shortest k
    let digits := Nat.toDigits 10 d.digits
    let point := digits.length + d.exponent
    if layout.leastPoint ≤ point ∧ point ≤ layout.greatestPoint then
      pointText (significant digits) point
    else exponentText (significant digits) point

/-- The text of a float. -/
def floatText : Binary64 → List Char
  | .nan => ".nan".toList
  | .infinite false => ".inf".toList
  | .infinite true => "-.inf".toList
  | .finite false k => magnitudeText k
  | .finite true k => '-' :: magnitudeText k

/-- The text of a number. -/
def text : Number → List Char
  | .integer i => intText i.toInt
  | .float x => floatText x

/-- Numeric equality within integers and within floats; an integer never equals a float. -/
def same : Number → Number → Bool
  | .integer i, .integer j => i == j
  | .float x, .float y => x.same y
  | _, _ => false

/-- The number as a float, rounded to the nearest. -/
def toFloat : Number → Binary64
  | .integer i => .ofInt i.toInt
  | .float x => x

/-- The integer as a number, if 64 bits hold it. -/
def ofInt? (i : Int) : Option Number :=
  if Int64.minValue.toInt ≤ i ∧ i ≤ Int64.maxValue.toInt then some (.integer (.ofInt i))
  else none

/-- The exponent that ends a float numeral: nothing, or a letter e, an optional sign and digits. -/
def exponent? : List Char → Option Int
  | [] => some 0
  | c :: cs =>
    if c = 'e' || c = 'E' then
      let (negative, ds) := Numeral.splitSign cs
      (Numeral.digits? 10 ds).map (Numeral.signed negative)
    else none

/-- The float of a numeral: an optional sign, digits with an optional point among, before or after
them, and an optional exponent. A numeral that starts with its point has a digit after it. -/
def ofFloatNumeral? (cs : List Char) : Option Binary64 :=
  let (negative, body) := Numeral.splitSign cs
  let whole := body.takeWhile Char.isDigit
  let (fraction, rest) :=
    match body.dropWhile Char.isDigit with
    | '.' :: tail => (tail.takeWhile Char.isDigit, tail.dropWhile Char.isDigit)
    | tail => ([], tail)
  if whole.isEmpty && fraction.isEmpty then none
  else (exponent? rest).map fun e =>
    .ofDecimal negative (Numeral.ofDigits 10 (whole ++ fraction)) (e - fraction.length)

end Number

end Provision
