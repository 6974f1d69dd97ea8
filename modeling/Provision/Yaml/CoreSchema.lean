import Provision.Value

/-!
# The core schema

What a plain scalar says: null, a truth value, an integer, a float, or its own text. Integers are
decimal, hexadecimal or octal. One that 64 bits do not hold is no integer: a decimal one is a float
then, and any other a string.
-/

namespace Provision.Yaml.CoreSchema

/-- The words for null; the empty text is one. -/
def nullWords : List String := ["", "~", "null", "Null", "NULL"]

/-- The words for true. -/
def trueWords : List String := ["true", "True", "TRUE"]

/-- The words for false. -/
def falseWords : List String := ["false", "False", "FALSE"]

/-- The words for positive infinity. -/
def infinityWords : List String := [".inf", ".Inf", ".INF", "+.inf", "+.Inf", "+.INF"]

/-- The words for negative infinity. -/
def negativeInfinityWords : List String := ["-.inf", "-.Inf", "-.INF"]

/-- The words for what is no number. -/
def nanWords : List String := [".nan", ".NaN", ".NAN"]

/-- What a word of the schema stands for. -/
def word? (text : String) : Option Value :=
  if text ∈ nullWords then some .null
  else if text ∈ trueWords then some (.bool true)
  else if text ∈ falseWords then some (.bool false)
  else if text ∈ infinityWords then some (.number (.float (.infinite false)))
  else if text ∈ negativeInfinityWords then some (.number (.float (.infinite true)))
  else if text ∈ nanWords then some (.number (.float .nan))
  else none

/-- The integer of a numeral: decimal digits with an optional sign, or hexadecimal ones after `0x`,
or octal ones after `0o`. -/
def numeral? : List Char → Option Int
  | '0' :: 'x' :: ds => (Numeral.digits? 16 ds).map Int.ofNat
  | '0' :: 'o' :: ds => (Numeral.digits? 8 ds).map Int.ofNat
  | cs =>
    let (negative, ds) := Numeral.splitSign cs
    (Numeral.digits? 10 ds).map (Numeral.signed negative)

/-- The number that a text stands for. -/
def number? (cs : List Char) : Option Number :=
  ((numeral? cs).bind Number.ofInt?).orElse fun _ => (Number.ofFloatNumeral? cs).map .float

/-- What a plain scalar says. -/
def resolve (cs : List Char) : Value :=
  match word? (String.ofList cs) with
  | some v => v
  | none =>
    match number? cs with
    | some n => .number n
    | none => .string (String.ofList cs)

end Provision.Yaml.CoreSchema
