import Provision.Value

/-!
# JSON texts

A JSON text as a tree that keeps everything about the way in which it is written: the white space
between the tokens, the spelling of numbers and the escapes of strings. The grammar is that of RFC
8259, and `Document.text` runs through all its texts. `Document.value` is what a text denotes, where
of two members with one name the last one counts, and `Node.depth` how many collections are open at
once.
-/

namespace Provision.Json

/-! ## White space -/

/-- A character of insignificant white space. -/
def isSpace (c : Char) : Bool := c == ' ' || c == '\t' || c == '\n' || c == '\r'

/-- White space between two tokens. -/
structure Gap where
  chars : List Char
  white : chars.all isSpace = true

/-- Something with white space around it. -/
structure Spaced (α : Type) where
  before : Gap
  inner : α
  after : Gap

/-! ## Numbers -/

/-- A row of digits. -/
structure DigitRow where
  chars : List Char
  nonempty : chars ≠ []
  digits : chars.all Char.isDigit = true

/-- The exponent of a number: a letter e in either case, a sign or none, and digits. -/
structure Exponent where
  capital : Bool
  /-- Whether the sign is a minus, if there is a sign. -/
  sign : Option Bool
  row : DigitRow

/-- The sign of an exponent in writing. -/
def Exponent.signText (e : Exponent) : List Char :=
  match e.sign with
  | none => []
  | some true => ['-']
  | some false => ['+']

def Exponent.text (e : Exponent) : List Char :=
  (if e.capital then 'E' else 'e') :: (e.signText ++ e.row.chars)

def Exponent.value (e : Exponent) : Int :=
  Numeral.signed (e.sign == some true) (Numeral.ofDigits 10 e.row.chars)

/-- A number as it is written: a minus or none, digits without a needless zero at their start, and
perhaps a fraction and an exponent. -/
structure NumberText where
  negative : Bool
  whole : DigitRow
  canonical : whole.chars.head? = some '0' → whole.chars = ['0']
  fraction : Option DigitRow
  exponent : Option Exponent

namespace NumberText

/-- The digits behind the point. -/
def fractionDigits (n : NumberText) : List Char :=
  match n.fraction with
  | none => []
  | some row => row.chars

def fractionText (n : NumberText) : List Char :=
  match n.fraction with
  | none => []
  | some row => '.' :: row.chars

def exponentText (n : NumberText) : List Char :=
  match n.exponent with
  | none => []
  | some e => e.text

def text (n : NumberText) : List Char :=
  (if n.negative then ['-'] else []) ++ (n.whole.chars ++ (n.fractionText ++ n.exponentText))

def exponentValue (n : NumberText) : Int :=
  match n.exponent with
  | none => 0
  | some e => e.value

/-- The power of ten that the digits, taken as one integer, are multiplied with. -/
def scale (n : NumberText) : Int := n.exponentValue - n.fractionDigits.length

/-- The float nearest to a number. -/
def nearest (n : NumberText) : Binary64 :=
  .ofDecimal n.negative (Numeral.ofDigits 10 (n.whole.chars ++ n.fractionDigits)) n.scale

/-- A number without fraction and exponent is an integer if 64 bits hold it, and any other one the
float nearest to it. -/
def value (n : NumberText) : Number :=
  match n.fraction, n.exponent with
  | none, none =>
    (Number.ofInt? (Numeral.signed n.negative (Numeral.ofDigits 10 n.whole.chars))).getD
      (.float n.nearest)
  | _, _ => .float n.nearest

end NumberText

/-! ## Strings -/

/-- The characters that have an escape of two characters. -/
inductive Escape where
  | quote
  | backslash
  | slash
  | backspace
  | formFeed
  | lineFeed
  | carriageReturn
  | tab
deriving DecidableEq, Repr

/-- The character after the backslash. -/
def Escape.letter : Escape → Char
  | quote => '"'
  | backslash => '\\'
  | slash => '/'
  | backspace => 'b'
  | formFeed => 'f'
  | lineFeed => 'n'
  | carriageReturn => 'r'
  | tab => 't'

/-- The character that an escape stands for. -/
def Escape.char : Escape → Char
  | quote => '"'
  | backslash => '\\'
  | slash => '/'
  | backspace => '\x08'
  | formFeed => '\x0c'
  | lineFeed => '\n'
  | carriageReturn => '\r'
  | tab => '\t'

/-- Four hexadecimal digits, in either case. -/
structure CodeUnit where
  digits : List Char
  length_eq : digits.length = 4
  hexadecimal : digits.all (Numeral.isDigitIn 16) = true

namespace CodeUnit

def value (u : CodeUnit) : Nat := Numeral.ofDigits 16 u.digits

/-- The first half of a pair that stands for one character. -/
def isHigh (u : CodeUnit) : Bool := 0xD800 ≤ u.value && u.value < 0xDC00

/-- The second half of such a pair. -/
def isLow (u : CodeUnit) : Bool := 0xDC00 ≤ u.value && u.value < 0xE000

/-- A half of a pair, which stands for no character by itself. -/
def isSurrogate (u : CodeUnit) : Bool := u.isHigh || u.isLow

/-- The character with this code point. What a half of a pair stands for without the other half is
left open by the grammar; here it is the replacement character. -/
def char (u : CodeUnit) : Char := if u.isSurrogate then '\uFFFD' else Char.ofNat u.value

/-- The character of a pair. -/
def pairChar (high low : CodeUnit) : Char :=
  Char.ofNat (0x10000 + (high.value - 0xD800) * 0x400 + (low.value - 0xDC00))

end CodeUnit

/-- A character of a string that may stand there as it is. -/
def isUnescaped (c : Char) : Bool := 0x20 ≤ c.toNat && c != '"' && c != '\\'

/-- A part of a string between its quotes. -/
inductive Piece where
  | unescaped (c : Char) (valid : isUnescaped c = true)
  | escape (e : Escape)
  | code (unit : CodeUnit)

def Piece.text : Piece → List Char
  | unescaped c _ => [c]
  | escape e => ['\\', e.letter]
  | code u => '\\' :: 'u' :: u.digits

/-- A string between its quotes in writing. -/
def piecesText (pieces : List Piece) : List Char := pieces.flatMap Piece.text

/-- The text that a string denotes. -/
def decode : List Piece → List Char
  | [] => []
  | .unescaped c _ :: pieces => c :: decode pieces
  | .escape e :: pieces => e.char :: decode pieces
  | .code u :: .code v :: pieces =>
    if u.isHigh && v.isLow then u.pairChar v :: decode pieces
    else u.char :: decode (.code v :: pieces)
  | .code u :: pieces => u.char :: decode pieces

/-- A string with its quotes. -/
def stringText (pieces : List Piece) : List Char := '"' :: (piecesText pieces ++ ['"'])

/-! ## Texts -/

/-- A JSON value as it is written. A collection has white space behind its opening bracket, and each
of its parts has some around it. -/
inductive Node where
  | null
  | bool (b : Bool)
  | number (n : NumberText)
  | string (pieces : List Piece)
  | array (gap : Gap) (items : List (Spaced Node))
  | object (gap : Gap) (members : List (Spaced (List Piece) × Spaced Node))

/-- A JSON text. -/
abbrev Document := Spaced Node

namespace Node

/-- Induction on a JSON value: of a collection a property is shown from that of everything in it. -/
@[elab_as_elim, induction_eliminator]
theorem induction {motive : Node → Prop} (null : motive .null) (bool : ∀ b, motive (.bool b))
    (number : ∀ n, motive (.number n)) (string : ∀ pieces, motive (.string pieces))
    (array : ∀ gap items, (∀ item ∈ items, motive item.inner) → motive (.array gap items))
    (object : ∀ gap members, (∀ m ∈ members, motive m.2.inner) → motive (.object gap members)) :
    ∀ v, motive v
  | .null => null
  | .bool b => bool b
  | .number n => number n
  | .string pieces => string pieces
  | .array gap items =>
    array gap items fun item _ => induction null bool number string array object item.inner
  | .object gap members =>
    object gap members fun m _ => induction null bool number string array object m.2.inner
termination_by v => v
decreasing_by
  · have := List.sizeOf_lt_of_mem ‹item ∈ items›
    obtain ⟨before, v, after⟩ := item
    simp at this ⊢
    omega
  · have := List.sizeOf_lt_of_mem ‹m ∈ members›
    obtain ⟨key, before, v, after⟩ := m
    simp at this ⊢
    omega

mutual

/-- A value in writing. -/
def text : Node → List Char
  | .null => "null".toList
  | .bool true => "true".toList
  | .bool false => "false".toList
  | .number n => n.text
  | .string pieces => stringText pieces
  | .array gap items => '[' :: (gap.chars ++ (itemsText items ++ [']']))
  | .object gap members => '\x7b' :: (gap.chars ++ (membersText members ++ ['\x7d']))

/-- The items of an array, with commas between them. -/
def itemsText : List (Spaced Node) → List Char
  | [] => []
  | ⟨before, v, after⟩ :: items =>
    before.chars ++ (v.text ++ (after.chars ++
      (if items.isEmpty then [] else ',' :: itemsText items)))

/-- The members of an object, each a name and a value with a colon between them. -/
def membersText : List (Spaced (List Piece) × Spaced Node) → List Char
  | [] => []
  | (name, ⟨before, v, after⟩) :: members =>
    name.before.chars ++ (stringText name.inner ++ (name.after.chars ++ (':' ::
      (before.chars ++ (v.text ++ (after.chars ++
        (if members.isEmpty then [] else ',' :: membersText members)))))))

end

mutual

/-- The value that a text denotes. -/
def value : Node → Value
  | .null => .null
  | .bool b => .bool b
  | .number n => .number n.value
  | .string pieces => .string (String.ofList (decode pieces))
  | .array _ items => .sequence (itemValues items)
  | .object _ members => .mapping (Entries.ofList (memberValues members))

def itemValues : List (Spaced Node) → List Value
  | [] => []
  | ⟨_, v, _⟩ :: items => v.value :: itemValues items

def memberValues : List (Spaced (List Piece) × Spaced Node) → List (String × Value)
  | [] => []
  | (name, ⟨_, v, _⟩) :: members =>
    (String.ofList (decode name.inner), v.value) :: memberValues members

end

mutual

/-- How many collections are open at once at most. -/
def depth : Node → Nat
  | .array _ items => itemsDepth items + 1
  | .object _ members => membersDepth members + 1
  | _ => 0

def itemsDepth : List (Spaced Node) → Nat
  | [] => 0
  | ⟨_, v, _⟩ :: items => max v.depth (itemsDepth items)

def membersDepth : List (Spaced (List Piece) × Spaced Node) → Nat
  | [] => 0
  | (_, ⟨_, v, _⟩) :: members => max v.depth (membersDepth members)

end

end Node

def Document.text (d : Document) : List Char := d.before.chars ++ (d.inner.text ++ d.after.chars)

def Document.value (d : Document) : Value := d.inner.value

/-- A small text with its value. -/
example : Document.text ⟨⟨[], rfl⟩, .array ⟨[' '], rfl⟩ [⟨⟨[], rfl⟩, .null, ⟨['\n'], rfl⟩⟩,
    ⟨⟨['\t'], rfl⟩, .string [.escape .tab], ⟨[], rfl⟩⟩], ⟨[], rfl⟩⟩ =
    "[ null\n,\t\"\\t\"]".toList := by decide

end Provision.Json
