/-!
# Character classes

Two sets of characters that readers and writers tell apart: white space, which separates words and
is trimmed from the ends of lines, and control characters, which a writer never shows as they are.
-/

namespace Provision.Text

/-- A character with the Unicode property White_Space. -/
def isSpace (c : Char) : Bool :=
  let n := c.toNat
  (9 ≤ n && n ≤ 13) || n == 0x20 || n == 0x85 || n == 0xA0 || n == 0x1680 ||
    (0x2000 ≤ n && n ≤ 0x200A) || n == 0x2028 || n == 0x2029 || n == 0x202F || n == 0x205F ||
    n == 0x3000

/-- A control character: one of the Unicode category Cc. -/
def isControl (c : Char) : Bool :=
  c.toNat < 0x20 || (0x7F ≤ c.toNat && c.toNat < 0xA0)

/-- A character that is shown is no control character. -/
theorem ne_of_visible {c x : Char} (h : isControl c = false) (control : isControl x = true) :
    c ≠ x := by
  rintro rfl
  rw [h] at control
  cases control

/-- The text without the white space at its end. -/
def trimEnd (cs : List Char) : List Char :=
  (cs.reverse.dropWhile isSpace).reverse

end Provision.Text
