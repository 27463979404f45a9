/-! Blank characters and the pieces of a text they separate.

`isBlank` is the class that trimming and splitting into words use. `isSpacing` is the smaller class
that may stand around a numeral: it leaves out the four information separators. -/
namespace TreeWalk.Text

/-- The characters that trimming removes: the ASCII controls from tab to carriage return, the four
information separators, space, next line and the spaces and separators of Unicode. -/
def isBlank (c : Char) : Bool :=
  let n := c.toNat
  (9 ≤ n && n ≤ 13) || (28 ≤ n && n ≤ 32) || n == 0x85 || n == 0xA0 || n == 0x1680 ||
    (0x2000 ≤ n && n ≤ 0x200A) || n == 0x2028 || n == 0x2029 || n == 0x202F || n == 0x205F ||
    n == 0x3000

/-- The blanks that may surround a numeral: all of them but the information separators. -/
def isSpacing (c : Char) : Bool :=
  isBlank c && !(28 ≤ c.toNat && c.toNat ≤ 31)

/-- What is left of a text once the members of a class are taken off both ends. -/
def strip (p : Char → Bool) (cs : List Char) : List Char :=
  ((cs.dropWhile p).reverse.dropWhile p).reverse

/-- A text without the blanks at its two ends. -/
def trim (cs : List Char) : List Char := strip isBlank cs

/-- The first word of a trimmed text, and what follows the blanks after it. -/
def firstWord (cs : List Char) : List Char × List Char :=
  let notBlank := fun c => !isBlank c
  (cs.takeWhile notBlank, (cs.dropWhile notBlank).dropWhile isBlank)

end TreeWalk.Text
