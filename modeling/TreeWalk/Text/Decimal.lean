import TreeWalk.Text.Blank
import TreeWalk.Text.Digit
import TreeWalk.Text.Quoted

/-! Integers as decimal text, of any length.

Two forms are read. The grouped form has digits of any script, single underscores between digits and
at most `groupedLimit` digits; the plain form has ASCII digits only, without a limit. Either may have
one sign and stand between blanks. Long numerals are read and written by blocks of `blockSize` digits,
so that most of the work is done on short numbers. -/
namespace TreeWalk.Decimal

open TreeWalk.Text

/-- The most digits a numeral in grouped form has. -/
def groupedLimit : Nat := 4300

/-- How many digits of a long numeral are converted together. -/
def blockSize : Nat := 1000

/-- One with a given number of zeros. -/
def tenTo (n : Nat) : Nat := Nat.pow 10 n

theorem one_lt_tenTo {n : Nat} (positive : 0 < n) : 1 < tenTo n :=
  Nat.one_lt_pow (by omega) (by omega)

/-- The number that digits denote, most significant first. -/
def ofDigits (digits : List Nat) : Nat :=
  digits.foldl (fun n digit => 10 * n + digit) 0

/-- Extends the number read so far by the digits that follow, block by block. -/
def extendByBlocks (n : Nat) (digits : List Nat) : Nat :=
  if digits.isEmpty then n
  else
    let block := digits.take blockSize
    extendByBlocks (n * tenTo block.length + ofDigits block) (digits.drop blockSize)
termination_by digits.length
decreasing_by
  rename_i filled
  have : digits.length ≠ 0 := by simpa [List.isEmpty_iff] using filled
  simp only [List.length_drop, blockSize]
  omega

/-- The number that digits denote, read by blocks. -/
def ofBlocks (digits : List Nat) : Nat := extendByBlocks 0 digits

/-- An optional sign and what follows it; the flag tells a minus. -/
def splitSign : List Char → Bool × List Char
  | '-' :: rest => (true, rest)
  | '+' :: rest => (false, rest)
  | cs => (false, cs)

/-- The integer with a given sign and size. -/
def signed (minus : Bool) (n : Nat) : Int := if minus then -(n : Int) else n

/-- Digits of any script with single underscores between them. -/
def groupedDigits : List Char → Option (List Nat)
  | [] => none
  | [c] => (digit? c).map ([·])
  | c :: '_' :: rest => do return (← digit? c) :: (← groupedDigits rest)
  | c :: rest => do return (← digit? c) :: (← groupedDigits rest)

/-- Reads the grouped form. -/
def readGrouped (cs : List Char) : Option Int := do
  let (minus, body) := splitSign (strip isSpacing cs)
  let digits ← groupedDigits body
  if digits.length ≤ groupedLimit then some (signed minus (ofDigits digits)) else none

/-- Reads the plain form. -/
def readPlain (cs : List Char) : Option Int := do
  let (minus, body) := splitSign (trim cs)
  let digits ← body.mapM asciiDigit?
  if digits.isEmpty then none else some (signed minus (ofBlocks digits))

/-- The integer a text denotes, in either form. -/
def read? (text : String) : Option Int :=
  (readGrouped text.toList).or (readPlain text.toList)

/-- Whether a text has the plain form, from left to right: blanks, one sign or none, digits, blanks. -/
def isPlain (cs : List Char) : Bool :=
  let body := (splitSign (cs.dropWhile isBlank)).2
  !(body.takeWhile Char.isDigit).isEmpty && (body.dropWhile Char.isDigit).all isBlank

/-- The integer that a text in plain form denotes; any other text is refused, the grouped form as well. -/
def readStrictly? (text : String) : Option Int :=
  if isPlain text.toList then read? text else none

/-- What is said of a text that is no numeral: its first twenty characters are shown. -/
def complaint (text : String) : String :=
  "invalid decimal literal: " ++ quoted (String.ofList (text.toList.take 20))

/-- The digits of a number, most significant first and without leading zeros. -/
def digits (n : Nat) : List Char := Nat.toDigits 10 n

/-- The digits of a number below `tenTo width`, filled up with zeros to that width. -/
def padded (width n : Nat) : List Char :=
  List.replicate (width - (digits n).length) '0' ++ digits n

/-- The blocks of a number, the lowest one first; zero has none. -/
def blocks (n : Nat) : List Nat :=
  if n = 0 then [] else n % tenTo blockSize :: blocks (n / tenTo blockSize)
termination_by n
decreasing_by
  exact Nat.div_lt_self (by omega) (one_lt_tenTo (by decide))

/-- The digits of a number from its blocks: all of them but the highest one are filled up with zeros. -/
def blockDigits (n : Nat) : List Char :=
  match (blocks n).reverse with
  | [] => []
  | head :: rest => digits head ++ rest.flatMap (padded blockSize)

/-- Digits with the sign of an integer before them: a minus for a negative one. -/
def withSign (n : Int) (digits : List Char) : String :=
  String.ofList (if n < 0 then '-' :: digits else digits)

/-- The text of an integer, written by blocks. -/
def writeByBlocks (n : Int) : String := withSign n (blockDigits n.natAbs)

/-- The decimal text of an integer, without leading zeros: digit by digit up to the limit of the grouped
form, by blocks beyond. -/
def write (n : Int) : String :=
  if n.natAbs < tenTo groupedLimit then withSign n (digits n.natAbs) else writeByBlocks n

end TreeWalk.Decimal
