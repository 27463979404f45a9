import TreeWalk.Terminal

/-! Lexemes and how a source text is split into them.

At each place the first of these that matches is taken, as long as it goes: a word, a string, a run of
white space, a comment, a numeral, a comparison of two characters, a single character. White space and
comments are dropped. Splitting stops at the first character where nothing matches. -/
namespace TreeWalk

/-- A place in a source text; lines and columns count from one, and columns count characters. -/
structure Place where
  line : Nat
  column : Nat
  deriving DecidableEq, Repr

namespace Place

/-- Where a text starts. -/
def start : Place := ⟨1, 1⟩

/-- The place after one more character: only a line feed starts a new line. -/
def after (place : Place) (c : Char) : Place :=
  if c = '\n' then ⟨place.line + 1, 1⟩ else ⟨place.line, place.column + 1⟩

/-- The place after a text. -/
def afterAll (place : Place) (cs : List Char) : Place := cs.foldl after place

end Place

/-- A piece of source text that stands for one terminal. -/
structure Lexeme where
  kind : Terminal
  text : String
  first : Place
  /-- The place just after the last character. -/
  past : Place
  deriving DecidableEq, Repr

namespace Lexeme

/-- What a piece of source text is: something to drop, or a lexeme. -/
inductive Piece where
  | gap
  | lexeme (kind : Terminal)
  deriving DecidableEq, Repr

/-- A character that a word, or a part of it after a dot, can start with. -/
def startsWord (c : Char) : Bool := c.isAlpha || c = '_'

/-- A character that continues a word. -/
def continuesWord (c : Char) : Bool := c.isAlphanum || c = '_'

/-- White space between lexemes. -/
def isGap (c : Char) : Bool := c = ' ' || c = '\t' || c = '\x0c' || c = '\r' || c = '\n'

/-- How far a word goes on: letters, digits and underscores, and dots that a new part follows. -/
def wordLength : List Char → Nat
  | [] => 0
  | '.' :: c :: rest => if startsWord c then wordLength rest + 2 else 0
  | c :: rest => if continuesWord c then wordLength rest + 1 else 0

/-- How far a string goes on after its opening quote, the closing quote included. A backslash takes
the next character with it, and neither may be a line feed. -/
def stringLength : List Char → Option Nat
  | [] => none
  | '"' :: _ => some 1
  | '\n' :: _ => none
  | '\\' :: c :: rest => if c = '\n' then none else (stringLength rest).map (· + 2)
  | ['\\'] => none
  | _ :: rest => (stringLength rest).map (· + 1)

/-- How many characters in a row belong to a class. -/
def runLength (p : Char → Bool) (cs : List Char) : Nat := (cs.takeWhile p).length

/-- The piece at the start of a text and its length, which is never zero. -/
def piece? : List Char → Option (Piece × Nat)
  | [] => none
  | c :: rest =>
    if startsWord c then
      let size := wordLength rest + 1
      some (.lexeme (Terminal.ofWord (String.ofList ((c :: rest).take size))), size)
    else if c = '"' then (stringLength rest).map fun size => (.lexeme .string, size + 1)
    else if isGap c then some (.gap, runLength isGap rest + 1)
    else if c = '/' && rest.head? = some '/' then some (.gap, runLength (· ≠ '\n') rest + 1)
    else if c.isDigit then some (.lexeme .integer, runLength Char.isDigit rest + 1)
    else if c = '=' && rest.head? = some '=' then some (.lexeme .equalTo, 2)
    else if c = '!' && rest.head? = some '=' then some (.lexeme .notEqual, 2)
    else (Terminal.ofChar? c).map fun kind => (.lexeme kind, 1)

/-- A character where no lexeme starts, and its place. -/
structure BadChar where
  char : Char
  place : Place
  deriving DecidableEq, Repr

/-- The lexemes of a text up to its end or to the first bad character. -/
structure Scan where
  lexemes : List Lexeme
  bad : Option BadChar
  deriving DecidableEq, Repr

theorem piece?_pos {cs : List Char} {piece : Piece} {size : Nat} (found : piece? cs = some (piece, size)) :
    0 < size := by
  cases cs with
  | nil => simp [piece?] at found
  | cons c rest =>
    simp only [piece?] at found
    split at found
    · simp only [Option.some.injEq, Prod.mk.injEq] at found; omega
    split at found
    · simp only [Option.map_eq_some_iff, Prod.mk.injEq] at found
      obtain ⟨_, _, _, rfl⟩ := found
      omega
    split at found
    · simp only [Option.some.injEq, Prod.mk.injEq] at found; omega
    split at found
    · simp only [Option.some.injEq, Prod.mk.injEq] at found; omega
    split at found
    · simp only [Option.some.injEq, Prod.mk.injEq] at found; omega
    split at found
    · simp only [Option.some.injEq, Prod.mk.injEq] at found; omega
    split at found
    · simp only [Option.some.injEq, Prod.mk.injEq] at found; omega
    simp only [Option.map_eq_some_iff, Prod.mk.injEq] at found
    obtain ⟨_, _, _, rfl⟩ := found
    omega

/-- Splits the text that starts at a place. -/
def scanFrom (place : Place) (cs : List Char) : Scan :=
  match cs with
  | [] => ⟨[], none⟩
  | c :: rest =>
    match found : piece? (c :: rest) with
    | none => ⟨[], some ⟨c, place⟩⟩
    | some (piece, size) =>
      have : 0 < size := piece?_pos found
      let taken := (c :: rest).take size
      let next := place.afterAll taken
      let scan := scanFrom next ((c :: rest).drop size)
      match piece with
      | .gap => scan
      | .lexeme kind => ⟨⟨kind, String.ofList taken, place, next⟩ :: scan.lexemes, scan.bad⟩
termination_by cs.length
decreasing_by
  simp only [List.length_drop, List.length_cons]
  omega

/-- Splits a source text. -/
def scan (source : String) : Scan := scanFrom .start source.toList

/-- How many brackets lexemes leave open; a closing bracket with none open counts for nothing. -/
def openCount (lexemes : List Lexeme) : Nat :=
  lexemes.foldl (fun depth lexeme =>
    if lexeme.kind.opens then depth + 1 else if lexeme.kind.closes then depth - 1 else depth) 0

/-- How many brackets a source leaves open; none if it does not split into lexemes. -/
def openDepth (source : String) : Nat :=
  let scan := scan source
  if scan.bad.isSome then 0 else openCount scan.lexemes

end Lexeme

end TreeWalk
