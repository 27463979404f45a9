import TreeWalk.Text.Decimal

/-! Why a source text is refused, and where.

A complaint is the cause; its message is the only place where the wording is fixed. A parse error adds
the place where the trouble starts and where it ends. -/
namespace TreeWalk

/-- The cause of a refusal. Expected terminals are given by name. -/
inductive Complaint where
  /-- A lexeme that cannot stand where it stands. -/
  | lexeme (text : String) (expected : List String)
  /-- The text ends too early. -/
  | endOfInput (expected : List String)
  /-- A character where no lexeme starts. -/
  | character (c : Char)
  /-- Any other cause, in its own words. -/
  | other (text : String)
  deriving DecidableEq, Repr

namespace Complaint

/-- The names of the expected terminals in order, if there are any. -/
def expectation (expected : List String) : String :=
  if expected.isEmpty then ""
  else "; expected one of: " ++ ", ".intercalate (expected.mergeSort (· ≤ ·))

/-- The wording of a complaint. -/
def message : Complaint → String
  | lexeme text expected => "Unexpected token " ++ Text.quoted text ++ expectation expected
  | endOfInput expected => "Unexpected end of input" ++ expectation expected
  | character c => "Unexpected character " ++ Text.quoted (String.singleton c)
  | other text => text

end Complaint

/-- A message with the lines and columns it is about, as far as they are known. -/
structure ParseError where
  message : String
  line : Option Int
  column : Option Int
  endLine : Option Int
  endColumn : Option Int
  deriving DecidableEq, Repr

namespace ParseError

/-- The message, followed by where the trouble starts. -/
def text (e : ParseError) : String :=
  match e.line, e.column with
  | none, _ => e.message
  | some line, none => e.message ++ " (line " ++ Decimal.write line ++ ")"
  | some line, some column =>
    e.message ++ " (line " ++ Decimal.write line ++ ", col " ++ Decimal.write column ++ ")"

/-- A line or column that is known; negative numbers stand for unknown ones. -/
def known (n : Option Int) : Option Int := n.filter (0 ≤ ·)

/-- A complaint with its place. Only a lexeme has an end of its own; where the line of the end is not
known, the trouble is one column wide. -/
def report (complaint : Complaint) (line column endLine endColumn : Option Int) : ParseError :=
  let line := known line
  let column := known column
  let (endLine, endColumn) :=
    match complaint with
    | .lexeme .. => (known endLine, known endColumn)
    | _ => (none, none)
  match endLine, line, column with
  | none, some l, some c => ⟨complaint.message, line, column, some l, some (c + 1)⟩
  | _, _, _ => ⟨complaint.message, line, column, endLine, endColumn⟩

end ParseError

end TreeWalk
