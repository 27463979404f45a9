import TreeWalk.Grammar.Reader
import TreeWalk.ParseError

/-! From source text to tree.

The text is split into lexemes, which the reader takes one by one. A refused lexeme is reported before
a bad character that comes later, as if the text were split only as far as it has been read. -/
namespace TreeWalk

open Grammar

namespace ParseError

/-- The report of a refused lexeme or of the end of the input. -/
def ofRefusal (refusal : Refusal) : ParseError :=
  let lexeme := refusal.lexeme
  let expected := refusal.expected.map Terminal.name
  let complaint :=
    if lexeme.kind = .endOfInput then .endOfInput expected else .lexeme lexeme.text expected
  report complaint (some lexeme.first.line) (some lexeme.first.column) (some lexeme.past.line)
    (some lexeme.past.column)

/-- The report of a bad character. -/
def ofBadChar (bad : Lexeme.BadChar) : ParseError :=
  report (.character bad.char) (some bad.place.line) (some bad.place.column) none none

end ParseError

/-- The derivation of a program from its lexemes, if the automaton finds one. -/
def derive (states : Array State) (scan : Lexeme.Scan) : Except ParseError Derivation :=
  match takeAll states [] scan.lexemes with
  | .error refusal => .error (.ofRefusal refusal)
  | .ok stack =>
    match scan.bad with
    | some bad => .error (.ofBadChar bad)
    | none =>
      match takeAll states stack [endLexeme scan.lexemes] with
      | .error refusal => .error (.ofRefusal refusal)
      | .ok stack =>
        match program? stack with
        | some derivation => .ok derivation
        | none => .error (.ofRefusal ⟨endLexeme scan.lexemes, []⟩)

/-- The tree of a source text, or why there is none. -/
def parse (source : String) : Except ParseError Tree :=
  (derive automaton (Lexeme.scan source)).map Derivation.tree

end TreeWalk
