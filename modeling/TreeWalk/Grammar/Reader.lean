import TreeWalk.Derivation
import TreeWalk.Grammar.Automaton

/-! Reading lexemes with an automaton.

The reader keeps a stack of what it has read so far: lexemes and derivations, each with the state it
led to. Before a lexeme is taken, the rules that are complete and may be followed by it are applied.
A lexeme that cannot be taken then is refused, with the terminals that the state has a use for. -/
namespace TreeWalk.Grammar

/-- Something that has been read, and the state it led to. -/
structure Frame where
  state : Nat
  derivation : Derivation
  deriving Repr

/-- What has been read so far, the latest first. -/
abbrev Stack := List Frame

variable (states : Array State)

namespace Stack

/-- The state that the stack has reached. -/
def state (stack : Stack) : State := states[(stack.head?.map Frame.state).getD 0]?.getD ⟨[], []⟩

/-- Applies a rule to the latest frames. -/
def reduce? (stack : Stack) (rule : Rule) : Option Stack :=
  let size := rule.body.length
  let rest : Stack := stack.drop size
  ((rest.state states).move? (.p rule.head)).map fun target =>
    ⟨target, .node rule ((stack.take size).reverse.map Frame.derivation)⟩ :: rest

/-- Applies complete rules, as long as a given terminal may follow them. -/
def reduceFor (t : Terminal) : Nat → Stack → Stack
  | 0, stack => stack
  | fuel + 1, stack =>
    match ((stack.state states).reduction? t).bind (stack.reduce? states) with
    | none => stack
    | some stack => reduceFor t fuel stack

/-- A bound on how many rules can be applied before the next lexeme is taken: each frame passes
through the ladder of expressions and statements at most once. -/
def patience (stack : Stack) : Nat := 32 * (stack.length + 2)

/-- Takes a lexeme, or tells which terminals are expected. -/
def take (stack : Stack) (lexeme : Lexeme) : Except (List Terminal) Stack :=
  let ready := stack.reduceFor states lexeme.kind stack.patience
  match (ready.state states).move? (.t lexeme.kind) with
  | some target => .ok (⟨target, .leaf lexeme⟩ :: ready)
  | none => .error (ready.state states).expected

end Stack

/-- The first lexeme that is refused, and what was expected in its place. -/
structure Refusal where
  lexeme : Lexeme
  expected : List Terminal
  deriving Repr

/-- Takes lexemes one after the other. -/
def takeAll (stack : Stack) : List Lexeme → Except Refusal Stack
  | [] => .ok stack
  | lexeme :: lexemes =>
    match stack.take states lexeme with
    | .ok stack => takeAll stack lexemes
    | .error expected => .error ⟨lexeme, expected⟩

/-- The end of the input as a lexeme: it has no text and stands where the last lexeme starts. -/
def endLexeme (lexemes : List Lexeme) : Lexeme :=
  let place := (lexemes.getLast?.map Lexeme.first).getD .start
  ⟨.endOfInput, "", place, place⟩

/-- The derivation of the program below the end of the input. -/
def program? : Stack → Option Derivation
  | _ :: frame :: _ => some frame.derivation
  | _ => none

end TreeWalk.Grammar
