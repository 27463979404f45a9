import TreeWalk.Grammar
import TreeWalk.Lexeme

/-! Derivations: how a row of lexemes comes from a phrase by the rules.

A derivation keeps every lexeme and every rule used. `forest` forgets what the displayed tree does not
show: punctuation, keywords, and the rules that only pass their part on. -/
namespace TreeWalk

/-- A use of the rules down to lexemes. -/
inductive Derivation where
  | leaf (lexeme : Lexeme)
  | node (rule : Rule) (children : List Derivation)
  deriving Repr

namespace Terminal

/-- The terminals whose lexemes stay in the tree: names, literals and operators. -/
def kept : Terminal → Bool
  | identifier | integer | string | trueWord | falseWord => true
  | equalTo | notEqual | less | greater | plus | minus | star | slash | bang => true
  | _ => false

end Terminal

namespace Lexeme

/-- What the character after a backslash stands for. -/
def escaped : Char → Char
  | 'n' => '\n'
  | 't' => '\t'
  | c => c

/-- Replaces escapes; a backslash at the very end stays. -/
def unescape : List Char → List Char
  | '\\' :: c :: rest => escaped c :: unescape rest
  | c :: rest => c :: unescape rest
  | [] => []

/-- A text without the double quotes around it, if it has both. -/
def unquote : List Char → List Char
  | '"' :: rest => if rest.getLast? = some '"' then rest.dropLast else '"' :: rest
  | cs => cs

/-- The text that a string literal denotes. -/
def stringValue (literal : String) : String := String.ofList (unescape (unquote literal.toList))

/-- The text that the leaf of a lexeme holds: a string has its value, all else its spelling. -/
def leafText (lexeme : Lexeme) : String :=
  if lexeme.kind = .string then stringValue lexeme.text else lexeme.text

/-- The trees of one lexeme: a leaf if it is kept, none otherwise. -/
def trees (lexeme : Lexeme) : List Tree :=
  if lexeme.kind.kept then [.leaf (.terminal lexeme.kind) lexeme.leafText] else []

end Lexeme

namespace Derivation

/-- The symbol that a derivation starts from. -/
def symbol : Derivation → Symbol
  | leaf lexeme => .t lexeme.kind
  | node rule _ => .p rule.head

mutual

/-- The trees that a derivation makes. -/
def forest : Derivation → List Tree
  | leaf lexeme => lexeme.trees
  | node rule children => rule.shape.build (forests children)

/-- The trees that derivations in a row make. -/
def forests : List Derivation → List Tree
  | [] => []
  | d :: ds => forest d ++ forests ds

end

/-- The tree of a whole program. -/
def tree (d : Derivation) : Tree := d.forest.head?.getD .absent

end Derivation

end TreeWalk
