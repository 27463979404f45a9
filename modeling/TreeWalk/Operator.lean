/-! Operators by their text.

A tree may hold any text where an operator belongs, so beside the operators of the language there is
one case for every other text. Texts and operators correspond one to one. -/
namespace TreeWalk

/-- An operator between two operands. -/
inductive Binary where
  | add
  | subtract
  | multiply
  | divide
  | less
  | greater
  | equal
  | notEqual
  | other (text : String)
  deriving DecidableEq, Repr

namespace Binary

/-- The operator that a text names. -/
def ofText : String → Binary
  | "+" => add
  | "-" => subtract
  | "*" => multiply
  | "/" => divide
  | "<" => less
  | ">" => greater
  | "==" => equal
  | "!=" => notEqual
  | text => other text

/-- The text of an operator. -/
def text : Binary → String
  | add => "+"
  | subtract => "-"
  | multiply => "*"
  | divide => "/"
  | less => "<"
  | greater => ">"
  | equal => "=="
  | notEqual => "!="
  | other text => text

@[simp] theorem text_ofText (s : String) : (ofText s).text = s := by
  unfold ofText
  split <;> rfl

end Binary

/-- An operator before its operand. -/
inductive Unary where
  | not
  | negate
  | other (text : String)
  deriving DecidableEq, Repr

namespace Unary

/-- The operator that a text names. -/
def ofText : String → Unary
  | "!" => not
  | "-" => negate
  | text => other text

/-- The text of an operator. -/
def text : Unary → String
  | not => "!"
  | negate => "-"
  | other text => text

@[simp] theorem text_ofText (s : String) : (ofText s).text = s := by
  unfold ofText
  split <;> rfl

end Unary

end TreeWalk
