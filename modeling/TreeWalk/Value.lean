import TreeWalk.Code

/-! Values and the operations on them that need no state.

Functions, return signals and errors have an identity, a serial number that nothing else of the same
world has. Equality compares data by content and everything else by identity.

The operations here are what the operators mean. Of the host it is assumed that its integers have no bound
and that its texts are sequences of code points. -/
namespace TreeWalk

/-- A value of the language. -/
inductive Value where
  | int (value : Int)
  | str (value : String)
  | bool (value : Bool)
  | null
  | array (items : List Value)
  /-- A function, with the scope in which its literal was evaluated. -/
  | function (serial : Nat) (params : List String) (body : List Code) (scope : Nat)
  | builtin (builtin : Builtin)
  /-- What `return` makes: a value on its way out. -/
  | signal (serial : Nat) (value : Value)
  | error (serial : Nat) (failure : Failure)
  deriving Repr

namespace Value

instance : Inhabited Value := ⟨null⟩

def kind : Value → Kind
  | int _ => .integer
  | str _ => .string
  | bool _ => .boolean
  | null => .null
  | array _ => .array
  | function .. => .function
  | builtin _ => .builtin
  | signal .. => .signal
  | error .. => .error

/-- Only `false` and `null` are not true (`is_truthy`). -/
def truthy : Value → Bool
  | bool b => b
  | null => false
  | _ => true

/-- Whether a value is a return signal. -/
def isSignal : Value → Bool
  | signal .. => true
  | _ => false

/-- A return signal gives up its value; any other value stays (`unwrap_return`). -/
def unwrap : Value → Value
  | signal _ value => value
  | value => value

mutual

/-- Equality of values: by content for integers, strings, booleans, null and arrays, by identity for
functions, builtins, signals and errors (`_same`). A host goes down the levels of two arrays to find this
out; how deep it can go is no matter of the values and is left to those who have it done. -/
def equal : Value → Value → Bool
  | int a, int b => a = b
  | str a, str b => a = b
  | bool a, bool b => a = b
  | null, null => true
  | array a, array b => equalAll a b
  | function a _ _ _, function b _ _ _ => a = b
  | builtin a, builtin b => a = b
  | signal a _, signal b _ => a = b
  | error a _, error b _ => a = b
  | _, _ => false

/-- Equality of arrays: the same length, and equal values in equal places (`arrays_equal`). -/
def equalAll : List Value → List Value → Bool
  | [], [] => true
  | a :: as, b :: bs => equal a b && equalAll as bs
  | _, _ => false

end

/-- Arithmetic and comparison of integers; division drops the fraction (`_integer_infix`). -/
def binaryInt (op : Binary) (a b : Int) : Except Failure Value :=
  match op with
  | .add => .ok (int (a + b))
  | .subtract => .ok (int (a - b))
  | .multiply => .ok (int (a * b))
  | .divide => if b = 0 then .error .divisionByZero else .ok (int (a.tdiv b))
  | .less => .ok (bool (a < b))
  | .greater => .ok (bool (b < a))
  | .equal => .ok (bool (a = b))
  | .notEqual => .ok (bool (a ≠ b))
  | .other _ => .error (.unknownBinary .integer op)

/-- An operator between two values (`apply_infix_operator`). -/
def binaryOp (op : Binary) (left right : Value) : Except Failure Value :=
  match left, right with
  | int a, int b => binaryInt op a b
  | str a, str b =>
    match op with
    | .add => .ok (str (a ++ b))
    | .equal => .ok (bool (a = b))
    | _ => .error (.unknownBinary .string op)
  | array a, array b =>
    match op with
    | .add => .ok (array (a ++ b))
    | .equal => .ok (bool (equalAll a b))
    | _ => .error (.unknownBinary .array op)
  | left, right =>
    match op with
    | .equal => .ok (bool (equal left right))
    | .notEqual => .ok (bool (!equal left right))
    | _ =>
      if left.kind = right.kind then .error (.unknownBinary left.kind op)
      else .error (.mismatch left.kind op right.kind)

/-- An operator before a value (`apply_prefix_operator`). -/
def unaryOp (op : Unary) (right : Value) : Except Failure Value :=
  match op, right with
  | .not, right => .ok (bool (!right.truthy))
  | .negate, int n => .ok (int (-n))
  | op, right => .error (.unknownUnary op right.kind)

/-- The element of an array at an index that counts from zero, or null outside (`index_value`). -/
def at? (left index : Value) : Except Failure Value :=
  match left, index with
  | array items, int i => .ok (if 0 ≤ i then items[i.toNat]?.getD null else null)
  | left, index => .error (.notIndexable left.kind index.kind)

/-- A result as a value: a failure becomes an error with a given identity. -/
def ofResult (serial : Nat) : Except Failure Value → Value
  | .ok value => value
  | .error failure => error serial failure

end Value

end TreeWalk
