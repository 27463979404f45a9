import TreeWalk.Operator
import TreeWalk.Text.Decimal

/-! What can go wrong while a program runs.

A failure is an error of the language: it is a value that ends the run. A fault is a tree that no
source text has; it is reported to whoever put the tree together. The builtins are listed here because
failures name them. -/
namespace TreeWalk

/-- The kinds of values. -/
inductive Kind where
  | integer
  | string
  | boolean
  | null
  | array
  | function
  | builtin
  | signal
  | error
  deriving DecidableEq, Repr

namespace Kind

def name : Kind → String
  | integer => "INTEGER"
  | string => "STRING"
  | boolean => "BOOLEAN"
  | null => "NULL"
  | array => "ARRAY"
  | function => "FUNCTION"
  | builtin => "BUILTIN"
  | signal => "RETURN_VALUE"
  | error => "ERROR"

end Kind

/-- The functions that need no definition. -/
inductive Builtin where
  | length
  | first
  | last
  | push
  | reverse
  | listConcat
  | partition
  | stringConcat
  | parseInt
  | print
  | readline
  deriving DecidableEq, Repr

namespace Builtin

/-- Every builtin. -/
def all : List Builtin :=
  [length, first, last, push, reverse, listConcat, partition, stringConcat, parseInt, print, readline]

/-- The name under which a builtin is displayed. -/
def name : Builtin → String
  | length => "length"
  | first => "list.first"
  | last => "list.last"
  | push => "list.push"
  | reverse => "list.reverse"
  | listConcat => "list.concat"
  | partition => "list.partition"
  | stringConcat => "string.concat"
  | parseInt => "int.parse"
  | print => "print"
  | readline => "readline"

/-- The other names of a builtin. -/
def aliases : Builtin → List String
  | length => ["len", "string.length", "list.length"]
  | first => ["first"]
  | last => ["last"]
  | push => ["push"]
  | reverse => ["reverse"]
  | partition => ["partition"]
  | stringConcat => ["concat"]
  | listConcat | parseInt | print | readline => []

/-- The name that failures use. -/
def shortName : Builtin → String
  | first => "first"
  | last => "last"
  | push => "push"
  | reverse => "reverse"
  | partition => "partition"
  | b => b.name

/-- How many arguments a builtin takes. -/
def arity : Builtin → Nat
  | readline => 0
  | length | first | last | reverse | parseInt | print => 1
  | push | listConcat | partition | stringConcat => 2

/-- All names of all builtins, with what they stand for. -/
def names : List (String × Builtin) :=
  all.flatMap fun b => (b.name :: b.aliases).map (·, b)

/-- The builtin that a name stands for. -/
def ofName? (name : String) : Option Builtin := names.lookup name

end Builtin

/-- An error of the language. -/
inductive Failure where
  | unbound (name : String)
  | repeatedParameter (name : String)
  | notIterable (kind : Kind)
  | sharedLoopName (name : String)
  | loopNameInUse (name : String)
  | divisionByZero
  /-- Two operands of one kind that the operator does not take. -/
  | unknownBinary (kind : Kind) (op : Binary)
  /-- Two operands of different kinds. -/
  | mismatch (left : Kind) (op : Binary) (right : Kind)
  | unknownUnary (op : Unary) (kind : Kind)
  | notIndexable (left index : Kind)
  | notCallable (kind : Kind)
  | wrongCount (expected got : Nat)
  | builtinCount (builtin : Builtin) (got : Nat)
  | builtinArgument (builtin : Builtin) (expected : List Kind) (got : Kind)
  | emptyArray (builtin : Builtin)
  | notVerdict (got : Kind)
  | notNumeral
  | tooDeep
  /-- An error that was made outside of any run. -/
  | given (text : String)
  deriving DecidableEq, Repr

namespace Failure

/-- How many arguments there should be and are. -/
def countText (expected got : Nat) : String :=
  "expected " ++ Decimal.write expected ++ ", got " ++ Decimal.write got

/-- The wording of a failure. -/
def message : Failure → String
  | unbound name => "identifier not found: " ++ name
  | repeatedParameter name => "duplicate parameter: " ++ name
  | notIterable kind => "cannot iterate over " ++ kind.name ++ ": loop source must be an ARRAY"
  | sharedLoopName name => "loop variable and index share the name: " ++ name
  | loopNameInUse name => "loop variable already in use: " ++ name
  | divisionByZero => "division by zero"
  | unknownBinary kind op => "unknown operator: " ++ kind.name ++ " " ++ op.text ++ " " ++ kind.name
  | mismatch left op right => "type mismatch: " ++ left.name ++ " " ++ op.text ++ " " ++ right.name
  | unknownUnary op kind => "unknown operator: " ++ op.text ++ kind.name
  | notIndexable left index =>
    "index operator not supported: " ++ left.name ++ "[" ++ index.name ++ "]"
  | notCallable kind => "not a function: " ++ kind.name
  | wrongCount expected got => "wrong number of arguments: " ++ countText expected got
  | builtinCount b got =>
    "wrong number of arguments to `" ++ b.shortName ++ "`: " ++ countText b.arity got
  | builtinArgument b expected got =>
    "argument to `" ++ b.shortName ++ "` must be " ++ " or ".intercalate (expected.map Kind.name) ++
      ", got " ++ got.name
  | emptyArray b => "`" ++ b.shortName ++ "` called on an empty array"
  | notVerdict got => "`partition` predicate must return BOOLEAN, got " ++ got.name
  | notNumeral => "could not parse integer"
  | tooDeep => "maximum recursion depth exceeded"
  | given text => text

end Failure

/-- The places in a tree where only an identifier may stand. -/
inductive NameSlot where
  | declared
  | assigned
  | loopSource
  | loopElement
  | loopIndex
  | parameter
  deriving DecidableEq, Repr

namespace NameSlot

def text : NameSlot → String
  | declared => "Variable name"
  | assigned => "Assignment target"
  | loopSource => "Loop source"
  | loopElement => "Loop variable"
  | loopIndex => "Loop index"
  | parameter => "Parameter"

end NameSlot

/-- What is wrong with a tree that no source text has. -/
inductive Fault where
  | unknownNode (what : String)
  | unknownLeaf (kind text : String)
  | notIdentifier (slot : NameSlot)
  | bodyNotBlock
  | notNumeral (text : String)
  /-- A known label with another number of children than it takes. -/
  | wrongChildren (expected got : Nat)
  deriving DecidableEq, Repr

namespace Fault

/-- The wording of a fault. -/
def message : Fault → String
  | unknownNode what => "Unknown node: " ++ what
  | unknownLeaf kind text => "Unhandled token " ++ kind ++ ":" ++ text
  | notIdentifier slot => slot.text ++ " must be an identifier"
  | bodyNotBlock => "Function body must be a block"
  | notNumeral text => Decimal.complaint text
  | wrongChildren expected got =>
    if got < expected then
      "not enough values to unpack (expected " ++ Decimal.write expected ++ ", got " ++
        Decimal.write got ++ ")"
    else "too many values to unpack (expected " ++ Decimal.write expected ++ ")"

end Fault

end TreeWalk
