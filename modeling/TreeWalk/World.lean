import TreeWalk.ParseError
import TreeWalk.Text.Lines
import TreeWalk.Value.Display

/-! Scopes, and everything else that a run can change.

Scopes are never given up and are known by their numbers. A scope may have an outer scope, which is
always an older one; names are looked up outwards and bound in the innermost scope only.

Objects of the host that can be told apart, such as functions and errors, carry a serial number here. Of the
host it is assumed that it gives out the memory that is asked for, that everything printed arrives in order,
and that its input is a text. -/
namespace TreeWalk

/-- Names bound in one place, and the scope around it (`Environment`). -/
structure Scope where
  outer : Option Nat
  bindings : List (String × Value)
  deriving Repr

namespace Scope

/-- A scope without bindings. -/
def empty (outer : Option Nat) : Scope := ⟨outer, []⟩

/-- What a name is bound to in this scope itself. -/
def get? (scope : Scope) (name : String) : Option Value := scope.bindings.lookup name

/-- Changes the binding of a name, or adds one. -/
def put (name : String) (value : Value) : List (String × Value) → List (String × Value)
  | [] => [(name, value)]
  | (other, old) :: rest =>
    if other = name then (other, value) :: rest else (other, old) :: put name value rest

/-- Binds a name in this scope. -/
def set (scope : Scope) (name : String) (value : Value) : Scope :=
  { scope with bindings := put name value scope.bindings }

/-- The names bound in this scope itself, in order. -/
def names (scope : Scope) : List String := (scope.bindings.map Prod.fst).mergeSort (· ≤ ·)

/-- One line about a scope. -/
def describe (scope : Scope) : String :=
  "<Environment names=[" ++ ", ".intercalate (scope.names.map Text.quoted) ++ "] nested=" ++
    (if scope.outer.isSome then "True" else "False") ++ ">"

end Scope

/-- An event for the diagnostic log. -/
inductive Note where
  | parseFailed (error : ParseError)
  | wrongCount (params : List String) (got : Nat)
  | depthReached (what : String)
  | environmentReset
  | loading (path : String)
  deriving Repr

namespace Note

/-- A line or column in a note. -/
def placeText : Option Int → String
  | some n => Decimal.write n
  | none => "None"

/-- The line that is logged. -/
def line : Note → String
  | parseFailed e =>
    "DEBUG kite.parse_auto: parse failed at " ++ placeText e.line ++ ":" ++ placeText e.column ++
      ": " ++ e.message
  | wrongCount params got =>
    "DEBUG kite.runtime: arity mismatch calling <function params=" ++ Value.paramsText params ++
      "> with " ++ Decimal.write got ++ " args"
  | depthReached what => "DEBUG kite.evaluator: recursion limit hit while evaluating " ++ what
  | environmentReset => "DEBUG kite.repl: repl environment reset"
  | loading path => "DEBUG kite.repl: repl loading " ++ path

end Note

/-- The state of a run. -/
structure World where
  scopes : Array Scope
  /-- The identity that the next function, signal or error gets. -/
  nextSerial : Nat
  /-- The input that has not been read yet. -/
  input : List Char
  /-- What has been printed. -/
  output : String
  /-- What has been logged, in order. -/
  notes : List Note
  deriving Repr

namespace World

/-- A world without scopes, with input to read. -/
def start (input : String) : World := ⟨#[], 0, input.toList, "", []⟩

/-- Adds a scope; its number is the number of scopes before. -/
def addScope (world : World) (scope : Scope) : Nat × World :=
  (world.scopes.size, { world with scopes := world.scopes.push scope })

/-- Binds a name in a scope (`Environment.set`). -/
def bind (world : World) (scope : Nat) (name : String) (value : Value) : World :=
  match world.scopes[scope]? with
  | some s => { world with scopes := world.scopes.setIfInBounds scope (s.set name value) }
  | none => world

/-- What a name is bound to in a scope itself, not around it (`Environment.has_local` asks whether there is
anything). -/
def boundIn (world : World) (scope : Nat) (name : String) : Option Value :=
  (world.scopes[scope]?).bind (·.get? name)

/-- What a name is bound to in a scope or, failing that, in the nearest scope around it
(`Environment.get`). -/
def find? (world : World) (name : String) (scope : Nat) : Option Value :=
  match world.scopes[scope]? with
  | none => none
  | some s =>
    match s.get? name with
    | some value => some value
    | none =>
      match s.outer with
      | some outer => if outer < scope then world.find? name outer else none
      | none => none
termination_by scope

/-- Takes the next serial number. -/
def takeSerial (world : World) : Nat × World :=
  (world.nextSerial, { world with nextSerial := world.nextSerial + 1 })

/-- Prints a line (`std_print`). -/
def print (world : World) (text : String) : World :=
  { world with output := world.output ++ text ++ "\n" }

/-- Reads a line of input (`std_readline`); there is always an empty one after the last. -/
def readLine (world : World) : String × World :=
  let (line, rest) := Text.takeLine world.input
  (String.ofList line, { world with input := rest })

/-- Logs an event. -/
def log (world : World) (note : Note) : World :=
  { world with notes := world.notes ++ [note] }

end World

end TreeWalk
