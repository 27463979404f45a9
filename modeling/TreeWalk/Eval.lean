import TreeWalk.Plan

/-! How code runs.

A run works on a world and ends with a value, with an error of the language, with a fault in a tree, or
because it went too deep; in each case the world keeps what was done before. Errors are not caught
anywhere: the first one ends the run. A `return` makes a signal, which ends the blocks and loops around
it and gives up its value at the end of a function or a program; anywhere else it is a value like any
other.

`step` is the plan of one node of code, `applyStep` that of one application and `combine` that of one
operation; what they ask for is code below the node, code in the body of a function, another application,
or the comparison of two elements. `perform` carries these plans out, with a bound on the depth.

The handlers hand an error back as a value and test for it after each step. Here it stops the plan, which
comes to the same. Of the host it is assumed that it cuts off what nests too deep, that the cut is not
caught on its way out, and that it writes and reads lines without fail. -/
namespace TreeWalk

namespace Plan

/-- A result of an operation; its failure ends the run. -/
def ofResult : Except Failure Value → Plan Value
  | .ok value => pure value
  | .error failure => fail failure

/-- A value that is an error ends the run. -/
def settle : Value → Plan Value
  | .error serial failure => stop (.failed serial failure)
  | value => pure value

/-- The value of a name (`eval_identifier`): bindings come before builtins. -/
def lookup (scope : Nat) (name : String) : Plan Value := do
  match ← find name scope with
  | some value => pure value
  | none =>
    match Builtin.ofName? name with
    | some b => pure (.builtin b)
    | none => fail (.unbound name)

/-- Runs statements until one makes a signal; the value is that of the last one run (`eval_block`). -/
def sequence (scope : Nat) (last : Value) : List Code → Plan Value
  | [] => pure last
  | code :: rest => do
    let value ← run code scope
    if value.isSignal then pure value else sequence scope value rest

/-- Runs code from left to right and adds the values to those collected so far, the latest first. -/
def collectAfter (scope : Nat) (values : List Value) : List Code → Plan (List Value)
  | [] => pure values.reverse
  | code :: rest => do collectAfter scope ((← run code scope) :: values) rest

/-- Runs code from left to right and collects the values (`eval_expressions`). -/
def collect (scope : Nat) (codes : List Code) : Plan (List Value) := collectAfter scope [] codes

/-- Fails at the first of the names that is already bound in a scope or around it. -/
def requireUnbound (scope : Nat) : List String → Plan Unit
  | [] => pure ()
  | name :: names => do
    if (← find name scope).isSome then fail (.loopNameInUse name) else requireUnbound scope names

/-- The elements that a loop goes through, once it may begin: the part of `eval_for_stmt` before its first
pass. -/
def loopItems (scope : Nat) (source element : String) (index : Option String) : Plan (List Value) := do
  match ← find source scope with
  | none => fail (.unbound source)
  | some (.array items) =>
    if index = some element then fail (.sharedLoopName element)
    else do
      requireUnbound scope (element :: index.toList)
      return items
  | some value => fail (.notIterable value.kind)

/-- Binds names one after the other. -/
def assignAll (scope : Nat) : List (String × Value) → Plan Unit
  | [] => pure ()
  | (name, value) :: rest => do
    assign scope name value
    assignAll scope rest

/-- What the names of a loop stand for in one pass: the index, if it has one, and the element. -/
def loopBindings (element : String) (index : Option String) (count : Nat) (item : Value) :
    List (String × Value) :=
  (index.map fun name => (name, .int count)).toList ++ [(element, item)]

/-- Runs the body of a loop once for each element, until a signal is made: the passes of `eval_for_stmt`. -/
def passes (scope : Nat) (element : String) (index : Option String) (body : List Code) :
    Nat → List Value → Plan Value
  | _, [] => pure .null
  | count, item :: items => do
    assignAll scope (loopBindings element index count item)
    let value ← sequence scope .null body
    if value.isSignal then pure value else passes scope element index body (count + 1) items

/-- Runs the body of a function in a scope of its own, with the parameters bound to arguments
(`_call_ktfn`). -/
def enter (params : List String) (body : List Code) (outer : Nat) (args : List Value) : Plan Value := do
  let scope ← addScope ⟨some outer, params.zip args⟩
  return (← sequence scope .null body).unwrap

/-- Divides values by the verdict of a predicate, in order, and adds them to those divided so far, the
latest first. -/
def splitAfter (predicate : Value) (matched others : List Value) :
    List Value → Plan (List Value × List Value)
  | [] => pure (matched.reverse, others.reverse)
  | item :: items => do
    match ← call predicate [item] >>= settle with
    | .bool true => splitAfter predicate (item :: matched) others items
    | .bool false => splitAfter predicate matched (item :: others) items
    | value => fail (.notVerdict value.kind)

/-- Divides values by the verdict of a predicate, in order: the loop of `std_partition`. -/
def split (predicate : Value) (items : List Value) : Plan (List Value × List Value) :=
  splitAfter predicate [] [] items

/-- What a builtin does: the functions that `register_builtin` makes known. -/
def runBuiltin : Builtin → List Value → Plan Value
  | .length, [.str text] => pure (.int text.length)
  | .length, [.array items] => pure (.int items.length)
  | .length, [value] => fail (.builtinArgument .length [.string, .array] value.kind)
  | .first, [.array (item :: _)] => pure item
  | .first, [.array []] => fail (.emptyArray .first)
  | .first, [value] => fail (.builtinArgument .first [.array] value.kind)
  | .last, [.array items] =>
    match items.getLast? with
    | some item => pure item
    | none => fail (.emptyArray .last)
  | .last, [value] => fail (.builtinArgument .last [.array] value.kind)
  | .push, [.array items, item] => pure (.array (items ++ [item]))
  | .push, [value, _] => fail (.builtinArgument .push [.array] value.kind)
  | .reverse, [.array items] => pure (.array items.reverse)
  | .reverse, [value] => fail (.builtinArgument .reverse [.array] value.kind)
  | .listConcat, [.array left, .array right] => pure (.array (left ++ right))
  | .listConcat, [.array _, value] => fail (.builtinArgument .listConcat [.array] value.kind)
  | .listConcat, [value, _] => fail (.builtinArgument .listConcat [.array] value.kind)
  | .partition, [.array items, predicate] =>
    if predicate.kind = .function ∨ predicate.kind = .builtin then do
      let (matched, others) ← split predicate items
      return .array [.array matched, .array others]
    else fail (.builtinArgument .partition [.function] predicate.kind)
  | .partition, [value, _] => fail (.builtinArgument .partition [.array] value.kind)
  | .stringConcat, [.str left, .str right] => pure (.str (left ++ right))
  | .stringConcat, [.str _, value] => fail (.builtinArgument .stringConcat [.string] value.kind)
  | .stringConcat, [value, _] => fail (.builtinArgument .stringConcat [.string] value.kind)
  | .parseInt, [.str text] =>
    match Decimal.readStrictly? text with
    | some n => pure (.int n)
    | none => fail .notNumeral
  | .parseInt, [value] => fail (.builtinArgument .parseInt [.string] value.kind)
  | .print, [value] => do
    print value.render
    return .null
  | .readline, [] => return .str (← readLine)
  | b, args => fail (.builtinCount b args.length)

/-- Compares values pair by pair, up to the first two that are not equal (`arrays_equal`). -/
def compareAll : List (Value × Value) → Plan Value
  | [] => pure (.bool true)
  | (left, right) :: rest => do
    match ← compare left right with
    | .bool true => compareAll rest
    | _ => pure (.bool false)

/-- What an operator makes of two values (`apply_infix_operator`). Only the comparison of arrays takes
further work: each pair of elements is compared by a request of its own. -/
def combine (op : Binary) (left right : Value) : Plan Value :=
  match op, left, right with
  | .equal, .array items, .array others =>
    if items.length = others.length then compareAll (items.zip others) else pure (.bool false)
  | op, left, right => ofResult (left.binaryOp op right)

/-- What it means to apply a value to arguments (`apply_function`). -/
def applyStep : Value → List Value → Plan Value
  | .function _ params body scope, args => do
    if args.length = params.length then enter params body scope args
    else
      log (.wrongCount params args.length)
      fail (.wrongCount params.length args.length)
  | .builtin b, args => runBuiltin b args
  | value, _ => fail (.notCallable value.kind)

/-- What one node of code does in a scope: the handlers of `eval_node`. -/
def step (scope : Nat) : Code → Plan Value
  | .program body => return (← sequence scope .null body).unwrap
  | .block body => sequence scope .null body
  | .bind name value => do
    assign scope name (← run value scope)
    return .null
  | .giveBack value => do
    let value ← run value scope
    return .signal (← freshSerial) value
  | .loop source element index body => do
    let items ← loopItems scope source element index
    passes scope element index body 0 items
  | .branch condition consequence alternative => do
    if (← run condition scope).truthy then run consequence scope else run alternative scope
  | .function params body => return .function (← freshSerial) params body scope
  | .call callee args => do
    let callee ← run callee scope
    call callee (← collect scope args)
  | .subscript left index => do
    let left ← run left scope
    ofResult (left.at? (← run index scope))
  | .binary op left right => do
    let left ← run left scope
    combine op left (← run right scope)
  | .unary op operand => do
    ofResult (Value.unaryOp op (← run operand scope))
  | .array items => return .array (← collect scope items)
  | .int value => pure (.int value)
  | .str value => pure (.str value)
  | .bool value => pure (.bool value)
  | .ident name => lookup scope name
  | .fail failure => fail failure
  | .fault fault => stop (.malformed fault)

end Plan

namespace Request

/-- How a request is met. -/
def plan : Request → Plan Value
  | eval code scope => do Plan.settle (← Plan.step scope code)
  | apply value args => Plan.applyStep value args
  | compare left right => Plan.combine .equal left right

/-- Meets a request, down to a given depth. -/
def perform : Nat → Request → World → Ending Value
  | 0, _, world => (.error .tooDeep, world)
  | depth + 1, request, world => request.plan.carryOut (perform depth) world

end Request

end TreeWalk
