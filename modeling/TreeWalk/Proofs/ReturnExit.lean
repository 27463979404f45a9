import TreeWalk.Proofs.ReturnDiscipline

/-! `return` as an exit.

In this account a `return` hands nothing on: it leaves at once, from however deep inside, and lands at the
end of the function that is being applied or of the program. Blocks, branches and loops know nothing of
it. For disciplined code in a clean world, the run in which signals travel as values and the run in which
a `return` is an exit are the same in every respect. -/
namespace TreeWalk

/-- How work is left before it is done. -/
inductive Departure where
  | returned (value : Value)
  | stopped (reason : Stop)

/-- How work ends when it can also be left by a `return`, and the world that is left. -/
abbrev Leaving (α : Type) := Except Departure α × World

/-- An ending with no `return` to land. -/
def Ending.within : Ending α → Leaving α
  | (.ok value, world) => (.ok value, world)
  | (.error reason, world) => (.error (.stopped reason), world)

namespace Leaving

/-- A `return` lands here: its value is that of the whole. -/
def landed : Leaving Value → Ending Value
  | (.ok value, world) => (.ok value, world)
  | (.error (.returned value), world) => (.ok value, world)
  | (.error (.stopped reason), world) => (.error reason, world)

/-- A value that is an error ends the run. -/
def settled : Leaving Value → Leaving Value
  | (.ok (.error serial failure), world) => (.error (.stopped (.failed serial failure)), world)
  | ending => ending

/-- Leaves with the value. An identity is used up, so that whatever is made later has the identity that
it has when a `return` makes something. -/
def returning : Leaving Value → Leaving Value
  | (.ok value, world) => (.error (.returned value), world.takeSerial.2)
  | ending => ending

end Leaving

namespace Plan

/-- Carries a plan out when its requests can be left by a `return`, which then leaves the plan. -/
def follow (answer : Request → World → Leaving Value) : Plan α → World → Leaving α
  | done value, world => (.ok value, world)
  | stop reason, world => (.error (.stopped reason), world)
  | act action next, world =>
    let (reply, world) := action.perform world
    (next reply).follow answer world
  | ask request next, world =>
    match answer request world with
    | (.ok value, world) => (next value).follow answer world
    | (.error departure, world) => (.error departure, world)

/-- Runs statements one after the other; the value is that of the last one. -/
def inOrder (scope : Nat) (last : Value) : List Code → Plan Value
  | [] => pure last
  | code :: rest => do inOrder scope (← run code scope) rest

/-- Runs the body of a loop once for each element. -/
def inTurn (scope : Nat) (element : String) (index : Option String) (body : List Code) :
    Nat → List Value → Plan Value
  | _, [] => pure .null
  | count, item :: items => do
    assignAll scope (loopBindings element index count item)
    let _ ← inOrder scope .null body
    inTurn scope element index body (count + 1) items

end Plan

/-- What one node of code does, given how its requests are met. -/
def Code.leave (answer : Request → World → Leaving Value) (scope : Nat) (world : World) : Code → Leaving Value
  | .giveBack value => ((Plan.run value scope).follow answer world).returning
  | .program body => ((Plan.inOrder scope .null body).follow answer world).landed.within
  | .block body => (Plan.inOrder scope .null body).follow answer world
  | .loop source element index body =>
    (Plan.loopItems scope source element index >>= Plan.inTurn scope element index body 0).follow answer world
  | code => (Plan.step scope code).follow answer world

/-- What it means to apply a value, given how requests are met. -/
def Value.leave (answer : Request → World → Leaving Value) (args : List Value) (world : World)
    (value : Value) : Leaving Value :=
  match value with
  | .function _ params body outer =>
    if args.length = params.length then
      let entered := do Plan.inOrder (← Plan.addScope ⟨some outer, params.zip args⟩) .null body
      (entered.follow answer world).landed.within
    else (Plan.applyStep value args).follow answer world
  | _ => (Plan.applyStep value args).follow answer world

/-- Meets a request, down to a given depth, when a `return` is an exit. -/
def Request.leave : Nat → Request → World → Leaving Value
  | 0, _, world => (.error (.stopped .tooDeep), world)
  | depth + 1, .eval code scope, world => (code.leave (leave depth) scope world).settled
  | depth + 1, .apply value args, world => value.leave (leave depth) args world
  | depth + 1, .compare left right, world => (Plan.combine .equal left right).follow (leave depth) world

/-- Runs code in a scope when a `return` is an exit, with the outcome as the caller sees it. -/
def evaluateLeaving (depth : Nat) (code : Code) (what : String) (scope : Nat) (world : World) :
    Except Fault Value × World :=
  match ((Request.eval code scope).leave depth world).landed with
  | (.ok value, world) => (.ok value, world)
  | (.error .tooDeep, world) => outcome (.error .tooDeep, world.log (.depthReached what))
  | stopped => outcome stopped

/-- An ending in which a signal stands for a `return` that has not landed yet. -/
def Ending.exits : Ending Value → Leaving Value
  | (.ok (.signal _ value), world) => (.error (.returned value), world)
  | (.ok value, world) => (.ok value, world)
  | (.error reason, world) => (.error (.stopped reason), world)

namespace Ending

theorem exits_of_not_signal (plain : value.isSignal = false) :
    Ending.exits (.ok value, world) = (.ok value, world) := by
  cases value with
  | signal => cases plain
  | _ => rfl

theorem exits_eq_within {ending : Ending Value}
    (plain : ∀ value, ending.1 = .ok value → value.isSignal = false) :
    ending.exits = ending.within := by
  obtain ⟨result, world⟩ := ending
  cases result with
  | ok value => exact exits_of_not_signal (plain value rfl)
  | error reason => rfl

end Ending

namespace Plan

/-- Where a signal gives up its value a `return` lands. -/
theorem carryOut_unwrap (answer : Request → World → Ending Value) (plan : Plan Value) (world : World) :
    (plan >>= fun value => pure value.unwrap).carryOut answer world =
      (plan.carryOut answer world).exits.landed := by
  rw [carryOut_bind]
  obtain ⟨result, after⟩ := plan.carryOut answer world
  cases result with
  | ok value => cases value <;> rfl
  | error reason => rfl

/-- Errors are settled the same way before and after signals are seen as exits. -/
theorem carryOut_settle (answer : Request → World → Ending Value) (plan : Plan Value) (world : World) :
    ((plan >>= settle).carryOut answer world).exits = (plan.carryOut answer world).exits.settled := by
  rw [carryOut_bind]
  obtain ⟨result, after⟩ := plan.carryOut answer world
  cases result with
  | ok value => cases value <;> rfl
  | error reason => rfl

end Plan

end TreeWalk
