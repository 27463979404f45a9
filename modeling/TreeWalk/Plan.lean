import TreeWalk.World

/-! Plans: what a piece of work does, apart from how the work below it is done.

A plan works on the world by actions, asks for other work by requests, and ends with a result or early.
Each action and each request has an answer, on which the rest of the plan depends. What a request leads
to is decided when the plan is carried out.

A request stands for a call by which the interpreter comes back to itself: `eval_node`, `apply_function`,
and `apply_infix_operator` on the elements of arrays. Of the host it is assumed that it does one thing at a
time, so that a run is a sequence of actions, and that it lets such calls nest down to some depth. -/
namespace TreeWalk

/-- Why a run ends without a value. -/
inductive Stop where
  /-- An error of the language; here it leaves by the way that a host exception takes. -/
  | failed (serial : Nat) (failure : Failure)
  /-- What a handler raises about a tree that no source text has. -/
  | malformed (fault : Fault)
  /-- The host lets nothing nest any deeper. -/
  | tooDeep
  deriving DecidableEq, Repr

/-- How a run ends, and the world it leaves. -/
abbrev Ending (α : Type) := Except Stop α × World

/-- What a plan can do to the world by itself. -/
inductive Action where
  /-- Takes a new identity. -/
  | takeSerial
  /-- Adds a scope. -/
  | addScope (scope : Scope)
  /-- Binds a name in a scope. -/
  | bind (scope : Nat) (name : String) (value : Value)
  /-- Looks a name up, outwards from a scope. -/
  | find (name : String) (scope : Nat)
  | print (text : String)
  | readLine
  | log (note : Note)
  deriving Repr

namespace Action

/-- What an action gives back. -/
@[reducible] def Answer : Action → Type
  | takeSerial | addScope _ => Nat
  | bind .. | print _ | log _ => Unit
  | find .. => Option Value
  | readLine => String

/-- The answer of an action and what it makes of the world. -/
def perform : (action : Action) → World → action.Answer × World
  | takeSerial, world => world.takeSerial
  | addScope scope, world => world.addScope scope
  | bind scope name value, world => ((), world.bind scope name value)
  | find name scope, world => (world.find? name scope, world)
  | print text, world => ((), world.print text)
  | readLine, world => world.readLine
  | log note, world => ((), world.log note)

end Action

/-- Work that a plan leaves to others: to run code in a scope (`eval_node`), to apply a value to arguments
(`apply_function`), or to compare two elements of arrays (`apply_infix_operator`). -/
inductive Request where
  | eval (code : Code) (scope : Nat)
  | apply (value : Value) (args : List Value)
  | compare (left right : Value)
  deriving Repr

/-- What is done for a result of some type. -/
inductive Plan (α : Type) where
  | done (value : α)
  | stop (reason : Stop)
  | act (action : Action) (next : action.Answer → Plan α)
  | ask (request : Request) (next : Value → Plan α)

namespace Plan

variable {α β : Type}

/-- One plan after another, which depends on the result of the first. -/
def andThen : Plan α → (α → Plan β) → Plan β
  | done value, rest => rest value
  | stop reason, _ => stop reason
  | act action next, rest => act action fun answer => (next answer).andThen rest
  | ask request next, rest => ask request fun value => (next value).andThen rest

instance : Monad Plan where
  pure := done
  bind := andThen

@[simp] theorem pure_eq (value : α) : (pure value : Plan α) = done value := rfl

@[simp] theorem done_bind (value : α) (rest : α → Plan β) : done value >>= rest = rest value := rfl

@[simp] theorem stop_bind (reason : Stop) (rest : α → Plan β) : stop reason >>= rest = stop reason := rfl

@[simp] theorem act_bind (action : Action) (next : action.Answer → Plan α) (rest : α → Plan β) :
    act action next >>= rest = act action fun answer => next answer >>= rest := rfl

@[simp] theorem ask_bind (request : Request) (next : Value → Plan α) (rest : α → Plan β) :
    ask request next >>= rest = ask request fun value => next value >>= rest := rfl

private theorem map_id_eq (plan : Plan α) : id <$> plan = plan := by
  induction plan with
  | done | stop => rfl
  | act action next ih => exact congrArg (act action) (funext ih)
  | ask request next ih => exact congrArg (ask request) (funext ih)

private theorem andThen_assoc {γ : Type} (plan : Plan α) (second : α → Plan β) (third : β → Plan γ) :
    plan >>= second >>= third = plan >>= fun value => second value >>= third := by
  induction plan with
  | done | stop => rfl
  | act action next ih => exact congrArg (act action) (funext ih)
  | ask request next ih => exact congrArg (ask request) (funext ih)

instance : LawfulMonad Plan := LawfulMonad.mk' Plan map_id_eq (fun _ _ => rfl) andThen_assoc

/-- A new identity. -/
def freshSerial : Plan Nat := act .takeSerial done

/-- Adds a scope and gives its number. -/
def addScope (scope : Scope) : Plan Nat := act (.addScope scope) done

/-- Binds a name in a scope. -/
def assign (scope : Nat) (name : String) (value : Value) : Plan Unit := act (.bind scope name value) done

/-- What a name is bound to in a scope or around it. -/
def find (name : String) (scope : Nat) : Plan (Option Value) := act (.find name scope) done

/-- Prints a line. -/
def print (text : String) : Plan Unit := act (.print text) done

/-- Reads a line of input. -/
def readLine : Plan String := act .readLine done

/-- Logs an event. -/
def log (note : Note) : Plan Unit := act (.log note) done

/-- Has code run in a scope. -/
def run (code : Code) (scope : Nat) : Plan Value := ask (.eval code scope) done

/-- Has a value applied to arguments. -/
def call (value : Value) (args : List Value) : Plan Value := ask (.apply value args) done

/-- Has two values compared. -/
def compare (left right : Value) : Plan Value := ask (.compare left right) done

/-- Ends the run with a new error. -/
def fail (failure : Failure) : Plan α := do stop (.failed (← freshSerial) failure)

/-- Carries a plan out, given how requests are answered. -/
def carryOut (answer : Request → World → Ending Value) : Plan α → World → Ending α
  | done value, world => (.ok value, world)
  | stop reason, world => (.error reason, world)
  | act action next, world =>
    let (reply, world) := action.perform world
    (next reply).carryOut answer world
  | ask request next, world =>
    match answer request world with
    | (.ok value, world) => (next value).carryOut answer world
    | (.error reason, world) => (.error reason, world)

/-- One plan after another is carried out one after another, unless the first one ends early. -/
theorem carryOut_bind (answer : Request → World → Ending Value) (plan : Plan α) (rest : α → Plan β)
    (world : World) :
    (plan >>= rest).carryOut answer world =
      match plan.carryOut answer world with
      | (.ok value, world) => (rest value).carryOut answer world
      | (.error reason, world) => (.error reason, world) := by
  induction plan generalizing world with
  | done value => rfl
  | stop reason => rfl
  | act action next ih => exact ih _ _
  | ask request next ih =>
    simp only [ask_bind, carryOut]
    cases answer request world with
    | mk result world =>
      cases result with
      | ok value => exact ih _ _
      | error reason => rfl

end Plan

end TreeWalk
