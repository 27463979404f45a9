import TreeWalk.Program
import TreeWalk.Proofs.Comparison

/-! Errors as values.

In this account an error is a value like any other. Whatever fails gives it back, and every handler looks
at what comes back from below, step by step, and hands an error on by itself. Nothing but a fault in a tree
and the limit on depth ends a run early. The run in which an error stops everything around it and the run
in which it is handed on from handler to handler are the same in every respect. -/
namespace TreeWalk

/-- Whether a value is an error. -/
def Value.isError : Value → Bool
  | error .. => true
  | _ => false

namespace Plan

/-- A piece of work with its error, if it has one, as a value in place of the result. -/
def attempt : Plan α → Plan (Except Value α)
  | done value => done (.ok value)
  | stop (.failed serial failure) => done (.error (.error serial failure))
  | stop reason => stop reason
  | act action next => act action fun answer => (next answer).attempt
  | ask request next => ask request fun value => (next value).attempt

/-- A piece of work that gives back its value or its error. -/
def handed (plan : Plan Value) : Plan Value := do
  match ← plan.attempt with
  | .ok value => pure value
  | .error error => pure error

end Plan

namespace Handler

/-- Runs statements until one gives back a signal or an error (`eval_block`). -/
def sequence (scope : Nat) (last : Value) : List Code → Plan Value
  | [] => pure last
  | code :: rest => do
    let value ← Plan.run code scope
    if value.isSignal || value.isError then pure value else sequence scope value rest

/-- Runs code from left to right until there is an error, with the values so far, the latest first. -/
def collectAfter (scope : Nat) (values : List Value) : List Code → Plan (Except Value (List Value))
  | [] => pure (.ok values.reverse)
  | code :: rest => do
    let value ← Plan.run code scope
    if value.isError then pure (.error value) else collectAfter scope (value :: values) rest

/-- Runs code from left to right; gives the values or the first error (`eval_expressions`). -/
def collect (scope : Nat) (codes : List Code) : Plan (Except Value (List Value)) := collectAfter scope [] codes

/-- Runs the body of a loop once for each element, until a signal or an error comes back
(`eval_for_stmt`). -/
def passes (scope : Nat) (element : String) (index : Option String) (body : List Code) :
    Nat → List Value → Plan Value
  | _, [] => pure .null
  | count, item :: items => do
    Plan.assignAll scope (Plan.loopBindings element index count item)
    let value ← sequence scope .null body
    if value.isError || value.isSignal then pure value
    else passes scope element index body (count + 1) items

/-- Divides values by the verdict of a predicate until the verdict is an error (`std_partition`). -/
def splitAfter (predicate : Value) (matched others : List Value) :
    List Value → Plan (Except Value (List Value × List Value))
  | [] => pure (.ok (matched.reverse, others.reverse))
  | item :: items => do
    let verdict ← Plan.call predicate [item]
    if verdict.isError then pure (.error verdict)
    else
      match verdict with
      | .bool true => splitAfter predicate (item :: matched) others items
      | .bool false => splitAfter predicate matched (item :: others) items
      | verdict => (Plan.fail (.notVerdict verdict.kind)).attempt

/-- What a builtin does. All but one ask for nothing and give back an error of their own at most. -/
def runBuiltin : Builtin → List Value → Plan Value
  | .partition, [.array items, predicate] =>
    if predicate.kind = .function ∨ predicate.kind = .builtin then do
      match ← splitAfter predicate [] [] items with
      | .error error => pure error
      | .ok (matched, others) => return .array [.array matched, .array others]
    else (Plan.runBuiltin .partition [.array items, predicate]).handed
  | b, args => (Plan.runBuiltin b args).handed

/-- What it means to apply a value to arguments (`apply_function`). -/
def applyStep : Value → List Value → Plan Value
  | .function serial params body outer, args =>
    if args.length = params.length then do
      let scope ← Plan.addScope ⟨some outer, params.zip args⟩
      return (← sequence scope .null body).unwrap
    else (Plan.applyStep (.function serial params body outer) args).handed
  | .builtin b, args => runBuiltin b args
  | value, args => (Plan.applyStep value args).handed

/-- What an operator makes of two values (`apply_infix_operator`). -/
def combine (op : Binary) (left right : Value) : Plan Value :=
  match op, left, right with
  | .equal, .array items, .array others => Plan.combine .equal (.array items) (.array others)
  | op, left, right => (Plan.ofResult (left.binaryOp op right)).handed

/-- What one node of code does in a scope. -/
def step (scope : Nat) : Code → Plan Value
  | .program body => return (← sequence scope .null body).unwrap
  | .block body => sequence scope .null body
  | .bind name value => do
    let value ← Plan.run value scope
    if value.isError then pure value
    else do
      Plan.assign scope name value
      return .null
  | .giveBack value => do
    let value ← Plan.run value scope
    if value.isError then pure value else return .signal (← Plan.freshSerial) value
  | .loop source element index body => do
    match ← (Plan.loopItems scope source element index).attempt with
    | .error error => pure error
    | .ok items => passes scope element index body 0 items
  | .branch condition consequence alternative => do
    let value ← Plan.run condition scope
    if value.isError then pure value
    else if value.truthy then Plan.run consequence scope
    else Plan.run alternative scope
  | .call callee args => do
    let callee ← Plan.run callee scope
    if callee.isError then pure callee
    else
      match ← collect scope args with
      | .error error => pure error
      | .ok args => Plan.call callee args
  | .subscript left index => do
    let left ← Plan.run left scope
    if left.isError then pure left
    else do
      let index ← Plan.run index scope
      if index.isError then pure index else (Plan.ofResult (left.at? index)).handed
  | .binary op left right => do
    let left ← Plan.run left scope
    if left.isError then pure left
    else do
      let right ← Plan.run right scope
      if right.isError then pure right else combine op left right
  | .unary op operand => do
    let operand ← Plan.run operand scope
    if operand.isError then pure operand else (Plan.ofResult (Value.unaryOp op operand)).handed
  | .array items => do
    match ← collect scope items with
    | .error error => pure error
    | .ok values => return .array values
  | code => (Plan.step scope code).handed

end Handler

namespace Request

/-- How a request is met when errors are handed on. -/
def handler : Request → Plan Value
  | eval code scope => Handler.step scope code
  | apply value args => Handler.applyStep value args
  | compare left right => Handler.combine .equal left right

/-- Meets a request, down to a given depth, when errors are handed on. -/
def handle : Nat → Request → World → Ending Value
  | 0, _, world => (.error .tooDeep, world)
  | depth + 1, request, world => request.handler.carryOut (handle depth) world

end Request

/-- Runs code in a scope when errors are handed on, with the outcome as the caller sees it. -/
def evaluateHanding (depth : Nat) (code : Code) (what : String) (scope : Nat) (world : World) :
    Except Fault Value × World :=
  match (Request.eval code scope).handle depth world with
  | (.ok value, world) => (.ok value.unwrap, world)
  | (.error .tooDeep, world) => outcome (.error .tooDeep, world.log (.depthReached what))
  | stopped => outcome stopped

/-- An ending with the error that stopped the run as its value. -/
def Ending.handing : Ending Value → Ending Value
  | (.error (.failed serial failure), world) => (.ok (.error serial failure), world)
  | ending => ending

/-- How an ending with errors as stops and one with errors as results belong together: a value is shown by
one function and an error by another. -/
inductive Ending.Shown (good : α → β) (bad : Value → β) (post : α → Prop) : Ending α → Ending β → Prop where
  | ok {value : α} (holds : post value) : Shown good bad post (.ok value, world) (.ok (good value), world)
  | failed {serial : Nat} {failure : Failure} :
      Shown good bad post (.error (.failed serial failure), world) (.ok (bad (.error serial failure)), world)
  | malformed : Shown good bad post (.error (.malformed fault), world) (.error (.malformed fault), world)
  | tooDeep : Shown good bad post (.error .tooDeep, world) (.error .tooDeep, world)

/-- A way to meet requests in which running code never has an error as its value, and a comparison never
fails. -/
structure Stopping (answer : Request → World → Ending Value) : Prop where
  eval : ∀ code scope world serial failure, (answer (.eval code scope) world).1 ≠ .ok (.error serial failure)
  compare : ∀ left right world serial failure,
    (answer (.compare left right) world).1 ≠ .error (.failed serial failure)

namespace Plan

/-- A plan and a handler do the same, given how requests are met for the plan. -/
def Agrees (answer : Request → World → Ending Value) (good : α → β) (bad : Value → β) (post : α → Prop)
    (plan : Plan α) (handler : Plan β) : Prop :=
  ∀ world, Ending.Shown good bad post (plan.carryOut answer world)
    (handler.carryOut (fun request world => (answer request world).handing) world)

/-- A value that is not an error. -/
def NotError (value : Value) : Prop := value.isError = false

/-- Work that asks for nothing. -/
def AsksNothing : Plan α → Prop
  | done _ | stop _ => True
  | act _ next => ∀ answer, (next answer).AsksNothing
  | ask .. => False

theorem AsksNothing.bind {plan : Plan α} {rest : α → Plan β} (first : plan.AsksNothing)
    (second : ∀ value, (rest value).AsksNothing) : (plan >>= rest).AsksNothing := by
  induction plan with
  | done value => exact second value
  | stop reason => trivial
  | act action next ih => exact fun answer => ih answer (first answer)
  | ask request next => cases first

namespace Agrees

variable {answer : Request → World → Ending Value} {good : α → β} {bad : Value → β} {post : α → Prop}

theorem done {value : α} (holds : post value) :
    Agrees answer good bad post (.done value) (.done (good value)) := fun _ => .ok holds

/-- One after the other, if what comes second hands an error of the first on. -/
theorem bind {good' : γ → δ} {bad' : Value → δ} {post' : γ → Prop} {plan : Plan α} {handler : Plan β}
    {rest : α → Plan γ} {rest' : β → Plan δ} (first : Agrees answer good bad post plan handler)
    (handsOn : ∀ serial failure, rest' (bad (.error serial failure)) = .done (bad' (.error serial failure)))
    (second : ∀ value, post value → Agrees answer good' bad' post' (rest value) (rest' (good value))) :
    Agrees answer good' bad' post' (plan >>= rest) (handler >>= rest') := by
  intro world
  rw [carryOut_bind, carryOut_bind]
  have shown := first world
  generalize plan.carryOut answer world = ending at shown
  generalize handler.carryOut (fun request world => (answer request world).handing) world = ending' at shown
  cases shown with
  | ok holds => exact second _ holds _
  | failed =>
    simp only [handsOn, carryOut]
    exact .failed
  | malformed => exact .malformed
  | tooDeep => exact .tooDeep

theorem act {action : Action} {next : action.Answer → Plan α} {next' : action.Answer → Plan β}
    (later : ∀ reply, Agrees answer good bad post (next reply) (next' reply)) :
    Agrees answer good bad post (.act action next) (.act action next') := fun _ => later _ _

theorem weaken {post' : α → Prop} {plan : Plan α} {handler : Plan β}
    (agrees : Agrees answer good bad post plan handler) (weaker : ∀ value, post value → post' value) :
    Agrees answer good bad post' plan handler := by
  have weakened : Agrees answer good bad post' (plan >>= pure) (handler >>= pure) :=
    agrees.bind (fun _ _ => rfl) fun value holds => .done (weaker value holds)
  rwa [bind_pure, bind_pure] at weakened

/-- What asks for nothing does the same when its error becomes a value. -/
theorem attempt {plan : Plan α} (silent : plan.AsksNothing) :
    Agrees answer Except.ok Except.error (fun _ => True) plan plan.attempt := by
  induction plan with
  | done value => exact fun _ => .ok trivial
  | stop reason =>
    cases reason with
    | failed => exact fun _ => .failed
    | malformed => exact fun _ => .malformed
    | tooDeep => exact fun _ => .tooDeep
  | act action next ih => exact .act fun reply => ih reply (silent reply)
  | ask request next => cases silent

theorem handed {plan : Plan Value} (silent : plan.AsksNothing) :
    Agrees answer id id (fun _ => True) plan plan.handed := by
  have agrees : Agrees answer id id (fun _ => True) (plan >>= pure) plan.handed :=
    (attempt silent).bind (fun _ _ => rfl) (fun _ _ => .done trivial)
  rwa [bind_pure] at agrees

/-- A request is met alike, by its very definition. -/
theorem ask {post : Value → Prop} {request : Request}
    (holds : ∀ world value, (answer request world).1 = .ok value → post value) :
    Agrees answer id id post (.ask request .done) (.ask request .done) := by
  intro world
  have met := holds world
  simp only [carryOut]
  generalize answer request world = ending at met ⊢
  obtain ⟨result, after⟩ := ending
  cases result with
  | ok value => exact .ok (met value rfl)
  | error reason =>
    cases reason with
    | failed => exact .failed
    | malformed => exact .malformed
    | tooDeep => exact .tooDeep

/-- Where a plan settles what it was given, a handler gets it as it is. -/
theorem settle {plan handler : Plan Value} (agrees : Agrees answer id id (fun _ => True) plan handler) :
    Agrees answer id id NotError (plan >>= Plan.settle) handler := by
  have settled : Agrees answer id id NotError (plan >>= Plan.settle) (handler >>= pure) := by
    refine agrees.bind (fun _ _ => rfl) fun value _ => ?_
    cases value with
    | error serial failure => exact fun _ => .failed
    | _ => exact .done rfl
  rwa [bind_pure] at settled

/-- A handler that looks at what it was given, hands an error on, and goes on with anything else. -/
theorem heeding {plan handler : Plan Value} {rest : Value → Plan α} {rest' : Value → Plan β}
    (first : Agrees answer id id NotError plan handler)
    (second : ∀ value, Agrees answer good bad post (rest value) (rest' value)) :
    Agrees answer good bad post (plan >>= rest)
      (handler >>= fun value => if value.isError then pure (bad value) else rest' value) := by
  refine first.bind (fun _ _ => rfl) fun value sound => ?_
  have notError : value.isError = false := sound
  simp only [id, notError, Bool.false_eq_true, if_false]
  exact second value

end Agrees

theorem action_asksNothing (action : Action) : (act action done).AsksNothing := fun _ => trivial

theorem fail_asksNothing (failure : Failure) : (fail failure : Plan α).AsksNothing := fun _ => trivial

theorem ofResult_asksNothing (result : Except Failure Value) : (ofResult result).AsksNothing := by
  cases result with
  | ok value => trivial
  | error failure => exact fail_asksNothing failure

theorem lookup_asksNothing (scope : Nat) (name : String) : (lookup scope name).AsksNothing := by
  refine (action_asksNothing _).bind fun found => ?_
  cases found with
  | some value => trivial
  | none =>
    cases Builtin.ofName? name with
    | some b => trivial
    | none => exact fail_asksNothing _

private theorem requireUnbound_asksNothing (scope : Nat) (names : List String) :
    (requireUnbound scope names).AsksNothing := by
  induction names with
  | nil => trivial
  | cons name names ih =>
    refine (action_asksNothing _).bind fun found => ?_
    split
    · exact fail_asksNothing _
    · exact ih

theorem loopItems_asksNothing (scope : Nat) (source element : String) (index : Option String) :
    (loopItems scope source element index).AsksNothing := by
  refine (action_asksNothing _).bind fun found => ?_
  split
  · exact fail_asksNothing _
  · split
    · exact fail_asksNothing _
    · exact (requireUnbound_asksNothing scope _).bind fun _ => trivial
  · exact fail_asksNothing _

/-- Only `partition` asks for anything. -/
theorem runBuiltin_asksNothing {b : Builtin} {args : List Value}
    (notDividing : ∀ items predicate, b = .partition → args = [.array items, predicate] →
      ¬ (predicate.kind = .function ∨ predicate.kind = .builtin)) : (runBuiltin b args).AsksNothing := by
  unfold runBuiltin
  split
  all_goals try first | trivial | exact fail_asksNothing _ | exact fun _ => trivial
  · split
    · trivial
    · exact fail_asksNothing _
  · rename_i items predicate
    rw [if_neg (notDividing items predicate rfl rfl)]
    exact fail_asksNothing _
  · split
    · trivial
    · exact fail_asksNothing _

variable {answer : Request → World → Ending Value}

/-- Running code gives no error where answers are stopping. -/
private theorem run_agrees (stopping : Stopping answer) (code : Code) (scope : Nat) :
    Agrees answer id id NotError (run code scope) (run code scope) := by
  refine .ask fun world value given => ?_
  cases value with
  | error serial failure => exact absurd given (stopping.eval code scope world serial failure)
  | _ => rfl

private theorem compareAll_agrees (stopping : Stopping answer) (pairs : List (Value × Value)) :
    Agrees answer id id (fun _ => True) (compareAll pairs) (compareAll pairs) := by
  induction pairs with
  | nil => exact fun _ => .ok trivial
  | cons pair pairs ih =>
    obtain ⟨left, right⟩ := pair
    intro world
    have never := stopping.compare left right world
    simp only [compareAll, compare, ask_bind, done_bind, carryOut]
    generalize answer (.compare left right) world = ending at never
    obtain ⟨result, after⟩ := ending
    cases result with
    | ok verdict =>
      simp only [Ending.handing]
      split
      · exact ih after
      · exact .ok trivial
    | error reason =>
      cases reason with
      | failed serial failure => exact absurd rfl (never serial failure)
      | malformed => exact .malformed
      | tooDeep => exact .tooDeep

private theorem sequence_agrees (stopping : Stopping answer) (scope : Nat) {last : Value} (sound : NotError last)
    (codes : List Code) :
    Agrees answer id id NotError (sequence scope last codes) (Handler.sequence scope last codes) := by
  induction codes generalizing last with
  | nil => exact .done sound
  | cons code codes ih =>
    refine (run_agrees stopping code scope).bind (fun _ _ => rfl) fun value sound => ?_
    have notError : value.isError = false := sound
    simp only [id, notError, Bool.or_false]
    split
    · exact .done sound
    · exact ih sound

/-- The statements of a block start from null. -/
private theorem body_agrees (stopping : Stopping answer) (scope : Nat) (codes : List Code) :
    Agrees answer id id NotError (sequence scope .null codes) (Handler.sequence scope .null codes) := by
  have start : NotError .null := rfl
  exact sequence_agrees stopping scope start codes

private theorem collect_agrees (stopping : Stopping answer) (scope : Nat) (codes : List Code) :
    Agrees answer Except.ok Except.error (fun _ => True) (collect scope codes) (Handler.collect scope codes) := by
  suffices ∀ values, Agrees answer Except.ok Except.error (fun _ => True) (collectAfter scope values codes)
      (Handler.collectAfter scope values codes) from this []
  induction codes with
  | nil => exact fun _ => .done trivial
  | cons code codes ih => exact fun values => (run_agrees stopping code scope).heeding fun value => ih _

/-- Bindings are made alike before whatever comes after them. -/
private theorem assignAll_agrees {good : α → β} {bad : Value → β} {post : α → Prop} (scope : Nat)
    (bindings : List (String × Value)) {rest : Unit → Plan α} {rest' : Unit → Plan β}
    (later : Agrees answer good bad post (rest ()) (rest' ())) :
    Agrees answer good bad post (assignAll scope bindings >>= rest) (assignAll scope bindings >>= rest') := by
  induction bindings with
  | nil => exact later
  | cons binding bindings ih => exact .act fun _ => ih

private theorem passes_agrees (stopping : Stopping answer) (scope : Nat) (element : String)
    (index : Option String) (body : List Code) (count : Nat) (items : List Value) :
    Agrees answer id id NotError (passes scope element index body count items)
      (Handler.passes scope element index body count items) := by
  induction items generalizing count with
  | nil => exact .done rfl
  | cons item items ih =>
    refine assignAll_agrees scope _ ?_
    refine (body_agrees stopping scope body).bind (fun _ _ => rfl) fun value sound => ?_
    have notError : value.isError = false := sound
    simp only [id, notError, Bool.false_or]
    split
    · exact .done sound
    · exact ih (count + 1)

private theorem split_agrees (predicate : Value) (items : List Value) :
    Agrees answer Except.ok Except.error (fun _ => True) (split predicate items)
      (Handler.splitAfter predicate [] [] items) := by
  suffices ∀ matched others, Agrees answer Except.ok Except.error (fun _ => True)
      (splitAfter predicate matched others items) (Handler.splitAfter predicate matched others items) from
    this [] []
  induction items with
  | nil => exact fun _ _ => .done trivial
  | cons item items ih =>
    intro matched others
    have called : Agrees answer id id (fun _ => True) (.ask (.apply predicate [item]) .done)
        (.ask (.apply predicate [item]) .done) := .ask fun _ _ _ => trivial
    refine called.settle.heeding fun verdict => ?_
    cases verdict with
    | bool b =>
      cases b with
      | true => exact ih _ _
      | false => exact ih _ _
    | _ => exact .attempt (fail_asksNothing _)

private theorem runBuiltin_agrees (b : Builtin) (args : List Value) :
    Agrees answer id id (fun _ => True) (runBuiltin b args) (Handler.runBuiltin b args) := by
  unfold Handler.runBuiltin
  split
  · rename_i items predicate
    split
    next callable =>
      rw [runBuiltin, if_pos callable]
      exact (split_agrees predicate items).bind (fun _ _ => rfl) fun _ _ => .done trivial
    next notCallable =>
      refine .handed (runBuiltin_asksNothing fun items' predicate' _ same => ?_)
      cases same
      exact notCallable
  · rename_i other
    exact .handed (runBuiltin_asksNothing fun items predicate isPartition same =>
      (other items predicate isPartition same).elim)

private theorem applyStep_agrees (stopping : Stopping answer) (value : Value) (args : List Value) :
    Agrees answer id id (fun _ => True) (applyStep value args) (Handler.applyStep value args) := by
  cases value with
  | function serial params body outer =>
    by_cases fits : args.length = params.length
    · rw [applyStep, Handler.applyStep, if_pos fits, if_pos fits]
      exact .act fun scope => (body_agrees stopping _ body).bind (fun _ _ => rfl) fun _ _ => .done trivial
    · rw [Handler.applyStep, if_neg fits]
      refine .handed ?_
      rw [applyStep, if_neg fits]
      exact (action_asksNothing _).bind fun _ => fail_asksNothing _
  | builtin b => exact runBuiltin_agrees b args
  | _ => exact .handed (fail_asksNothing _)

private theorem combine_agrees (stopping : Stopping answer) (op : Binary) (left right : Value) :
    Agrees answer id id (fun _ => True) (combine op left right) (Handler.combine op left right) := by
  unfold Handler.combine
  split
  · rw [combine]
    split
    · exact compareAll_agrees stopping _
    · exact .done trivial
  · rename_i notArrays
    rw [combine_eq_ofResult notArrays]
    exact .handed (ofResult_asksNothing _)

private theorem step_agrees (stopping : Stopping answer) (scope : Nat) (code : Code) :
    Agrees answer id id (fun _ => True) (step scope code) (Handler.step scope code) := by
  have ran := fun code => run_agrees stopping code scope
  have ranLast := fun code => (ran code).weaken fun _ _ => trivial
  cases code with
  | program body => exact (body_agrees stopping scope body).bind (fun _ _ => rfl) fun _ _ => .done trivial
  | block body => exact (body_agrees stopping scope body).weaken fun _ _ => trivial
  | bind name value => exact (ran value).heeding fun _ => .act fun _ => .done trivial
  | giveBack value => exact (ran value).heeding fun _ => .act fun _ => .done trivial
  | loop source element index body =>
    refine (Agrees.attempt (loopItems_asksNothing scope source element index)).bind (fun _ _ => rfl) ?_
    exact fun items _ => (passes_agrees stopping scope element index body 0 items).weaken fun _ _ => trivial
  | branch condition consequence alternative =>
    refine (ran condition).heeding fun value => ?_
    split
    · exact ranLast consequence
    · exact ranLast alternative
  | call callee args =>
    exact (ran callee).heeding fun callee =>
      (collect_agrees stopping scope args).bind (fun _ _ => rfl) fun _ _ => .ask fun _ _ _ => trivial
  | subscript left index =>
    exact (ran left).heeding fun left => (ran index).heeding fun index => .handed (ofResult_asksNothing _)
  | binary op left right =>
    exact (ran left).heeding fun left => (ran right).heeding fun right => combine_agrees stopping op left right
  | unary op operand => exact (ran operand).heeding fun operand => .handed (ofResult_asksNothing _)
  | array items => exact (collect_agrees stopping scope items).bind (fun _ _ => rfl) fun _ _ => .done trivial
  | function params body => exact .handed ((action_asksNothing .takeSerial).bind fun _ => trivial)
  | ident name => exact .handed (lookup_asksNothing scope name)
  | fail failure => exact .handed (fail_asksNothing failure)
  | int | str | bool | fault => exact .handed trivial

end Plan

namespace Request

/-- Running code does not have an error as its value: it stops. -/
theorem eval_value_ne_error (depth : Nat) (code : Code) (scope : Nat) (world : World)
    (serial : Nat) (failure : Failure) :
    ((eval code scope).perform depth world).1 ≠ .ok (.error serial failure) := by
  cases depth with
  | zero => simp [perform]
  | succ depth =>
    simp only [perform, plan, Plan.carryOut_bind]
    split
    · rename_i value after ran
      cases value <;> simp [Plan.settle, Plan.carryOut]
    · simp

theorem perform_stopping (depth : Nat) : Stopping (perform depth) where
  eval := eval_value_ne_error depth
  compare left right world serial failure := by
    rw [perform_compare]
    split <;> simp

private theorem plan_agrees {answer : Request → World → Ending Value} (stopping : Stopping answer)
    (request : Request) : Plan.Agrees answer id id (fun _ => True) request.plan request.handler := by
  cases request with
  | eval code scope => exact (Plan.step_agrees stopping scope code).settle.weaken fun _ _ => trivial
  | apply value args => exact Plan.applyStep_agrees stopping value args
  | compare left right => exact Plan.combine_agrees stopping .equal left right

/-- Handing errors on from handler to handler and stopping at the first one are the same, in every world and
at every depth. -/
theorem handle_eq (depth : Nat) (request : Request) (world : World) :
    request.handle depth world = (request.perform depth world).handing := by
  induction depth generalizing request world with
  | zero => rfl
  | succ depth ih =>
    have same : handle depth = fun request world => (request.perform depth world).handing :=
      funext fun request => funext (ih request)
    rw [handle, perform, same]
    have shown := plan_agrees (perform_stopping depth) request world
    generalize request.plan.carryOut (perform depth) world = ending at shown ⊢
    generalize request.handler.carryOut _ world = ending' at shown ⊢
    cases shown with
    | ok | failed | malformed | tooDeep => rfl

end Request

/-- To their caller both accounts give the same. -/
theorem evaluateHanding_eq (depth : Nat) (code : Code) (what : String) (scope : Nat) (world : World) :
    evaluateHanding depth code what scope world = evaluateTo depth code what scope world := by
  rw [evaluateHanding, evaluateTo, Request.handle_eq]
  obtain ⟨result, after⟩ := (Request.eval code scope).perform depth world
  cases result with
  | ok value => rfl
  | error reason => cases reason <;> rfl

end TreeWalk
