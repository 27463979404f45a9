import TreeWalk.Proofs.ErrorValues
import TreeWalk.Proofs.Trace

/-! Errors are fatal: the first error that any work gives back is what all the work around it gives back, and
nothing happens in between.

Where errors are values this is up to the handlers. Each of them asks for other work at one place or more, and
at each of these places it has to look at the answer; a single place where it does not would let the program
go on. A trace of such a run lists everything that was given back, however deep, so that one error in it
settles how the run ends. As a run with errors as values is the same as one that stops at the first error,
this holds of both. -/
namespace TreeWalk

/-- A comparison gives a verdict back and nothing else, so nobody looks for an error there. -/
def Request.isComparison : Request → Bool
  | compare .. => true
  | _ => false

namespace Plan

/-- Wherever the plan asks for something, it is over as soon as the answer is an error, and its result is
made of that error. -/
def Heeds (bad : Value → α) : Plan α → Prop
  | done _ | stop _ => True
  | act _ next => ∀ answer, (next answer).Heeds bad
  | ask request next =>
    (request.isComparison = false →
        ∀ serial failure, next (.error serial failure) = done (bad (.error serial failure))) ∧
      ∀ value, (next value).Heeds bad

theorem AsksNothing.heeds {bad : Value → α} {plan : Plan α} (silent : plan.AsksNothing) : plan.Heeds bad := by
  induction plan with
  | done | stop => trivial
  | act action next ih => exact fun answer => ih answer (silent answer)
  | ask request next => cases silent

theorem AsksNothing.attempt {plan : Plan α} (silent : plan.AsksNothing) : plan.attempt.AsksNothing := by
  induction plan with
  | done => trivial
  | stop reason => cases reason <;> trivial
  | act action next ih => exact fun answer => ih answer (silent answer)
  | ask request next => cases silent

theorem AsksNothing.handed {plan : Plan Value} (silent : plan.AsksNothing) : plan.handed.AsksNothing := by
  refine silent.attempt.bind fun result => ?_
  cases result <;> trivial

namespace Heeds

variable {bad : Value → α} {bad' : Value → β}

theorem bind {plan : Plan α} {rest : α → Plan β} (first : plan.Heeds bad)
    (handsOn : ∀ serial failure, rest (bad (.error serial failure)) = done (bad' (.error serial failure)))
    (second : ∀ value, (rest value).Heeds bad') : (plan >>= rest).Heeds bad' := by
  induction plan with
  | done value => exact second value
  | stop reason => trivial
  | act action next ih => exact fun answer => ih answer (first answer)
  | ask request next ih =>
    refine ⟨fun notComparison serial failure => ?_, fun value => ih value (first.2 value)⟩
    have handedOn := congrArg (· >>= rest) (first.1 notComparison serial failure)
    exact handedOn.trans (handsOn serial failure)

/-- What asks for nothing can come before anything. -/
theorem after {plan : Plan α} {rest : α → Plan β} (silent : plan.AsksNothing)
    (second : ∀ value, (rest value).Heeds bad') : (plan >>= rest).Heeds bad' := by
  induction plan with
  | done value => exact second value
  | stop reason => trivial
  | act action next ih => exact fun answer => ih answer (silent answer)
  | ask request next => cases silent

/-- A test for an error right after a step takes care of the error of that step. -/
theorem heeding {plan : Plan Value} {rest : Value → Plan β} (first : plan.Heeds id)
    (second : ∀ value, (rest value).Heeds bad') :
    (plan >>= fun value => if value.isError then pure (bad' value) else rest value).Heeds bad' := by
  refine first.bind (fun _ _ => rfl) fun value => ?_
  split
  · trivial
  · exact second value

end Heeds

private theorem run_heeds (code : Code) (scope : Nat) : (run code scope).Heeds id :=
  ⟨fun _ _ _ => rfl, fun _ => trivial⟩

private theorem call_heeds (callee : Value) (args : List Value) : (call callee args).Heeds id :=
  ⟨fun _ _ _ => rfl, fun _ => trivial⟩

private theorem assignAll_asksNothing (scope : Nat) (bindings : List (String × Value)) :
    (assignAll scope bindings).AsksNothing := by
  induction bindings with
  | nil => trivial
  | cons binding rest ih => exact fun _ => ih

private theorem compareAll_heeds (pairs : List (Value × Value)) : (compareAll pairs).Heeds id := by
  induction pairs with
  | nil => trivial
  | cons pair pairs ih =>
    obtain ⟨left, right⟩ := pair
    refine ⟨fun notComparison => ?_, fun verdict => ?_⟩
    · cases notComparison
    · change Heeds id (done verdict >>= _)
      rw [done_bind]
      split
      · exact ih
      · trivial

end Plan

namespace Handler

private theorem sequence_heeds (scope : Nat) (last : Value) (codes : List Code) :
    (sequence scope last codes).Heeds id := by
  induction codes generalizing last with
  | nil => trivial
  | cons code rest ih =>
    refine (Plan.run_heeds code scope).bind (fun _ _ => rfl) fun value => ?_
    split
    · trivial
    · exact ih value

private theorem collect_heeds (scope : Nat) (codes : List Code) : (collect scope codes).Heeds Except.error := by
  suffices ∀ values, (collectAfter scope values codes).Heeds Except.error from this []
  induction codes with
  | nil => exact fun _ => trivial
  | cons code rest ih => exact fun values => (Plan.run_heeds code scope).heeding fun value => ih _

private theorem passes_heeds (scope : Nat) (element : String) (index : Option String) (body : List Code)
    (count : Nat) (items : List Value) : (passes scope element index body count items).Heeds id := by
  induction items generalizing count with
  | nil => trivial
  | cons item items ih =>
    refine .after (Plan.assignAll_asksNothing scope _) fun _ => ?_
    refine (sequence_heeds scope .null body).bind (fun _ _ => rfl) fun value => ?_
    split
    · trivial
    · exact ih (count + 1)

private theorem splitAfter_heeds (predicate : Value) (matched others items : List Value) :
    (splitAfter predicate matched others items).Heeds Except.error := by
  induction items generalizing matched others with
  | nil => trivial
  | cons item items ih =>
    refine (Plan.call_heeds predicate [item]).heeding fun verdict => ?_
    split
    · exact ih _ _
    · exact ih _ _
    · exact (Plan.fail_asksNothing _).attempt.heeds

private theorem runBuiltin_heeds (b : Builtin) (args : List Value) : (runBuiltin b args).Heeds id := by
  unfold runBuiltin
  split
  · rename_i items predicate
    split
    · refine (splitAfter_heeds predicate [] [] items).bind (fun _ _ => rfl) fun result => ?_
      cases result <;> trivial
    next notCallable =>
      refine (Plan.runBuiltin_asksNothing fun items' predicate' _ same => ?_).handed.heeds
      cases same
      exact notCallable
  · rename_i other
    exact (Plan.runBuiltin_asksNothing fun items predicate isPartition same =>
      (other items predicate isPartition same).elim).handed.heeds

private theorem applyStep_heeds (value : Value) (args : List Value) : (applyStep value args).Heeds id := by
  cases value with
  | function serial params body outer =>
    by_cases fits : args.length = params.length
    · rw [applyStep, if_pos fits]
      refine .after (Plan.action_asksNothing _) fun scope => ?_
      exact (sequence_heeds scope .null body).bind (fun _ _ => rfl) fun _ => trivial
    · rw [applyStep, if_neg fits, Plan.applyStep, if_neg fits]
      exact ((Plan.action_asksNothing _).bind fun _ => Plan.fail_asksNothing _).handed.heeds
  | builtin b => exact runBuiltin_heeds b args
  | _ => exact (Plan.fail_asksNothing _).handed.heeds

private theorem combine_heeds (op : Binary) (left right : Value) : (combine op left right).Heeds id := by
  unfold combine
  split
  · rw [Plan.combine]
    split
    · exact Plan.compareAll_heeds _
    · trivial
  · exact (Plan.ofResult_asksNothing _).handed.heeds

/-- Each node of code looks at every answer it gets. -/
private theorem step_heeds (scope : Nat) (code : Code) : (step scope code).Heeds id := by
  have ran := fun code => Plan.run_heeds code scope
  cases code with
  | program body => exact (sequence_heeds scope .null body).bind (fun _ _ => rfl) fun _ => trivial
  | block body => exact sequence_heeds scope .null body
  | bind name value => exact (ran value).heeding fun _ => fun _ => trivial
  | giveBack value => exact (ran value).heeding fun _ => fun _ => trivial
  | loop source element index body =>
    refine .after (Plan.loopItems_asksNothing scope source element index).attempt fun result => ?_
    cases result with
    | error error => trivial
    | ok items => exact passes_heeds scope element index body 0 items
  | branch condition consequence alternative =>
    refine (ran condition).heeding fun value => ?_
    split
    · exact ran consequence
    · exact ran alternative
  | call callee args =>
    refine (ran callee).heeding fun callee => ?_
    refine (collect_heeds scope args).bind (fun _ _ => rfl) fun result => ?_
    cases result with
    | error error => trivial
    | ok args => exact Plan.call_heeds callee args
  | subscript left index =>
    exact (ran left).heeding fun left => (ran index).heeding fun index =>
      (Plan.ofResult_asksNothing _).handed.heeds
  | binary op left right =>
    exact (ran left).heeding fun left => (ran right).heeding fun right => combine_heeds op left right
  | unary op operand => exact (ran operand).heeding fun operand => (Plan.ofResult_asksNothing _).handed.heeds
  | array items =>
    refine (collect_heeds scope items).bind (fun _ _ => rfl) fun result => ?_
    cases result <;> trivial
  | function params body =>
    have silent : (Plan.step scope (.function params body)).AsksNothing := fun _ => trivial
    exact silent.handed.heeds
  | ident name => exact (Plan.lookup_asksNothing scope name).handed.heeds
  | fail failure => exact (Plan.fail_asksNothing failure).handed.heeds
  | int | str | bool | fault => trivial

end Handler

namespace Request

theorem handler_heeds (request : Request) : request.handler.Heeds id := by
  cases request with
  | eval code scope => exact Handler.step_heeds scope code
  | apply value args => exact Handler.applyStep_heeds value args
  | compare left right => exact Handler.combine_heeds .equal left right

/-- Everything that happens while a request is met by handlers. A request is listed once it has been met, after
all that it led to. -/
def handledTrace : Nat → Request → World → List Event
  | 0, request, world => [.asked request world (request.handle 0 world)]
  | depth + 1, request, world =>
    request.handler.events (handle depth) (handledTrace depth) world ++
      [.asked request world (request.handle (depth + 1) world)]

end Request

/-- Whatever happens while pairs are compared happens while one of them is compared. -/
private theorem Plan.compareAll_events {answer : Request → World → Ending Value}
    {inside : Request → World → List Event} {event : Event} (pairs : List (Value × Value)) {world : World}
    (happened : event ∈ (compareAll pairs).events answer inside world) :
    ∃ left right start, event ∈ inside (.compare left right) start := by
  induction pairs generalizing world with
  | nil => cases happened
  | cons pair pairs ih =>
    obtain ⟨left, right⟩ := pair
    simp only [compareAll, compare, ask_bind, done_bind, events, List.mem_append] at happened
    rcases happened with here | later
    · exact ⟨left, right, world, here⟩
    · split at later
      · split at later
        · exact ih later
        · cases later
      · cases later

/-- What comes of a comparison is no error, and no error comes up during one. -/
theorem Request.comparison_gives_no_error {depth : Nat} {left right value : Value} {start after : World}
    (happened : .asked request found (.ok value, after) ∈ (compare left right).handledTrace depth start) :
    value.isError = false := by
  induction depth generalizing left right start with
  | zero =>
    simp only [handledTrace, handle, List.mem_singleton, Event.asked.injEq, Prod.mk.injEq] at happened
    cases happened.2.2.1
  | succ depth ih =>
    simp only [handledTrace, List.mem_append, List.mem_singleton, Event.asked.injEq] at happened
    rcases happened with inside | ⟨_, _, ended⟩
    · have compared : ∃ left right start,
          .asked request found (.ok value, after) ∈ (compare left right).handledTrace depth start := by
        simp only [handler, Handler.combine] at inside
        split at inside
        · rw [Plan.combine] at inside
          split at inside
          · exact Plan.compareAll_events _ inside
          · cases inside
        · rw [Value.binaryOp_equal] at inside
          cases inside
      obtain ⟨left, right, start, inside⟩ := compared
      exact ih inside
    · rw [handle_eq, perform_compare] at ended
      split at ended
      · cases ended
        rfl
      · cases ended

/-- In a plan that heeds errors, an error that ends a request ends the plan in the same world, if that is so for
each request of the plan by itself. -/
theorem Plan.error_ends_plan {answer : Request → World → Ending Value}
    {inside : Request → World → List Event} {bad : Value → α} {plan : Plan α} {serial : Nat}
    {failure : Failure} {after : World}
    (below : ∀ inner start, .asked request found (.ok (.error serial failure), after) ∈ inside inner start →
      inner.isComparison = false ∧ answer inner start = (.ok (.error serial failure), after))
    (heeds : plan.Heeds bad)
    (happened : .asked request found (.ok (.error serial failure), after) ∈ plan.events answer inside world) :
    plan.carryOut answer world = (.ok (bad (.error serial failure)), after) := by
  induction plan generalizing world with
  | done value => cases happened
  | stop reason => cases happened
  | act action next ih =>
    simp only [events, List.mem_cons, reduceCtorEq, false_or] at happened
    exact ih _ (heeds _) happened
  | ask inner next ih =>
    simp only [events, List.mem_append] at happened
    rcases happened with here | later
    · obtain ⟨notComparison, isError⟩ := below inner world here
      rw [carryOut, isError]
      simp only [heeds.1 notComparison, carryOut]
    · rw [carryOut]
      generalize answer inner world = ending at later
      obtain ⟨result, middle⟩ := ending
      cases result with
      | error reason => cases later
      | ok value => exact ih value (heeds.2 value) later

/-- An error that is given back, however deep, is what the request gives back that led to it. -/
theorem Request.error_ends_request {depth serial : Nat} {failure : Failure} {outer : Request} {after : World}
    (happened : .asked request found (.ok (.error serial failure), after) ∈ outer.handledTrace depth world) :
    outer.handle depth world = (.ok (.error serial failure), after) := by
  induction depth generalizing outer world with
  | zero =>
    simp only [handledTrace, List.mem_singleton, Event.asked.injEq] at happened
    exact happened.2.2.symm
  | succ depth ih =>
    simp only [handledTrace, List.mem_append, List.mem_singleton, Event.asked.injEq] at happened
    rcases happened with inside | ⟨rfl, rfl, ended⟩
    · refine Plan.error_ends_plan (fun inner start within => ⟨?_, ih within⟩) outer.handler_heeds inside
      cases inner with
      | eval | apply => rfl
      | compare => cases comparison_gives_no_error within
    · exact ended.symm

/-- Where errors are values that handlers look for, take any piece of code that is run and any value that is
applied while a tree is evaluated, however deep. If it gives back an error, the evaluation gives back that very
error, and in the world in which it came up: nothing is bound, printed or read any more. The evaluation of the
tree proper, which stops at errors, ends with the same error in the same world. -/
theorem first_error_ends_evaluation (tree : Tree) (depth scope : Nat) (world : World)
    (request : Request) (found after : World) (serial : Nat) (failure : Failure)
    (happened : .asked request found (.ok (.error serial failure), after) ∈
      (Request.eval (.ofTree tree) scope).handledTrace depth world) :
    (Request.eval (.ofTree tree) scope).handle depth world = (.ok (.error serial failure), after) ∧
      evaluateTo depth (.ofTree tree) tree.describe scope world = (.ok (.error serial failure), after) := by
  have handled := Request.error_ends_request happened
  refine ⟨handled, ?_⟩
  rw [← evaluateHanding_eq, evaluateHanding, handled]
  rfl

/-- The first operand of `[x, print]` is not bound, so the rest of the array is not looked at. -/
theorem first_error_ends_evaluation_of_unbound :
    let world : World := ⟨#[.empty none], 0, [], "", []⟩
    let tree : Tree := .node .array
      [.leaf (.terminal .identifier) "x", .leaf (.terminal .identifier) "print"]
    Event.asked (.eval (.ident "x") 0) world
        (.ok (.error 0 (.unbound "x")), { world with nextSerial := 1 }) ∈
      (Request.eval (.ofTree tree) 0).handledTrace 2 world ∧
    evaluateTo 2 (.ofTree tree) tree.describe 0 world =
      (.ok (.error 0 (.unbound "x")), { world with nextSerial := 1 }) := by
  intro world tree
  have unbound : world.find? "x" 0 = none := by
    rw [World.find?]
    rfl
  have noBuiltin : Builtin.ofName? "x" = none := rfl
  have happened : Event.asked (.eval (.ident "x") 0) world
      (.ok (.error 0 (.unbound "x")), { world with nextSerial := 1 }) ∈
      (Request.eval (.ofTree tree) 0).handledTrace 2 world := by
    simp [tree, Code.ofTree, Code.ofTrees, Code.ofLeaf, Request.handledTrace, Request.handle, Request.handler,
      Handler.step, Handler.collect, Handler.collectAfter, Plan.handed, Plan.attempt, Plan.step, Plan.run,
      Plan.lookup, Plan.find, Plan.fail, Plan.freshSerial, Plan.events, Plan.carryOut, Action.perform,
      World.takeSerial, unbound, noBuiltin]
    exact .inl ⟨rfl, rfl⟩
  exact ⟨happened, (first_error_ends_evaluation tree 2 0 world _ _ _ 0 (.unbound "x") happened).2⟩

end TreeWalk
