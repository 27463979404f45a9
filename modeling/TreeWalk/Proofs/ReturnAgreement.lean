import TreeWalk.Proofs.ReturnExit
import TreeWalk.Proofs.ReturnPlacement

/-! Signals and exits come to the same.

A request is quiet if it cannot be answered with a signal. A plan of quiet requests does the same in both
accounts. Other plans mirror each other: they take the same actions and make the same requests, and where
the answer can be a signal the first plan ends with it. From this the two accounts agree at one level if
they agree one level below, and so at every depth. -/
namespace TreeWalk

/-- No signal can come of the request, if the discipline is kept. -/
def Request.Quiet : Request → Prop
  | .eval code _ => ¬ code.HoldsReturn
  | .apply .. | .compare .. => True

theorem Request.Quiet.clean {request : Request} (quiet : request.Quiet)
    (replied : returnDiscipline.replies size request value) : value.Clean := by
  cases request with
  | eval code scope => exact replied.clean_of_quiet quiet
  | apply callee args => exact replied
  | compare left right => exact .plain replied

namespace Plan

/-- Every request of the plan is quiet. -/
def Quiet : Plan α → Prop
  | done _ => True
  | stop _ => True
  | act _ next => ∀ answer, (next answer).Quiet
  | ask request next => request.Quiet ∧ ∀ value, (next value).Quiet

theorem Quiet.bind {plan : Plan α} {rest : α → Plan β} (first : plan.Quiet)
    (second : ∀ value, (rest value).Quiet) : (plan >>= rest).Quiet := by
  induction plan with
  | done value => exact second value
  | stop reason => trivial
  | act action next ih => exact fun answer => ih answer (first answer)
  | ask request next ih => exact ⟨first.1, fun value => ih value (first.2 value)⟩

private theorem action_quiet (action : Action) : (act action done).Quiet := fun _ => trivial

private theorem fail_quiet (failure : Failure) : (fail failure : Plan α).Quiet := fun _ => trivial

private theorem run_quiet (quiet : ¬ code.HoldsReturn) : (run code scope).Quiet := ⟨quiet, fun _ => trivial⟩

private theorem call_quiet (callee : Value) (args : List Value) : (call callee args).Quiet :=
  ⟨trivial, fun _ => trivial⟩

private theorem ofResult_quiet (result : Except Failure Value) : (ofResult result).Quiet := by
  cases result with
  | ok value => trivial
  | error failure => exact fail_quiet failure

private theorem lookup_quiet (scope : Nat) (name : String) : (lookup scope name).Quiet := by
  refine (action_quiet _).bind fun found => ?_
  cases found with
  | some value => trivial
  | none =>
    cases Builtin.ofName? name with
    | some b => trivial
    | none => exact fail_quiet _

private theorem collect_quiet (quiet : ∀ code ∈ codes, ¬ code.HoldsReturn) : (collect scope codes).Quiet := by
  suffices ∀ values, (collectAfter scope values codes).Quiet from this []
  induction codes with
  | nil => exact fun _ => trivial
  | cons code rest ih =>
    intro values
    have quietRest := fun part member => quiet part (List.mem_cons_of_mem _ member)
    exact (run_quiet (quiet code List.mem_cons_self)).bind fun value => ih quietRest _

private theorem requireUnbound_quiet (scope : Nat) (names : List String) :
    (requireUnbound scope names).Quiet := by
  induction names with
  | nil => trivial
  | cons name names ih =>
    refine (action_quiet _).bind fun found => ?_
    split
    · exact fail_quiet _
    · exact ih

private theorem loopItems_quiet (scope : Nat) (source element : String) (index : Option String) :
    (loopItems scope source element index).Quiet := by
  refine (action_quiet _).bind fun found => ?_
  split
  · exact fail_quiet _
  · split
    · exact fail_quiet _
    · exact (requireUnbound_quiet scope _).bind fun _ => trivial
  · exact fail_quiet _

private theorem assignAll_quiet (scope : Nat) (bindings : List (String × Value)) :
    (assignAll scope bindings).Quiet := by
  induction bindings with
  | nil => trivial
  | cons binding rest ih => exact (action_quiet _).bind fun _ => ih

private theorem split_quiet (predicate : Value) (items : List Value) : (split predicate items).Quiet := by
  suffices ∀ matched others, (splitAfter predicate matched others items).Quiet from this [] []
  induction items with
  | nil => exact fun _ _ => trivial
  | cons item items ih =>
    intro matched others
    have verdict : (call predicate [item] >>= settle).Quiet :=
      (call_quiet predicate [item]).bind fun value => by cases value <;> trivial
    refine verdict.bind fun value => ?_
    split
    · exact ih _ _
    · exact ih _ _
    · exact fail_quiet _

private theorem runBuiltin_quiet (b : Builtin) (args : List Value) : (runBuiltin b args).Quiet := by
  suffices ∀ plan, BuiltinPlan args plan → plan.Quiet from this _ (runBuiltin_plan b args)
  intro plan shape
  cases shape with
  | makes made => trivial
  | fails failure => exact fail_quiet failure
  | prints text => exact (action_quiet _).bind fun _ => trivial
  | reads => exact (action_quiet _).bind fun _ => trivial
  | divides shape => exact (split_quiet _ _).bind fun _ => trivial

private theorem compareAll_quiet (pairs : List (Value × Value)) : (compareAll pairs).Quiet := by
  induction pairs with
  | nil => trivial
  | cons pair pairs ih =>
    have asked : (compare pair.1 pair.2).Quiet := ⟨trivial, fun _ => trivial⟩
    refine asked.bind fun verdict => ?_
    split
    · exact ih
    · trivial

private theorem combine_quiet (op : Binary) (left right : Value) : (combine op left right).Quiet := by
  suffices ∀ plan, OperationPlan op left right plan → plan.Quiet from this _ (combine_plan op left right)
  intro plan shape
  cases shape with
  | atOnce => exact ofResult_quiet _
  | inPairs => exact compareAll_quiet _

/-- Nodes that have nothing to do with signals ask only for what cannot give one. -/
private theorem step_quiet (disciplined : code.Disciplined) (ordinary : code.Ordinary) :
    (step scope code).Quiet := by
  have operand : ∀ part ∈ code.operands, ¬ part.HoldsReturn := fun _ => disciplined.operand_quiet
  cases code with
  | program | block | giveBack | loop | branch => cases ordinary
  | bind name value =>
    exact (run_quiet (operand value List.mem_cons_self)).bind fun _ => (action_quiet _).bind fun _ => trivial
  | function params body => exact (action_quiet .takeSerial).bind fun _ => trivial
  | call callee args =>
    obtain ⟨calleeQuiet, argsQuiet⟩ := List.forall_mem_cons.mp operand
    exact (run_quiet calleeQuiet).bind fun _ => (collect_quiet argsQuiet).bind fun _ => call_quiet _ _
  | subscript left index =>
    obtain ⟨leftQuiet, indexQuiet⟩ := List.forall_mem_cons.mp operand
    exact (run_quiet leftQuiet).bind fun _ =>
      (run_quiet (indexQuiet index List.mem_cons_self)).bind fun _ => ofResult_quiet _
  | binary op left right =>
    obtain ⟨leftQuiet, rightQuiet⟩ := List.forall_mem_cons.mp operand
    exact (run_quiet leftQuiet).bind fun _ =>
      (run_quiet (rightQuiet right List.mem_cons_self)).bind fun _ => combine_quiet _ _ _
  | unary op part => exact (run_quiet (operand part List.mem_cons_self)).bind fun _ => ofResult_quiet _
  | array items => exact (collect_quiet operand).bind fun _ => trivial
  | int | str | bool | fault => trivial
  | ident name => exact lookup_quiet scope name
  | fail failure => exact fail_quiet failure

/-- A plan and what it comes to when its requests are left by a `return` instead of being answered with a
signal. -/
inductive Mirrors : Plan Value → Plan Value → Prop where
  | done (plain : value.isSignal = false) : Mirrors (done value) (done value)
  | stop : Mirrors (stop reason) (stop reason)
  | act {next next' : action.Answer → Plan Value} (rest : ∀ answer, Mirrors (next answer) (next' answer)) :
      Mirrors (act action next) (act action next')
  | ask {next next' : Value → Plan Value}
      (rest : ∀ value, value.isSignal = false → Mirrors (next value) (next' value))
      (handsOn : request.Quiet ∨ ∀ serial value, next (.signal serial value) = done (.signal serial value)) :
      Mirrors (ask request next) (ask request next')

theorem Quiet.mirrors_bind {plan : Plan α} {rest rest' : α → Plan Value} (quiet : plan.Quiet)
    (mirrors : ∀ value, Mirrors (rest value) (rest' value)) : Mirrors (plan >>= rest) (plan >>= rest') := by
  induction plan with
  | done value => exact mirrors value
  | stop reason => exact .stop
  | act action next ih => exact .act fun answer => ih answer (quiet answer)
  | ask request next ih => exact .ask (fun value _ => ih value (quiet.2 value)) (.inl quiet.1)

theorem Mirrors.bind {rest rest' : Value → Plan Value} (first : Mirrors plan plan')
    (second : ∀ value, value.isSignal = false → Mirrors (rest value) (rest' value))
    (handsOn : ∀ serial value, rest (.signal serial value) = Plan.done (.signal serial value)) :
    Mirrors (plan >>= rest) (plan' >>= rest') := by
  induction first with
  | done plain => exact second _ plain
  | stop => exact .stop
  | act _ ih => exact .act ih
  | ask _ handsOnFirst ih =>
    refine .ask ih (handsOnFirst.imp id fun handed serial value => ?_)
    exact (congrArg (· >>= rest) (handed serial value)).trans (handsOn serial value)

private theorem run_mirrors (code : Code) (scope : Nat) : Mirrors (run code scope) (run code scope) :=
  .ask (fun _ plain => .done plain) (.inr fun _ _ => rfl)

private theorem sequence_mirrors (scope : Nat) (codes : List Code) (plain : last.isSignal = false) :
    Mirrors (sequence scope last codes) (inOrder scope last codes) := by
  induction codes generalizing last with
  | nil => exact .done plain
  | cons code rest ih =>
    refine (run_mirrors code scope).bind (fun value plainValue => ?_) (fun _ _ => rfl)
    simp only [plainValue, Bool.false_eq_true, if_false]
    exact ih plainValue

private theorem passes_mirrors (scope : Nat) (element : String) (index : Option String) (body : List Code)
    (count : Nat) (items : List Value) :
    Mirrors (passes scope element index body count items) (inTurn scope element index body count items) := by
  induction items generalizing count with
  | nil => exact .done rfl
  | cons item items ih =>
    refine (assignAll_quiet scope _).mirrors_bind fun _ => ?_
    refine (sequence_mirrors scope body rfl).bind (fun value plainValue => ?_) (fun _ _ => rfl)
    simp only [plainValue, Bool.false_eq_true, if_false]
    exact ih (count + 1)

end Plan

/-- The two ways to meet requests agree on all that the discipline allows, and the first one keeps it. -/
structure Agree (signalling : Request → World → Ending Value) (leaving : Request → World → Leaving Value) :
    Prop where
  ends : ∀ request (world : World), world.Clean → returnDiscipline.asks world.scopes.size request →
    returnDiscipline.Ends world.scopes.size (returnDiscipline.replies · request) (signalling request world)
  same : ∀ request (world : World), world.Clean → returnDiscipline.asks world.scopes.size request →
    leaving request world = (signalling request world).exits

namespace Agree

variable {signalling : Request → World → Ending Value} {leaving : Request → World → Leaving Value}

theorem plan_ends {plan : Plan α} (agree : Agree signalling leaving) (clean : world.Clean)
    (kept : plan.Keeps returnDiscipline post world.scopes.size) :
    returnDiscipline.Ends world.scopes.size post (plan.carryOut signalling world) := by
  have met : ∀ request start, returnDiscipline.world start →
      returnDiscipline.asks start.scopes.size request →
      returnDiscipline.Ends start.scopes.size (returnDiscipline.replies · request)
        (signalling request start) ∧
        ∀ event ∈ ([] : List Event), returnDiscipline.Fits event :=
    fun request start ready asked => ⟨agree.ends request start ready asked, by simp⟩
  exact (Plan.carryOut_keeps met clean kept).1

theorem follow_quiet {plan : Plan α} (agree : Agree signalling leaving) (clean : world.Clean)
    (kept : plan.Keeps returnDiscipline post world.scopes.size) (quiet : plan.Quiet) :
    plan.follow leaving world = (plan.carryOut signalling world).within := by
  induction plan generalizing world with
  | done value => rfl
  | stop reason => rfl
  | act action next ih =>
    obtain ⟨cleanAfter, answered⟩ := Action.perform_kept clean kept.1
    exact ih _ cleanAfter (kept.2 _ _ answered) (quiet _)
  | ask request next ih =>
    have ends := agree.ends request world clean kept.1
    simp only [Plan.follow, Plan.carryOut, agree.same request world clean kept.1]
    cases met : signalling request world with
    | mk result after =>
      rw [met] at ends
      cases result with
      | error reason => rfl
      | ok value =>
        have replied := ends.result value rfl
        rw [Ending.exits_of_not_signal (quiet.1.clean replied).not_signal]
        exact ih value ends.world (kept.2 _ value ends.grown replied) (quiet.2 value)

theorem follow_mirror {plan mirror : Plan Value} (agree : Agree signalling leaving) (clean : world.Clean)
    (kept : plan.Keeps returnDiscipline post world.scopes.size) (mirrors : plan.Mirrors mirror) :
    mirror.follow leaving world = (plan.carryOut signalling world).exits := by
  induction mirrors generalizing world with
  | done plain => exact (Ending.exits_of_not_signal plain).symm
  | stop => rfl
  | act _ ih =>
    obtain ⟨cleanAfter, answered⟩ := Action.perform_kept clean kept.1
    exact ih _ cleanAfter (kept.2 _ _ answered)
  | @ask request next next' _ handsOn ih =>
    have ends := agree.ends request world clean kept.1
    simp only [Plan.follow, Plan.carryOut, agree.same request world clean kept.1]
    cases met : signalling request world with
    | mk result after =>
      rw [met] at ends
      cases result with
      | error reason => rfl
      | ok value =>
        have replied := ends.result value rfl
        by_cases plain : value.isSignal = false
        · rw [Ending.exits_of_not_signal plain]
          exact ih value plain ends.world (kept.2 _ value ends.grown replied)
        · rcases handsOn with quiet | handsOn
          · exact absurd (quiet.clean replied).not_signal plain
          · cases value with
            | signal serial inner => simp only [handsOn serial inner, Plan.carryOut, Ending.exits]
            | _ => exact absurd rfl plain

theorem leave_ordinary (agree : Agree signalling leaving) (clean : world.Clean)
    (disciplined : code.Disciplined) (ordinary : code.Ordinary) :
    (Plan.step scope code).follow leaving world =
      ((Plan.step scope code).carryOut signalling world).exits := by
  have kept : (Plan.step scope code).Keeps returnDiscipline (fun _ => code.Gives) world.scopes.size :=
    Plan.step_keeps (returnDiscipline.supports disciplined) trivial
  rw [agree.follow_quiet clean kept (Plan.step_quiet disciplined ordinary), Ending.exits_eq_within]
  intro value ended
  have given := (agree.plan_ends clean kept).result value ended
  exact (given.clean_of_quiet (ordinary.not_holdsReturn disciplined)).not_signal

/-- One node comes to the same in both accounts. -/
theorem leave_code (agree : Agree signalling leaving) (clean : world.Clean) (disciplined : code.Disciplined) :
    code.leave leaving scope world = ((Plan.step scope code).carryOut signalling world).exits := by
  have kept : (Plan.step scope code).Keeps returnDiscipline (fun _ => code.Gives) world.scopes.size :=
    Plan.step_keeps (returnDiscipline.supports disciplined) trivial
  cases code with
  | program body =>
    have ends := agree.plan_ends clean kept
    have notSignal : ∀ value, ((Plan.step scope (.program body)).carryOut signalling world).1 = .ok value →
        value.isSignal = false := by
      intro value ended
      refine ((ends.result value ended).clean_of_quiet fun holds => ?_).not_signal
      cases holds with
      | operand member | statement member => cases member
    rw [Ending.exits_eq_within notSignal, Code.leave,
      agree.follow_mirror clean kept.first (Plan.sequence_mirrors scope body rfl),
      ← Plan.carryOut_unwrap]
    rfl
  | block body => exact agree.follow_mirror clean kept (Plan.sequence_mirrors scope body rfl)
  | giveBack value =>
    have quiet : (Plan.run value scope).Quiet := Plan.run_quiet (disciplined.operand_quiet List.mem_cons_self)
    rw [Code.leave, agree.follow_quiet clean kept.first quiet, Plan.step, Plan.carryOut_bind]
    obtain ⟨result, after⟩ := (Plan.run value scope).carryOut signalling world
    cases result with
    | ok value => rfl
    | error reason => rfl
  | loop source element index body =>
    refine agree.follow_mirror clean kept ?_
    exact (Plan.loopItems_quiet scope source element index).mirrors_bind fun items =>
      Plan.passes_mirrors scope element index body 0 items
  | branch condition consequence alternative =>
    refine agree.follow_mirror clean kept ?_
    have quiet : ¬ condition.HoldsReturn := disciplined.operand_quiet List.mem_cons_self
    refine (Plan.run_quiet quiet).mirrors_bind fun verdict => ?_
    split
    · exact Plan.run_mirrors consequence scope
    · exact Plan.run_mirrors alternative scope
  | _ => exact agree.leave_ordinary clean disciplined trivial

/-- One application comes to the same in both accounts. -/
theorem leave_value (agree : Agree signalling leaving) (clean : world.Clean) (callee : value.Clean)
    (passed : ∀ arg ∈ args, arg.Clean) :
    value.leave leaving args world = ((Plan.applyStep value args).carryOut signalling world).exits := by
  have kept : (Plan.applyStep value args).Keeps returnDiscipline (fun _ => Value.Clean) world.scopes.size :=
    Plan.applyStep_keeps (Nat.zero_le _) callee passed
  have ends := agree.plan_ends clean kept
  rw [Ending.exits_eq_within fun value ended => (ends.result value ended).not_signal]
  cases value with
  | function serial params body outer =>
    by_cases counted : args.length = params.length
    · simp only [Value.leave, Plan.applyStep, Plan.enter, counted, if_true, ← bind_assoc] at kept ⊢
      rw [Plan.carryOut_unwrap]
      have plain : Value.null.isSignal = false := rfl
      have mirrors := (Plan.action_quiet (.addScope ⟨some outer, params.zip args⟩)).mirrors_bind fun scope =>
        Plan.sequence_mirrors scope body plain
      rw [← agree.follow_mirror clean kept.first mirrors]
      rfl
    · have quiet : (Plan.applyStep (.function serial params body outer) args).Quiet := by
        simp only [Plan.applyStep, counted, if_false]
        exact (Plan.action_quiet _).bind fun _ => Plan.fail_quiet _
      rw [← agree.follow_quiet clean kept quiet]
      simp only [Value.leave, counted, if_false]
  | builtin b => exact agree.follow_quiet clean kept (Plan.runBuiltin_quiet b args)
  | _ => exact agree.follow_quiet clean kept (Plan.fail_quiet _)

/-- One comparison comes to the same in both accounts. -/
theorem leave_comparison {left right : Value} (agree : Agree signalling leaving) (clean : world.Clean)
    (leftClean : left.Clean) (rightClean : right.Clean) :
    (Plan.combine .equal left right).follow leaving world =
      ((Plan.combine .equal left right).carryOut signalling world).exits := by
  have kept : (Plan.combine .equal left right).Keeps returnDiscipline _ world.scopes.size :=
    Plan.combine_keeps leftClean rightClean
  have ends := agree.plan_ends clean kept
  rw [Ending.exits_eq_within fun value ended => (ends.result value ended).2.2]
  exact agree.follow_quiet clean kept (Plan.combine_quiet .equal left right)

end Agree

/-- At every depth the two ways to meet requests agree. -/
theorem Request.perform_agrees_leave (depth : Nat) : Agree (perform depth) (leave depth) := by
  induction depth with
  | zero => exact ⟨fun request world clean asked => (run_keeps returnDiscipline 0 request clean asked).1,
      fun _ _ _ _ => rfl⟩
  | succ depth agree =>
    refine ⟨fun request world clean asked => (run_keeps returnDiscipline _ request clean asked).1, ?_⟩
    intro request world clean asked
    cases request with
    | eval code scope =>
      rw [leave, agree.leave_code clean asked.1, ← Plan.carryOut_settle]
      rfl
    | apply value args => exact agree.leave_value clean asked.1 asked.2
    | compare left right => exact agree.leave_comparison clean asked.1 asked.2

/-- Disciplined code in a clean world comes to the same in both accounts. -/
theorem evaluateTo_eq_evaluateLeaving {code : Code} (disciplined : code.Disciplined) (depth scope : Nat)
    (what : String) {world : World} (clean : world.Clean) :
    evaluateTo depth code what scope world = evaluateLeaving depth code what scope world := by
  have asked : returnDiscipline.asks world.scopes.size (.eval code scope) := ⟨disciplined, trivial⟩
  rw [evaluateTo, evaluateLeaving, (Request.perform_agrees_leave depth).same _ world clean asked]
  obtain ⟨result, after⟩ := (Request.eval code scope).perform depth world
  cases result with
  | ok value => cases value <;> rfl
  | error reason => cases reason <;> rfl

/-- Disciplined code leaves a clean world clean, and comes to a clean value. -/
theorem evaluateTo_clean {code : Code} (disciplined : code.Disciplined) (depth scope : Nat) (what : String)
    {world : World} (clean : world.Clean) :
    (evaluateTo depth code what scope world).2.Clean ∧
      ∀ value, (evaluateTo depth code what scope world).1 = .ok value → value.Clean := by
  have asked : returnDiscipline.asks world.scopes.size (.eval code scope) := ⟨disciplined, trivial⟩
  obtain ⟨cleanAfter, given⟩ := evaluateTo_keeps returnDiscipline depth what clean asked
  refine ⟨cleanAfter, fun value ended => ?_⟩
  rcases given value ended with ⟨serial, reason, rfl⟩ | ⟨_, inner, gives, rfl⟩
  · exact .error serial reason
  · exact gives.clean_unwrap

/-- For a program in which no branch with a `return` stands in value position, and in a clean world,
evaluation comes to what it comes to when a `return` leaves at once for the end of the function or of the
program: the result is the same, and so is the world, with its scopes, its output and the input left to
read. The world stays clean and the result is clean, and on the way no signal is bound, put into an array,
passed to an application or given back by one. -/
theorem return_is_exit {spelled : Terminal → String → Prop} (tree : Tree) (isProgram : tree.IsProgram spelled)
    (disciplined : tree.ReturnDisciplined) (depth scope : Nat) (world : World) (clean : world.Clean) :
    evaluateTo depth (.ofTree tree) tree.describe scope world =
        evaluateLeaving depth (.ofTree tree) tree.describe scope world ∧
      (evaluateTo depth (.ofTree tree) tree.describe scope world).2.Clean ∧
      (∀ value, (evaluateTo depth (.ofTree tree) tree.describe scope world).1 = .ok value → value.Clean) ∧
      ∀ event ∈ (Request.eval (.ofTree tree) scope).trace depth world, event.Clean := by
  have code : (Code.ofTree tree).Disciplined := isProgram.disciplined disciplined
  have asked : returnDiscipline.asks world.scopes.size (.eval (.ofTree tree) scope) := ⟨code, trivial⟩
  obtain ⟨cleanAfter, cleanResult⟩ := evaluateTo_clean code depth scope tree.describe clean
  have ran := Request.run_keeps returnDiscipline depth (.eval (.ofTree tree) scope) clean asked
  exact ⟨evaluateTo_eq_evaluateLeaving code depth scope tree.describe clean, cleanAfter, cleanResult,
    fun event member => Event.clean_of_fits (ran.2 event member)⟩

/-- The tree of `if (f()) { return 1 } 2`, in a world where the body of `f` is `return true`. -/
theorem return_is_exit_of_early_return :
    let constant : Value := .function 0 [] [.giveBack (.bool true)] 0
    let world : World := ⟨#[⟨none, [("f", constant)]⟩], 1, [], "", []⟩
    let condition : Tree := .node .call [.leaf (.terminal .identifier) "f", .node .args []]
    let early : Tree := .node .block [.node .returning [.leaf (.terminal .integer) "1"]]
    let tree : Tree := .node .program [.node .evaluation [.node .branch [condition, early, .absent]],
      .node .evaluation [.leaf (.terminal .integer) "2"]]
    (tree.IsProgram (fun _ _ => True) ∧ tree.ReturnDisciplined ∧ world.Clean) ∧
      evaluateTo 9 (.ofTree tree) tree.describe 0 world =
        evaluateLeaving 9 (.ofTree tree) tree.describe 0 world := by
  intro constant world condition early tree
  have isProgram : tree.IsProgram (fun _ _ => True) := by
    have numeral : ∀ text, Tree.IsExpression (fun _ _ => True) (.leaf (.terminal .integer) text) :=
      fun text => .atom ⟨.integer, by decide, text, trivial, rfl⟩
    have name : Tree.IsExpression (fun _ _ => True) (.leaf (.terminal .identifier) "f") :=
      .atom ⟨.identifier, by decide, "f", trivial, rfl⟩
    have isBlock : Tree.IsBlock (fun _ _ => True) early :=
      .block (List.forall_mem_singleton.mpr (.returning (numeral "1")))
    refine ⟨_, List.forall_mem_cons.mpr ⟨.evaluation (.branch (.call name (by simp)) isBlock), ?_⟩, rfl⟩
    exact List.forall_mem_singleton.mpr (.evaluation (numeral "2"))
  have disciplined : tree.ReturnDisciplined := by
    have applied : condition.ReturnDisciplined :=
      .node (by simp [Tree.valueParts, Tree.label?])
        (by simpa using ⟨.leaf, .node (List.forall_mem_nil _) (List.forall_mem_nil _)⟩)
    have returned : early.ReturnDisciplined :=
      .node (List.forall_mem_nil _) (List.forall_mem_singleton.mpr
        (.node (by simp [Tree.valueParts, Tree.label?]) (List.forall_mem_singleton.mpr .leaf)))
    have branch : Tree.ReturnDisciplined (.node .branch [condition, early, .absent]) := by
      refine .node (by simp [Tree.valueParts, Tree.label?, condition]) ?_
      simpa using ⟨applied, returned, .absent⟩
    have stated : ∀ part, Tree.ReturnDisciplined part → Tree.ReturnDisciplined (.node .evaluation [part]) :=
      fun part disciplined => .node (List.forall_mem_nil _) (List.forall_mem_singleton.mpr disciplined)
    refine .node (List.forall_mem_nil _) (List.forall_mem_cons.mpr ⟨stated _ branch, ?_⟩)
    exact List.forall_mem_singleton.mpr (stated _ .leaf)
  have clean : world.Clean := by
    have returned : (Code.giveBack (.bool true)).Disciplined := by
      have literal : (Code.bool true).Steady := Code.Ordinary.steady trivial (List.forall_mem_nil _) rfl
      exact .of_steady (List.forall_mem_singleton.mpr literal) (List.forall_mem_nil _) (List.forall_mem_nil _)
    rintro value ⟨scope, inWorld, binding, bound, rfl⟩
    rw [List.mem_singleton.mp (Array.mem_toList_iff.mpr inWorld)] at bound
    rw [List.mem_singleton.mp bound]
    exact .function (List.forall_mem_singleton.mpr returned)
  exact ⟨⟨isProgram, disciplined, clean⟩, (return_is_exit tree isProgram disciplined 9 0 world clean).1⟩

end TreeWalk
