import TreeWalk.Proofs.Bindings
import TreeWalk.Proofs.Traffic
import TreeWalk.Proofs.ValueOrigin

/-! Input that is not read has no influence.

Input is taken line by line, and a line that is not the last one ends with a line feed. So a run that leaves
some input has found the line feed of every line it took, and it has seen nothing of what comes after the
last of them: with anything else there it does the same. What it took is what it was given, line by line. -/
namespace TreeWalk

namespace Text

theorem takeLine_lineFeed (rest : List Char) : takeLine ('\n' :: rest) = ([], rest) := rfl

theorem takeLine_cons (notLineFeed : c ≠ '\n') (rest : List Char) :
    takeLine (c :: rest) = (c :: (takeLine rest).1, (takeLine rest).2) := by
  simp [takeLine, notLineFeed]

/-- A line that ends with a line feed is taken as it is, whatever comes after it. -/
theorem takeLine_append (oneLine : '\n' ∉ line) (rest : List Char) :
    takeLine (line ++ '\n' :: rest) = (line, rest) := by
  induction line with
  | nil => exact takeLine_lineFeed rest
  | cons c line ih =>
    rw [List.mem_cons, not_or] at oneLine
    rw [List.cons_append, takeLine_cons (Ne.symm oneLine.1), ih oneLine.2]

/-- If something is left after a line was taken, then a line feed was taken with it. -/
theorem eq_of_takeLine (taken : takeLine cs = (line, left)) (more : left ≠ []) :
    cs = line ++ '\n' :: left ∧ '\n' ∉ line := by
  induction cs generalizing line with
  | nil =>
    cases taken
    exact absurd rfl more
  | cons c cs ih =>
    by_cases isLineFeed : c = '\n'
    · subst isLineFeed
      cases taken
      exact ⟨rfl, List.not_mem_nil⟩
    · rw [takeLine_cons isLineFeed, Prod.mk.injEq] at taken
      obtain ⟨rfl, rfl⟩ := taken
      obtain ⟨split, oneLine⟩ := ih rfl
      rw [List.mem_cons, not_or]
      exact ⟨congrArg (c :: ·) split, Ne.symm isLineFeed, oneLine⟩

end Text

/-- A world with other input to read. -/
def World.supply (world : World) (input : List Char) : World := { world with input }

/-- Work that leaves some input does the same with anything else in the place of what it leaves. -/
def Heedless (work : World → α × World) : Prop :=
  ∀ world consumed, world.input = consumed ++ (work world).2.input → (work world).2.input ≠ [] →
    ∀ other, work (world.supply (consumed ++ other)) = ((work world).1, (work world).2.supply other)

namespace Heedless

/-- Work that does not touch the input. -/
theorem of_untouched {work : World → α × World} (untouched : ∀ world, (work world).2.input = world.input)
    (same : ∀ world input, work (world.supply input) = ((work world).1, (work world).2.supply input)) :
    Heedless work := by
  intro world consumed split _ other
  rw [untouched, List.self_eq_append_left] at split
  rw [split]
  exact same world other

/-- Two pieces of work, one after the other, divide between them what both of them take. -/
theorem andThen {first : World → α × World} {second : α → World → β × World} (begins : Heedless first)
    (goesOn : ∀ value, Heedless (second value)) (taken : ∀ world, (first world).2.input <:+ world.input)
    (takenNext : ∀ value world, (second value world).2.input <:+ world.input) :
    Heedless fun world => second (first world).1 (first world).2 := by
  intro world consumed split more other
  obtain ⟨before, isBefore⟩ := taken world
  obtain ⟨between, isBetween⟩ := takenNext (first world).1 (first world).2
  have parts : consumed = before ++ between := by
    rw [← isBefore, ← isBetween, ← List.append_assoc] at split
    exact (List.append_cancel_right split).symm
  have moreBetween : (first world).2.input ≠ [] := by
    rw [← isBetween]
    exact List.append_ne_nil_of_right_ne_nil _ more
  have firstSame := begins world before isBefore.symm moreBetween (between ++ other)
  have secondSame := goesOn (first world).1 (first world).2 between isBetween.symm more other
  simp only [parts, List.append_assoc, firstSame, secondSame]

end Heedless

namespace World

theorem supply_bind (world : World) (input : List Char) (scope : Nat) (name : String) (value : Value) :
    (world.supply input).bind scope name value = (world.bind scope name value).supply input := by
  simp only [World.bind, supply]
  split <;> rfl

/-- What is read is a line, and what is left is not looked at. -/
theorem readLine_heedless : Heedless World.readLine := by
  intro world consumed split more other
  obtain ⟨whole, oneLine⟩ := Text.eq_of_takeLine (Prod.eta (Text.takeLine world.input)).symm more
  have line : consumed = (Text.takeLine world.input).1 ++ ['\n'] := by
    rw [whole, ← List.singleton_append, ← List.append_assoc] at split
    exact (List.append_cancel_right split).symm
  have again := Text.takeLine_append oneLine other
  simp only [readLine, supply, line, List.append_assoc, List.singleton_append, again]

end World

theorem Action.perform_heedless (action : Action) : Heedless action.perform := by
  cases action with
  | takeSerial | addScope | print | log => exact .of_untouched (fun _ => rfl) fun _ _ => rfl
  | bind scope name value =>
    refine .of_untouched (fun world => world.bind_input scope name value) fun world input => ?_
    exact congrArg (Prod.mk ()) (world.supply_bind input scope name value)
  | find name scope =>
    refine .of_untouched (fun _ => rfl) fun world input => ?_
    have scopes : (world.supply input).scopes = world.scopes := rfl
    exact congrArg (·, world.supply input) (World.find?_of_scopes scopes name scope)
  | readLine => exact World.readLine_heedless

/-- A plan is heedless if its requests are. -/
theorem Plan.carryOut_heedless {answer : Request → World → Ending Value}
    (below : ∀ request, Heedless (answer request))
    (forward : ∀ request (world : World), world.Later (answer request world).2) (plan : Plan α) :
    Heedless (plan.carryOut answer) := by
  have taken : ∀ (plan : Plan α) world, (plan.carryOut answer world).2.input <:+ world.input :=
    fun plan world => (plan.carryOut_later forward world).precedes.unread
  induction plan with
  | done value => exact .of_untouched (fun _ => rfl) fun _ _ => rfl
  | stop reason => exact .of_untouched (fun _ => rfl) fun _ _ => rfl
  | act action next ih =>
    exact action.perform_heedless.andThen ih (fun world => (action.perform_precedes world).unread)
      fun value => taken (next value)
  | ask request next ih =>
    let goOn : Except Stop Value → World → Ending α
      | .ok value => (next value).carryOut answer
      | .error reason => fun world => (.error reason, world)
    have steps : (ask request next).carryOut answer =
        fun world => goOn (answer request world).1 (answer request world).2 := by
      funext world
      rw [carryOut]
      obtain ⟨result, after⟩ := answer request world
      cases result <;> rfl
    rw [steps]
    refine .andThen (below request) (fun result => ?_)
      (fun world => (forward request world).precedes.unread) fun result world => ?_
    · cases result with
      | ok value => exact ih value
      | error reason => exact .of_untouched (fun _ => rfl) fun _ _ => rfl
    · cases result with
      | ok value => exact taken (next value) world
      | error reason => exact List.suffix_refl _

theorem Request.perform_heedless (depth : Nat) (request : Request) : Heedless (request.perform depth) := by
  induction depth generalizing request with
  | zero => exact .of_untouched (fun _ => rfl) fun _ _ => rfl
  | succ depth ih => exact request.plan.carryOut_heedless ih (perform_later depth)

/-- Whether an action takes input. -/
def Action.reads : Action → Bool
  | readLine => true
  | _ => false

namespace Plan

/-- The plan does not read by itself, though its requests may. -/
def Unreading : Plan α → Prop
  | done _ => True
  | stop _ => True
  | act action next => action.reads = false ∧ ∀ answer, (next answer).Unreading
  | ask _ next => ∀ value, (next value).Unreading

theorem Unreading.bind {plan : Plan α} {rest : α → Plan β} (first : plan.Unreading)
    (second : ∀ value, (rest value).Unreading) : (plan >>= rest).Unreading := by
  induction plan with
  | done value => exact second value
  | stop reason => trivial
  | act action next ih => exact ⟨first.1, fun answer => ih answer (first.2 answer)⟩
  | ask request next ih => exact fun value => ih value (first value)

private theorem action_unreading (other : action.reads = false) : (act action done).Unreading :=
  ⟨other, fun _ => trivial⟩

private theorem fail_unreading (failure : Failure) : (fail failure : Plan α).Unreading :=
  ⟨rfl, fun _ => trivial⟩

private theorem run_unreading (code : Code) (scope : Nat) : (run code scope).Unreading := fun _ => trivial

private theorem find_unreading (name : String) (scope : Nat) : (find name scope).Unreading :=
  action_unreading rfl

private theorem settle_unreading (value : Value) : (settle value).Unreading := by
  cases value <;> trivial

private theorem ofResult_unreading (result : Except Failure Value) : (ofResult result).Unreading := by
  cases result with
  | ok value => trivial
  | error failure => exact fail_unreading failure

private theorem lookup_unreading (scope : Nat) (name : String) : (lookup scope name).Unreading := by
  refine (find_unreading name scope).bind fun found => ?_
  cases found with
  | some value => trivial
  | none =>
    cases Builtin.ofName? name with
    | some b => trivial
    | none => exact fail_unreading _

private theorem sequence_unreading (scope : Nat) (last : Value) (codes : List Code) :
    (sequence scope last codes).Unreading := by
  induction codes generalizing last with
  | nil => trivial
  | cons code rest ih =>
    refine (run_unreading code scope).bind fun value => ?_
    split
    · trivial
    · exact ih value

private theorem collect_unreading (scope : Nat) (codes : List Code) : (collect scope codes).Unreading := by
  suffices ∀ values, (collectAfter scope values codes).Unreading from this []
  induction codes with
  | nil => exact fun _ => trivial
  | cons code rest ih => exact fun values => (run_unreading code scope).bind fun value => ih _

private theorem requireUnbound_unreading (scope : Nat) (names : List String) :
    (requireUnbound scope names).Unreading := by
  induction names with
  | nil => trivial
  | cons name names ih =>
    refine (find_unreading name scope).bind fun found => ?_
    split
    · exact fail_unreading _
    · exact ih

private theorem loopItems_unreading (scope : Nat) (source element : String) (index : Option String) :
    (loopItems scope source element index).Unreading := by
  refine (find_unreading source scope).bind fun found => ?_
  split
  · exact fail_unreading _
  · split
    · exact fail_unreading _
    · exact (requireUnbound_unreading scope _).bind fun _ => trivial
  · exact fail_unreading _

private theorem assignAll_unreading (scope : Nat) (bindings : List (String × Value)) :
    (assignAll scope bindings).Unreading := by
  induction bindings with
  | nil => trivial
  | cons binding rest ih => exact .bind (action_unreading rfl) fun _ => ih

private theorem passes_unreading (scope : Nat) (element : String) (index : Option String)
    (body : List Code) (count : Nat) (items : List Value) :
    (passes scope element index body count items).Unreading := by
  induction items generalizing count with
  | nil => trivial
  | cons item items ih =>
    refine (assignAll_unreading scope _).bind fun _ => ?_
    refine (sequence_unreading scope .null body).bind fun value => ?_
    split
    · trivial
    · exact ih (count + 1)

private theorem split_unreading (predicate : Value) (items : List Value) :
    (split predicate items).Unreading := by
  suffices ∀ matched others, (splitAfter predicate matched others items).Unreading from this [] []
  induction items with
  | nil => exact fun _ _ => trivial
  | cons item items ih =>
    intro matched others value
    refine (settle_unreading value).bind fun verdict => ?_
    split
    · exact ih _ _
    · exact ih _ _
    · exact fail_unreading _

/-- Of the builtins only `readline` reads, and only if it is called as it should be. -/
private theorem runBuiltin_unreading (other : b ≠ .readline ∨ args ≠ []) : (runBuiltin b args).Unreading := by
  fun_cases runBuiltin b args <;> try first | exact fail_unreading _ | trivial
  case case17 items predicate callable => exact (split_unreading predicate items).bind fun _ => trivial
  case case26 value => exact .bind (action_unreading rfl) fun _ => trivial

private theorem applyStep_unreading (other : value ≠ .builtin .readline ∨ args ≠ []) :
    (applyStep value args).Unreading := by
  cases value with
  | function serial params body outer =>
    simp only [applyStep]
    split
    · exact .bind (action_unreading rfl) fun scope => (sequence_unreading scope .null body).bind fun _ => trivial
    · exact .bind (action_unreading rfl) fun _ => fail_unreading _
  | builtin b =>
    exact runBuiltin_unreading (other.imp_left fun notReadline isReadline => notReadline (by rw [isReadline]))
  | _ => exact fail_unreading _

private theorem compareAll_unreading (pairs : List (Value × Value)) : (compareAll pairs).Unreading := by
  induction pairs with
  | nil => trivial
  | cons pair pairs ih =>
    have asked : (compare pair.1 pair.2).Unreading := fun _ => trivial
    refine asked.bind fun verdict => ?_
    split
    · exact ih
    · trivial

private theorem combine_unreading (op : Binary) (left right : Value) : (combine op left right).Unreading := by
  suffices ∀ plan, OperationPlan op left right plan → plan.Unreading from this _ (combine_plan op left right)
  intro plan shape
  cases shape with
  | atOnce => exact ofResult_unreading _
  | inPairs => exact compareAll_unreading _

private theorem step_unreading (scope : Nat) (code : Code) : (step scope code).Unreading := by
  cases code with
  | program body => exact (sequence_unreading scope .null body).bind fun _ => trivial
  | block body => exact sequence_unreading scope .null body
  | bind name value =>
    exact (run_unreading value scope).bind fun _ => .bind (action_unreading rfl) fun _ => trivial
  | giveBack value =>
    exact (run_unreading value scope).bind fun _ => .bind (action_unreading rfl) fun _ => trivial
  | loop source element index body =>
    exact (loopItems_unreading scope source element index).bind fun items =>
      passes_unreading scope element index body 0 items
  | branch condition consequence alternative =>
    refine (run_unreading condition scope).bind fun value => ?_
    split
    · exact run_unreading consequence scope
    · exact run_unreading alternative scope
  | function params body => exact .bind (action_unreading rfl) fun _ => trivial
  | call callee args =>
    exact (run_unreading callee scope).bind fun _ => (collect_unreading scope args).bind fun _ _ => trivial
  | subscript left index =>
    exact (run_unreading left scope).bind fun _ => (run_unreading index scope).bind fun _ =>
      ofResult_unreading _
  | binary op left right =>
    exact (run_unreading left scope).bind fun _ => (run_unreading right scope).bind fun _ =>
      combine_unreading op _ _
  | unary op operand => exact (run_unreading operand scope).bind fun _ => ofResult_unreading _
  | array items => exact (collect_unreading scope items).bind fun _ => trivial
  | int | str | bool | fault => trivial
  | ident name => exact lookup_unreading scope name
  | fail failure => exact fail_unreading failure

end Plan

/-- The only request whose plan reads. -/
def Request.readsLine : Request := .apply (.builtin .readline) []

theorem Request.plan_unreading (other : request ≠ readsLine) : request.plan.Unreading := by
  cases request with
  | eval code scope => exact (Plan.step_unreading scope code).bind Plan.settle_unreading
  | apply value args =>
    refine Plan.applyStep_unreading ?_
    by_contra both
    rw [not_or, not_not, not_not] at both
    exact other (by rw [both.1, both.2, readsLine])
  | compare left right => exact Plan.combine_unreading .equal left right

/-- The line that a call of `readline` gave. -/
def Event.lineGiven? : Event → Option String
  | .asked (.apply (.builtin .readline) _) _ (.ok (.str line), _) => some line
  | _ => none

/-- The lines that calls of `readline` gave, each with a line feed after it. -/
def linesGiven (events : List Event) : List Char :=
  (events.filterMap Event.lineGiven?).flatMap fun line => line.toList ++ ['\n']

theorem linesGiven_append (events events' : List Event) :
    linesGiven (events ++ events') = linesGiven events ++ linesGiven events' := by
  simp [linesGiven]

/-- An event in which no line is given does not count. -/
theorem linesGiven_cons_of_none (none : event.lineGiven? = none) (events : List Event) :
    linesGiven (event :: events) = linesGiven events := by
  simp [linesGiven, none]

/-- Between two worlds, as long as something is left, exactly what the events gave has been taken. -/
def Accounts (before : World) (events : List Event) (after : World) : Prop :=
  after.input ≠ [] → before.input = linesGiven events ++ after.input

namespace Accounts

theorem of_untouched (same : after.input = before.input) : Accounts before [] after :=
  fun _ => same.symm

theorem append (first : Accounts before events middle) (second : Accounts middle events' after)
    (taken : after.input <:+ middle.input) : Accounts before (events ++ events') after := by
  intro more
  have moreBetween : middle.input ≠ [] := fun none => more (List.suffix_nil.mp (none ▸ taken))
  rw [first moreBetween, second more, linesGiven_append, List.append_assoc]

end Accounts

theorem Action.perform_input {action : Action} (other : action.reads = false) (world : World) :
    (action.perform world).2.input = world.input := by
  cases action with
  | readLine => cases other
  | bind scope name value => exact world.bind_input scope name value
  | _ => rfl

/-- A plan that does not read by itself takes what its requests take. -/
theorem Plan.events_account {answer : Request → World → Ending Value} {inside : Request → World → List Event}
    (below : ∀ request world, Accounts world (inside request world) (answer request world).2)
    (forward : ∀ request (world : World), world.Later (answer request world).2) {plan : Plan α}
    (unreading : plan.Unreading) (world : World) :
    Accounts world (plan.events answer inside world) (plan.carryOut answer world).2 := by
  induction plan generalizing world with
  | done value => exact .of_untouched rfl
  | stop reason => exact .of_untouched rfl
  | act action next ih =>
    intro more
    have rest := ih (action.perform world).1 (unreading.2 _) (action.perform world).2 more
    rw [Action.perform_input unreading.1] at rest
    rw [events, linesGiven_cons_of_none rfl]
    exact rest
  | ask request next ih =>
    have first := below request world
    rw [carryOut, events]
    cases met : answer request world with
    | mk result after =>
      rw [met] at first
      cases result with
      | ok value =>
        have taken := ((next value).carryOut_later forward after).precedes.unread
        exact first.append (ih value (unreading value) after) taken
      | error reason => simpa using first

/-- What ends early gives no line. -/
theorem Event.lineGiven?_of_error (request : Request) (start after : World) (reason : Stop) :
    Event.lineGiven? (.asked request start (.error reason, after)) = none := by
  unfold Event.lineGiven?
  split
  next same => cases same
  next => rfl

/-- A request other than the one that reads gives no line. -/
theorem Request.lineGiven?_eq_none (other : request ≠ readsLine) (depth : Nat) (world : World) :
    Event.lineGiven? (.asked request world (request.perform depth world)) = none := by
  cases request with
  | eval | compare => rfl
  | apply value args =>
    cases value with
    | builtin b =>
      cases b with
      | readline =>
        cases args with
        | nil => exact absurd rfl other
        | cons arg args => cases depth <;> rfl
      | _ => rfl
    | _ => rfl

/-- The request that reads takes the line that it gives. -/
theorem Request.readsLine_accounts (depth : Nat) (world : World) :
    Accounts world (readsLine.trace (depth + 1) world) (readsLine.perform (depth + 1) world).2 := by
  intro more
  obtain ⟨whole, _⟩ := Text.eq_of_takeLine (Prod.eta (Text.takeLine world.input)).symm more
  have given : (readsLine.trace (depth + 1) world).filterMap Event.lineGiven? =
      [String.ofList (Text.takeLine world.input).1] := rfl
  have after : (readsLine.perform (depth + 1) world).2.input = (Text.takeLine world.input).2 := rfl
  rw [linesGiven, given, after]
  simpa using whole

/-- Whatever is taken is given, line by line, by calls of `readline`. -/
theorem Request.trace_accounts (depth : Nat) (request : Request) (world : World) :
    Accounts world (request.trace depth world) (request.perform depth world).2 := by
  induction depth generalizing request world with
  | zero =>
    intro _
    rw [trace, perform, linesGiven_cons_of_none (Event.lineGiven?_of_error ..)]
    rfl
  | succ depth ih =>
    by_cases isReading : request = readsLine
    · subst isReading
      exact readsLine_accounts depth world
    · have taken := Plan.events_account ih (perform_later depth) (plan_unreading isReading) world
      have none : linesGiven [.asked request world (request.perform (depth + 1) world)] = [] := by
        rw [linesGiven_cons_of_none (lineGiven?_eq_none isReading ..)]
        rfl
      intro more
      rw [trace, linesGiven_append, none, List.append_nil]
      exact taken more

/-- How an evaluation is reported does not touch the input. -/
theorem evaluateTo_input (depth : Nat) (code : Code) (what : String) (scope : Nat) (world : World) :
    (evaluateTo depth code what scope world).2.input =
      ((Request.eval code scope).perform depth world).2.input := by
  unfold evaluateTo
  obtain ⟨result, after⟩ := (Request.eval code scope).perform depth world
  cases result with
  | ok value => rfl
  | error reason => cases reason <;> rfl

theorem evaluateTo_heedless (depth : Nat) (code : Code) (what : String) (scope : Nat) :
    Heedless (evaluateTo depth code what scope) := by
  intro world consumed split more other
  rw [evaluateTo_input] at split more
  have same := (Request.eval code scope).perform_heedless depth world consumed split more other
  unfold evaluateTo
  rw [same]
  obtain ⟨result, after⟩ := (Request.eval code scope).perform depth world
  cases result with
  | ok value => rfl
  | error reason => cases reason <;> rfl

/-- A run that takes a part of the input, and leaves something of it, does the same with any other input that
begins with that part: it has the same result and leaves the same world, with the same scopes and the same
output, but for the input, which is then what comes after the part. And the part is what the calls of
`readline` gave, in order, with a line feed after each line. -/
theorem unread_input_has_no_influence (tree : Tree) (depth scope : Nat) (world : World)
    (consumed left : List Char) (more : left ≠ [])
    (stops : (evaluateTo depth (.ofTree tree) tree.describe scope
      (world.supply (consumed ++ left))).2.input = left) :
    let report := fun input => evaluateTo depth (.ofTree tree) tree.describe scope (world.supply input)
    let trace := (Request.eval (.ofTree tree) scope).trace depth (world.supply (consumed ++ left))
    (∀ other, report (consumed ++ other) =
      ((report (consumed ++ left)).1, (report (consumed ++ left)).2.supply other)) ∧
      linesGiven trace = consumed := by
  intro report trace
  have supplied : (world.supply (consumed ++ left)).input = consumed ++ left := rfl
  constructor
  · intro other
    refine evaluateTo_heedless depth (.ofTree tree) tree.describe scope (world.supply (consumed ++ left)) consumed
      ?_ ?_ other
    · rw [supplied, stops]
    · rwa [stops]
  · have stopped := evaluateTo_input depth (.ofTree tree) tree.describe scope (world.supply (consumed ++ left))
    rw [stops] at stopped
    have taken := (Request.eval (.ofTree tree) scope).trace_accounts depth (world.supply (consumed ++ left))
      (by rwa [← stopped])
    rw [supplied, ← stopped] at taken
    exact (List.append_cancel_right taken).symm

/-- The tree of `[readline(), readline()]` takes two lines, of which the second is empty. -/
theorem unread_input_has_no_influence_of_two_lines :
    let world : World := ⟨#[.empty none], 0, [], "", []⟩
    let line : Tree := .node .call [.leaf (.terminal .identifier) "readline", .node .args []]
    let tree : Tree := .node .array [line, line]
    let report := fun input => evaluateTo 4 (.ofTree tree) tree.describe 0 (world.supply input)
    report ['a', '\n', '\n', 'b'] = (.ok (.array [.str "a", .str ""]), world.supply ['b']) ∧
      ∀ other, report (['a', '\n', '\n'] ++ other) =
        (.ok (.array [.str "a", .str ""]), world.supply other) := by
  intro world line tree report
  have unbound : ∀ input, (world.supply input).find? "readline" 0 = none := by
    intro input
    rw [World.find?]
    rfl
  have builtin : Builtin.ofName? "readline" = some .readline := rfl
  have first : (world.supply ['a', '\n', '\n', 'b']).readLine = ("a", world.supply ['\n', 'b']) := rfl
  have second : (world.supply ['\n', 'b']).readLine = ("", world.supply ['b']) := rfl
  have ran : report ['a', '\n', '\n', 'b'] = (.ok (.array [.str "a", .str ""]), world.supply ['b']) := by
    simp [report, tree, line, evaluateTo, Code.ofTree, Code.ofTrees, Code.ofChildren, Code.ofLeaf,
      Request.perform, Request.plan, Plan.step, Plan.collect, Plan.collectAfter, Plan.run, Plan.call,
      Plan.lookup, Plan.find, Plan.carryOut, Plan.settle, Plan.applyStep, Plan.runBuiltin, Plan.readLine,
      Action.perform, Value.unwrap, unbound, builtin, first, second]
  have stops : (report (['a', '\n', '\n'] ++ ['b'])).2.input = ['b'] := congrArg (·.2.input) ran
  have same := (unread_input_has_no_influence tree 4 0 world ['a', '\n', '\n'] ['b'] (by decide) stops).1
  exact ⟨ran, fun other => (same other).trans (congrArg (fun ending => (ending.1, ending.2.supply other)) ran)⟩

end TreeWalk
