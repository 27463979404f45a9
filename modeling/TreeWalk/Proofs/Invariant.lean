import TreeWalk.Program
import TreeWalk.Proofs.Bindings
import TreeWalk.Proofs.Comparison
import TreeWalk.Proofs.Trace

/-! Invariants of runs.

An invariant says which values may be stored and passed on, which code may run and in which scopes, and
what code may give. Its laws are about single values, pieces of code and actions; that every run keeps
it follows once for all of them. Values and scopes are judged by the number of scopes there are, which
only grows. -/
namespace TreeWalk

namespace Code

/-- The parts of code whose values it works on. -/
def operands : Code → List Code
  | bind _ value | giveBack value => [value]
  | branch condition _ _ => [condition]
  | call callee args => callee :: args
  | subscript left index => [left, index]
  | binary _ left right => [left, right]
  | unary _ operand => [operand]
  | array items => items
  | _ => []

/-- The parts of code that run as statements and whose signals it hands on. -/
def statements : Code → List Code
  | block body | loop _ _ _ body => body
  | branch _ consequence alternative => [consequence, alternative]
  | _ => []

/-- The statements at whose end a signal gives up its value. -/
def enclosed : Code → List Code
  | program body | function _ body => body
  | _ => []

/-- A node whose own value can be a signal: a `return`, and those that give a value that was there before. -/
def carries : Code → Bool
  | program _ | giveBack _ | call .. | subscript .. | ident _ => true
  | _ => false

end Code

/-- Something that every run keeps. -/
structure Invariant where
  /-- Values that may be stored, passed on and put into arrays, given the number of scopes. -/
  value : Nat → Value → Prop
  /-- Scopes in which code may run, given the number of scopes. -/
  scope : Nat → Nat → Prop
  /-- Scopes around which a function may open its own, given the number of scopes. -/
  outer : Nat → Nat → Prop
  /-- Code that may run. -/
  code : Code → Prop
  /-- What code may give, given the number of scopes. -/
  result : Nat → Code → Value → Prop
  /-- Worlds in which code may run. -/
  world : World → Prop
  /-- The number of scopes from which on all this is asked for. -/
  least : Nat
  value_later : size ≤ later → value size v → value later v
  scope_later : size ≤ later → scope size s → scope later s
  plain : v.Plain → value size v
  array_iff : value size (.array items) ↔ ∀ item ∈ items, value size item
  result_of_value : value size v → (c.carries = false → v.isSignal = false) → result size c v
  operand : code c → part ∈ c.operands → code part ∧ ∀ size v, result size part v → value size v
  statement : code c → part ∈ c.statements → code part ∧ ∀ size v, result size part v → result size c v
  program : code (.program body) → part ∈ body →
    code part ∧ ∀ size v, result size part v → value size v.unwrap
  signal : code (.giveBack part) → result size part v → result size (.giveBack part) (.signal serial v)
  closure : code (.function params body) → scope size s → value size (.function serial params body s)
  functionBody : value size (.function serial params body s) → part ∈ body →
    code part ∧ ∀ size v, result size part v → value size v.unwrap
  opened : value size (.function serial params body s) → outer size s
  fresh : least ≤ size → outer size around → scope (size + 1) size
  enough : world w → least ≤ w.scopes.size
  found : world w → scope w.scopes.size s → w.find? name s = some v → value w.scopes.size v
  bind_kept : world w → scope w.scopes.size s → value w.scopes.size v → world (w.bind s name v)
  addScope_kept : world w → outer w.scopes.size around →
    (∀ binding ∈ bindings, value w.scopes.size binding.2) → world (w.addScope ⟨some around, bindings⟩).2
  same_scopes : world w → w'.scopes = w.scopes → world w'

namespace Invariant

variable (inv : Invariant)

/-- Actions that may be taken. -/
def allows (size : Nat) : Action → Prop
  | .bind scope _ value => inv.scope size scope ∧ inv.value size value
  | .find _ scope => inv.scope size scope
  | .addScope scope =>
    (∃ around, scope.outer = some around ∧ inv.outer size around) ∧
      ∀ binding ∈ scope.bindings, inv.value size binding.2
  | _ => True

/-- How many scopes there are after an action, and what its answer can be. -/
def answers (size : Nat) : (action : Action) → Nat → action.Answer → Prop
  | .addScope _, later, answer => later = size + 1 ∧ answer = size
  | .find .., later, answer => later = size ∧ ∀ value, answer = some value → inv.value size value
  | .takeSerial, later, _ | .bind .., later, _ | .print _, later, _ | .readLine, later, _
  | .log _, later, _ => later = size

/-- Requests that may be made. -/
def asks (size : Nat) : Request → Prop
  | .eval code scope => inv.code code ∧ inv.scope size scope
  | .apply value args => inv.value size value ∧ ∀ arg ∈ args, inv.value size arg
  | .compare left right => inv.value size left ∧ inv.value size right

/-- What the answer of a request can be. -/
def replies (size : Nat) : Request → Value → Prop
  | .eval code _, value => inv.result size code value
  | .apply .., value => inv.value size value
  | .compare .., value => value.Plain

/-- A node whose parts may run and give what the node needs; code that may run is of such nodes. -/
structure Supports (c : Code) : Prop where
  operand : ∀ part ∈ c.operands, inv.code part ∧ ∀ size v, inv.result size part v → inv.value size v
  statement : ∀ part ∈ c.statements, inv.code part ∧ ∀ size v, inv.result size part v → inv.result size c v
  program : ∀ body, c = .program body → ∀ part ∈ body,
    inv.code part ∧ ∀ size v, inv.result size part v → inv.value size v.unwrap
  signal : ∀ part, c = .giveBack part → ∀ size v serial,
    inv.result size part v → inv.result size c (.signal serial v)
  closure : ∀ params body, c = .function params body → ∀ size s serial,
    inv.scope size s → inv.value size (.function serial params body s)

theorem supports (allowed : inv.code c) : inv.Supports c where
  operand _ := inv.operand allowed
  statement _ := inv.statement allowed
  program _ isProgram _ := inv.program (isProgram ▸ allowed)
  signal _ isSignal _ _ _ given := isSignal ▸ inv.signal (isSignal ▸ allowed) given
  closure _ _ isLiteral _ _ _ := inv.closure (isLiteral ▸ allowed)

end Invariant

namespace Plan

variable {inv : Invariant}

/-- A plan keeps an invariant if all its actions and requests are allowed and its result is as asked
for, as long as the answers it gets are what they can be. That it goes too deep is never its own doing. -/
def Keeps (inv : Invariant) (post : Nat → α → Prop) : Plan α → Nat → Prop
  | done value, size => post size value
  | stop reason, _ => reason ≠ .tooDeep
  | act action next, size =>
    inv.allows size action ∧
      ∀ later answer, inv.answers size action later answer → (next answer).Keeps inv post later
  | ask request next, size =>
    inv.asks size request ∧
      ∀ later value, size ≤ later → inv.replies later request value → (next value).Keeps inv post later

theorem answers_later (answered : inv.answers size action later answer) : size ≤ later := by
  cases action <;> simp only [Invariant.answers] at answered <;> omega

theorem Keeps.bind {plan : Plan α} {rest : α → Plan β} (first : plan.Keeps inv middle size)
    (second : ∀ later value, size ≤ later → middle later value → (rest value).Keeps inv post later) :
    (plan >>= rest).Keeps inv post size := by
  induction plan generalizing size with
  | done value => exact second size value (Nat.le_refl size) first
  | stop reason => exact first
  | act action next ih =>
    refine ⟨first.1, fun later answer answered => ih answer (first.2 later answer answered) ?_⟩
    intro latest value grown kept
    exact second latest value (Nat.le_trans (answers_later answered) grown) kept
  | ask request next ih =>
    refine ⟨first.1, fun later answer grown replied => ih answer (first.2 later answer grown replied) ?_⟩
    intro latest value grownMore kept
    exact second latest value (Nat.le_trans grown grownMore) kept

/-- The first part of a plan that keeps the invariant keeps it by itself. -/
theorem Keeps.first {plan : Plan α} {rest : α → Plan β} (kept : (plan >>= rest).Keeps inv post size) :
    plan.Keeps inv (fun _ _ => True) size := by
  induction plan generalizing size with
  | done value => trivial
  | stop reason => exact kept
  | act action next ih =>
    exact ⟨kept.1, fun later answer answered => ih answer (kept.2 later answer answered)⟩
  | ask request next ih =>
    exact ⟨kept.1, fun later value grown replied => ih value (kept.2 later value grown replied)⟩

theorem Keeps.weaken {plan : Plan α} (kept : plan.Keeps inv strong size)
    (weaker : ∀ later value, size ≤ later → strong later value → weak later value) :
    plan.Keeps inv weak size := by
  have restated : (plan >>= pure).Keeps inv weak size := kept.bind weaker
  rwa [bind_pure] at restated

private theorem run_keeps (allowed : inv.code code) (inside : inv.scope size scope) :
    (run code scope).Keeps inv (inv.result · code) size :=
  ⟨⟨allowed, inside⟩, fun _ _ _ replied => replied⟩

private theorem call_keeps (callee : inv.value size value) (args : ∀ arg ∈ list, inv.value size arg) :
    (call value list).Keeps inv inv.value size :=
  ⟨⟨callee, args⟩, fun _ _ _ replied => replied⟩

private theorem fail_keeps {reason : Failure} : (fail reason : Plan α).Keeps inv post size :=
  ⟨trivial, fun _ _ _ => Stop.noConfusion⟩

private theorem find_keeps (inside : inv.scope size scope) :
    (find name scope).Keeps inv (fun later found => ∀ value, found = some value → inv.value later value)
      size := by
  refine ⟨inside, fun later answer answered => ?_⟩
  obtain ⟨rfl, values⟩ := answered
  exact values

theorem settle_keeps (kept : post size value) : (settle value).Keeps inv post size := by
  cases value with
  | error serial failure => exact Stop.noConfusion
  | _ => exact kept

theorem made_kept (made : Made given value)
    (kept : ∀ part ∈ given, inv.value size part) : inv.value size value :=
  made.passes inv.plain inv.array_iff kept

private theorem ofResult_keeps (made : ∀ value, result = .ok value → post size value) :
    (ofResult result).Keeps inv post size := by
  cases result with
  | ok value => exact made value rfl
  | error failure => exact fail_keeps

private theorem lookup_keeps (inside : inv.scope size scope) :
    (lookup scope name).Keeps inv inv.value size := by
  refine (find_keeps inside).bind fun later found grown values => ?_
  cases found with
  | some value => exact values value rfl
  | none =>
    cases Builtin.ofName? name with
    | some b => exact inv.plain trivial
    | none => exact fail_keeps

/-- Statements give what the last one that ran gave, or what was there before. -/
private theorem sequence_keeps (inside : inv.scope size scope) (allowed : ∀ part ∈ codes, inv.code part)
    (results : ∀ part ∈ codes, ∀ later value, inv.result later part value → good later value)
    (before : good size last) : (sequence scope last codes).Keeps inv good size := by
  induction codes generalizing last size with
  | nil => exact before
  | cons code rest ih =>
    refine (run_keeps (allowed code List.mem_cons_self) inside).bind fun later value grown given => ?_
    have kept := results code List.mem_cons_self later value given
    split
    · exact kept
    · exact ih (inv.scope_later grown inside)
        (fun part member => allowed part (List.mem_cons_of_mem _ member))
        (fun part member => results part (List.mem_cons_of_mem _ member)) kept

private theorem values_later {values : List Value} (grown : size ≤ later)
    (kept : ∀ value ∈ values, inv.value size value) :
    ∀ value ∈ values, inv.value later value :=
  fun value member => inv.value_later grown (kept value member)

private theorem collect_keeps (inside : inv.scope size scope)
    (allowed : ∀ part ∈ codes,
      inv.code part ∧ ∀ size value, inv.result size part value → inv.value size value) :
    (collect scope codes).Keeps inv (fun later values => ∀ value ∈ values, inv.value later value) size := by
  suffices ∀ values, (∀ value ∈ values, inv.value size value) →
      (collectAfter scope values codes).Keeps inv
        (fun later values => ∀ value ∈ values, inv.value later value) size from
    this [] (fun _ none => absurd none List.not_mem_nil)
  induction codes generalizing size with
  | nil => exact fun values kept value member => kept value (List.mem_reverse.mp member)
  | cons code rest ih =>
    intro values kept
    obtain ⟨allowedHead, resultHead⟩ := allowed code List.mem_cons_self
    refine (run_keeps allowedHead inside).bind fun later value grown given => ?_
    refine ih (inv.scope_later grown inside)
      (fun part member => allowed part (List.mem_cons_of_mem _ member)) (value :: values) ?_
    exact List.forall_mem_cons.mpr ⟨resultHead later value given, values_later grown kept⟩

private theorem requireUnbound_keeps (inside : inv.scope size scope) :
    (requireUnbound scope names).Keeps inv (fun _ _ => True) size := by
  induction names generalizing size with
  | nil => trivial
  | cons name names ih =>
    refine (find_keeps inside).bind fun later found grown values => ?_
    split
    · exact fail_keeps
    · exact ih (inv.scope_later grown inside)

private theorem loopItems_keeps (inside : inv.scope size scope) :
    (loopItems scope source element index).Keeps inv
      (fun later items => ∀ item ∈ items, inv.value later item) size := by
  refine (find_keeps inside).bind fun later found grown values => ?_
  split
  · exact fail_keeps
  · rename_i items
    have kept : ∀ item ∈ items, inv.value later item := inv.array_iff.mp (values (.array items) rfl)
    split
    · exact fail_keeps
    · exact (requireUnbound_keeps (inv.scope_later grown inside)).bind
        fun latest _ grownMore _ => values_later grownMore kept
  · exact fail_keeps

private theorem assignAll_keeps {bindings : List (String × Value)} (inside : inv.scope size scope)
    (kept : ∀ binding ∈ bindings, inv.value size binding.2) :
    (assignAll scope bindings).Keeps inv (fun later _ => later = size) size := by
  induction bindings with
  | nil => rfl
  | cons binding rest ih =>
    refine ⟨⟨inside, kept binding List.mem_cons_self⟩, fun later answer same => ?_⟩
    cases same
    exact ih fun other member => kept other (List.mem_cons_of_mem _ member)

private theorem loopBindings_kept (kept : inv.value size item) :
    ∀ binding ∈ loopBindings element index count item, inv.value size binding.2 := by
  intro binding member
  rcases List.mem_append.mp member with indexed | element
  · simp only [Option.mem_toList, Option.map_eq_some_iff] at indexed
    obtain ⟨name, _, rfl⟩ := indexed
    exact inv.plain trivial
  · rw [List.mem_singleton.mp element]
    exact kept

/-- Passes give null, or what a statement of the body gave. -/
private theorem passes_keeps (inside : inv.scope size scope) (allowed : ∀ part ∈ body, inv.code part)
    (results : ∀ part ∈ body, ∀ later value, inv.result later part value → good later value)
    (null : ∀ later, good later .null) (kept : ∀ item ∈ items, inv.value size item) :
    (passes scope element index body count items).Keeps inv good size := by
  induction items generalizing count size with
  | nil => exact null size
  | cons item items ih =>
    refine (assignAll_keeps inside
      (loopBindings_kept (kept item List.mem_cons_self))).bind fun later _ _ same => ?_
    subst same
    refine (sequence_keeps inside allowed results (null later)).bind fun latest value grown given => ?_
    split
    · exact given
    · exact ih (inv.scope_later grown inside)
        (values_later grown fun other member => kept other (List.mem_cons_of_mem _ member))

private theorem split_keeps (callable : inv.value size predicate)
    (kept : ∀ item ∈ items, inv.value size item) :
    (split predicate items).Keeps inv
      (fun later parts => (∀ item ∈ parts.1, inv.value later item) ∧ ∀ item ∈ parts.2, inv.value later item)
      size := by
  suffices ∀ matched others, (∀ item ∈ matched, inv.value size item) →
      (∀ item ∈ others, inv.value size item) →
      (splitAfter predicate matched others items).Keeps inv
        (fun later parts => (∀ item ∈ parts.1, inv.value later item) ∧ ∀ item ∈ parts.2, inv.value later item)
        size from
    this [] [] (by simp) (by simp)
  induction items generalizing size with
  | nil =>
    intro matched others inMatched inOthers
    exact ⟨fun item member => inMatched item (List.mem_reverse.mp member),
      fun item member => inOthers item (List.mem_reverse.mp member)⟩
  | cons item items ih =>
    intro matched others inMatched inOthers
    obtain ⟨itemKept, itemsKept⟩ := List.forall_mem_cons.mp kept
    have asked : (call predicate [item] >>= settle).Keeps inv inv.value size :=
      (call_keeps callable (by simpa using itemKept)).bind fun _ _ _ given => settle_keeps given
    refine asked.bind fun later verdict grown _ => ?_
    have callableLater := inv.value_later grown callable
    have itemLater := inv.value_later grown itemKept
    split
    · exact ih callableLater (values_later grown itemsKept) _ _
        (List.forall_mem_cons.mpr ⟨itemLater, values_later grown inMatched⟩) (values_later grown inOthers)
    · exact ih callableLater (values_later grown itemsKept) _ _
        (values_later grown inMatched) (List.forall_mem_cons.mpr ⟨itemLater, values_later grown inOthers⟩)
    · exact fail_keeps

private theorem runBuiltin_keeps (kept : ∀ arg ∈ args, inv.value size arg) :
    (runBuiltin b args).Keeps inv inv.value size := by
  suffices ∀ plan, BuiltinPlan args plan → plan.Keeps inv inv.value size from
    this _ (runBuiltin_plan b args)
  intro plan shape
  cases shape with
  | makes made => exact made_kept made kept
  | fails reason => exact fail_keeps
  | prints text => exact ⟨trivial, fun _ _ _ => inv.plain trivial⟩
  | reads => exact ⟨trivial, fun _ _ _ => inv.plain trivial⟩
  | divides shape =>
    subst shape
    have arrayKept := inv.array_iff.mp (kept _ List.mem_cons_self)
    have callable := kept _ (List.mem_cons_of_mem _ List.mem_cons_self)
    refine (split_keeps callable arrayKept).bind fun later parts grown partsKept => ?_
    refine inv.array_iff.mpr fun part member => ?_
    simp only [List.mem_cons, List.not_mem_nil, or_false] at member
    rcases member with rfl | rfl
    · exact inv.array_iff.mpr partsKept.1
    · exact inv.array_iff.mpr partsKept.2

private theorem zip_kept {params : List String} (kept : ∀ arg ∈ args, inv.value size arg) :
    ∀ binding ∈ params.zip args, inv.value size binding.2 :=
  fun _ member => kept _ (List.of_mem_zip member).2

/-- A function runs its body in a new scope, and a signal that reaches the end gives up its value. -/
private theorem enter_keeps (enough : inv.least ≤ size)
    (function : inv.value size (.function serial params body outer))
    (kept : ∀ arg ∈ args, inv.value size arg) :
    (enter params body outer args).Keeps inv inv.value size := by
  refine ⟨⟨⟨outer, rfl, inv.opened function⟩, zip_kept kept⟩, fun later answer answered => ?_⟩
  obtain ⟨rfl, rfl⟩ := answered
  have ran : (sequence answer .null body).Keeps inv (fun later value => inv.value later value.unwrap)
      (answer + 1) :=
    sequence_keeps (inv.fresh enough (inv.opened function)) (fun part member => (inv.functionBody function member).1)
      (fun part member => (inv.functionBody function member).2) (inv.plain trivial)
  exact ran.bind fun _ _ _ given => given

theorem applyStep_keeps (enough : inv.least ≤ size) (callee : inv.value size value)
    (kept : ∀ arg ∈ args, inv.value size arg) : (applyStep value args).Keeps inv inv.value size := by
  unfold applyStep
  split
  · split
    · exact enter_keeps enough callee kept
    · exact ⟨trivial, fun _ _ _ => fail_keeps⟩
  · exact runBuiltin_keeps kept
  · exact fail_keeps

/-- The parts that a node works on give values. -/
private theorem operand_keeps (supported : inv.Supports code) (inside : inv.scope size scope)
    (member : part ∈ code.operands) : (run part scope).Keeps inv inv.value size :=
  have partKept := supported.operand part member
  (run_keeps partKept.1 inside).weaken fun later value _ given => partKept.2 later value given

/-- A node that works on two operands gives what is made of their values. -/
private theorem operands_keep {combine : Value → Value → Plan Value}
    (supported : inv.Supports code) (inside : inv.scope size scope)
    (isLeft : left ∈ code.operands) (isRight : right ∈ code.operands)
    (kept : ∀ later a b, inv.value later a → inv.value later b →
      (combine a b).Keeps inv (fun latest value => inv.value latest value ∧
        (code.carries = false → value.isSignal = false)) later) :
    (do
      let a ← run left scope
      combine a (← run right scope) : Plan Value).Keeps inv (inv.result · code) size := by
  refine (operand_keeps supported inside isLeft).bind fun later a grown aKept => ?_
  refine (operand_keeps supported (inv.scope_later grown inside) isRight).bind
    fun latest b grownMore bKept => ?_
  refine (kept latest a b (inv.value_later grownMore aKept) bKept).weaken fun _ _ _ given => ?_
  exact inv.result_of_value given.1 given.2

private theorem compareAll_keeps {pairs : List (Value × Value)}
    (kept : ∀ pair ∈ pairs, inv.value size pair.1 ∧ inv.value size pair.2) :
    (compareAll pairs).Keeps inv (fun _ value => value.Plain) size := by
  induction pairs generalizing size with
  | nil => trivial
  | cons pair pairs ih =>
    obtain ⟨left, right⟩ := pair
    obtain ⟨first, rest⟩ := List.forall_mem_cons.mp kept
    have asked : (compare left right).Keeps inv (fun _ _ => True) size := ⟨first, fun _ _ _ _ => trivial⟩
    refine asked.bind fun later verdict grown _ => ?_
    split
    · exact ih fun pair member =>
        ⟨inv.value_later grown (rest pair member).1, inv.value_later grown (rest pair member).2⟩
    · trivial

/-- An operation gives what is made of its operands, or the verdict on two arrays. -/
theorem combine_keeps (left : inv.value size a) (right : inv.value size b) :
    (combine op a b).Keeps inv
      (fun later value => (value.Plain ∨ op ≠ .equal) ∧ inv.value later value ∧ value.isSignal = false) size := by
  suffices ∀ plan, OperationPlan op a b plan → plan.Keeps inv
      (fun later value => (value.Plain ∨ op ≠ .equal) ∧ inv.value later value ∧ value.isSignal = false) size from
    this _ (combine_plan op a b)
  intro plan shape
  cases shape with
  | atOnce =>
    refine ofResult_keeps fun value ran => ⟨?_, ?_, Value.binaryOp_not_signal ran⟩
    · by_cases isEqual : op = .equal
      · rw [isEqual, Value.binaryOp_equal] at ran
        cases ran
        exact .inl trivial
      · exact .inr isEqual
    · exact made_kept (Value.binaryOp_made ran) (by simpa using ⟨left, right⟩)
  | inPairs _ first second =>
    cases first
    cases second
    refine (compareAll_keeps fun pair member => ?_).weaken fun _ _ _ plain => ?_
    · obtain ⟨inLeft, inRight⟩ := List.of_mem_zip member
      exact ⟨inv.array_iff.mp left _ inLeft, inv.array_iff.mp right _ inRight⟩
    · exact ⟨.inl plain, inv.plain plain, plain.not_signal⟩

/-- The results of statements that stand for the node itself are what the node may give. -/
private theorem body_keeps (supported : inv.Supports code) (inside : inv.scope size scope)
    (isBody : ∀ part ∈ body, part ∈ code.statements) :
    (sequence scope .null body).Keeps inv (inv.result · code) size :=
  sequence_keeps inside (fun part member => (supported.statement part (isBody part member)).1)
    (fun part member => (supported.statement part (isBody part member)).2)
    (inv.result_of_value (inv.plain trivial) fun _ => rfl)

/-- What a node gives is what its kind of code may give. -/
theorem step_keeps (supported : inv.Supports code) (inside : inv.scope size scope) :
    (step scope code).Keeps inv (inv.result · code) size := by
  have isValue : code.carries = true → ∀ later value, size ≤ later → inv.value later value →
      inv.result later code value := fun carries _ _ _ kept =>
    inv.result_of_value kept fun notCarrying => by rw [carries] at notCarrying; cases notCarrying
  cases code with
  | program body =>
    have ran : (sequence scope .null body).Keeps inv (fun later value => inv.value later value.unwrap) size :=
      sequence_keeps inside (fun part member => (supported.program body rfl part member).1)
        (fun part member => (supported.program body rfl part member).2) (inv.plain trivial)
    exact ran.bind fun later value grown given => isValue rfl later _ grown given
  | block body => exact body_keeps supported inside fun part member => member
  | bind name value =>
    refine (operand_keeps supported inside List.mem_cons_self).bind fun later value grown given => ?_
    refine ⟨⟨inv.scope_later grown inside, given⟩, fun latest answer same => ?_⟩
    exact inv.result_of_value (inv.plain trivial) fun _ => rfl
  | giveBack value =>
    have part := supported.operand value List.mem_cons_self
    refine (run_keeps part.1 inside).bind fun later value grown given => ?_
    refine ⟨trivial, fun latest serial same => ?_⟩
    cases same
    exact supported.signal _ rfl _ _ _ given
  | loop source element index body =>
    refine (loopItems_keeps inside).bind fun later items grown kept => ?_
    exact passes_keeps (inv.scope_later grown inside)
      (fun part member => (supported.statement part member).1)
      (fun part member => (supported.statement part member).2)
      (fun _ => inv.result_of_value (inv.plain trivial) fun _ => rfl) kept
  | branch condition consequence alternative =>
    refine (operand_keeps supported inside List.mem_cons_self).bind fun later value grown _ => ?_
    have insideLater := inv.scope_later grown inside
    split
    · have isPart : consequence ∈ (Code.branch condition consequence alternative).statements :=
        List.mem_cons_self
      have part := supported.statement _ isPart
      exact (run_keeps part.1 insideLater).weaken fun _ _ _ given => part.2 _ _ given
    · have isPart : alternative ∈ (Code.branch condition consequence alternative).statements :=
        List.mem_cons_of_mem _ List.mem_cons_self
      have part := supported.statement _ isPart
      exact (run_keeps part.1 insideLater).weaken fun _ _ _ given => part.2 _ _ given
  | function params body =>
    refine ⟨trivial, fun later serial same => ?_⟩
    cases same
    exact inv.result_of_value (supported.closure _ _ rfl _ _ _ inside) fun _ => rfl
  | call callee args =>
    refine (operand_keeps supported inside List.mem_cons_self).bind fun later value grown given => ?_
    have argsKept := collect_keeps (inv.scope_later grown inside)
      (fun part member => supported.operand part (List.mem_cons_of_mem callee member))
    refine argsKept.bind fun latest values grownMore valuesKept => ?_
    exact (call_keeps (inv.value_later grownMore given) valuesKept).weaken fun last value grownLast =>
      isValue rfl last value (by omega)
  | subscript left index =>
    refine operands_keep supported inside List.mem_cons_self (List.mem_cons_of_mem _ List.mem_cons_self)
      fun later a b aKept bKept => ofResult_keeps fun value ran => ⟨?_, fun notCarrying => by cases notCarrying⟩
    exact made_kept (Value.at?_made ran) (by simpa using ⟨aKept, bKept⟩)
  | binary op left right =>
    exact operands_keep supported inside List.mem_cons_self (List.mem_cons_of_mem _ List.mem_cons_self)
      fun later a b aKept bKept => (combine_keeps aKept bKept).weaken fun _ _ _ given =>
        ⟨given.2.1, fun _ => given.2.2⟩
  | unary op operand =>
    refine (operand_keeps supported inside List.mem_cons_self).bind fun later value grown given => ?_
    refine ofResult_keeps fun result ran => ?_
    have plain := Value.unaryOp_plain ran
    exact inv.result_of_value (inv.plain plain) fun _ => plain.not_signal
  | array items =>
    have itemsKept := collect_keeps inside (fun part member => supported.operand part member)
    exact itemsKept.bind fun later values grown kept =>
      inv.result_of_value (inv.array_iff.mpr kept) fun _ => rfl
  | int | str | bool => exact inv.result_of_value (inv.plain trivial) fun _ => rfl
  | ident name => exact (lookup_keeps inside).weaken (isValue rfl)
  | fail reason => exact fail_keeps
  | fault fault => exact Stop.noConfusion

end Plan

/-- Every request that may be made is met by a plan that keeps the invariant. -/
theorem Request.plan_keeps {inv : Invariant} {request : Request} (enough : inv.least ≤ size)
    (asked : inv.asks size request) : request.plan.Keeps inv (inv.replies · request) size := by
  cases request with
  | apply value args => exact Plan.applyStep_keeps enough asked.1 asked.2
  | compare left right =>
    exact (Plan.combine_keeps asked.1 asked.2).weaken fun _ _ _ given =>
      given.1.elim id fun notEqual => absurd rfl notEqual
  | eval code scope =>
    exact (Plan.step_keeps (inv.supports asked.1) asked.2).bind fun _ _ _ given => Plan.settle_keeps given

namespace Invariant

variable (inv : Invariant)

/-- A run that started with a given number of scopes ends as the invariant asks for. -/
structure Ends (size : Nat) (post : Nat → α → Prop) (ending : Ending α) : Prop where
  world : inv.world ending.2
  grown : size ≤ ending.2.scopes.size
  result : ∀ given, ending.1 = .ok given → post ending.2.scopes.size given

/-- Something that happened as the invariant asks for. -/
def Fits : Event → Prop
  | .acted action start => inv.world start ∧ inv.allows start.scopes.size action
  | .asked request start ending =>
    inv.world start ∧ inv.asks start.scopes.size request ∧
      inv.Ends start.scopes.size (inv.replies · request) ending

end Invariant

variable {inv : Invariant}

/-- What one action does to a world in which it is allowed. -/
theorem Action.perform_kept (ready : inv.world world) (allowed : inv.allows world.scopes.size action) :
    inv.world (action.perform world).2 ∧
      inv.answers world.scopes.size action (action.perform world).2.scopes.size (action.perform world).1 := by
  cases action with
  | takeSerial => exact ⟨inv.same_scopes ready rfl, rfl⟩
  | addScope scope =>
    obtain ⟨⟨around, isOuter, outerKept⟩, kept⟩ := allowed
    obtain ⟨outer, bindings⟩ := scope
    cases isOuter
    exact ⟨inv.addScope_kept ready outerKept kept, by simp [Action.perform, World.addScope], rfl⟩
  | bind scope name value =>
    exact ⟨inv.bind_kept ready allowed.1 allowed.2, World.bind_size world scope name value⟩
  | find name scope => exact ⟨ready, rfl, fun value found => inv.found ready allowed found⟩
  | print text => exact ⟨inv.same_scopes ready rfl, rfl⟩
  | readLine => exact ⟨inv.same_scopes ready rfl, rfl⟩
  | log note => exact ⟨inv.same_scopes ready rfl, rfl⟩

theorem Invariant.Ends.later (ends : inv.Ends size post ending) (grown : before ≤ size) :
    inv.Ends before post ending :=
  ⟨ends.world, Nat.le_trans grown ends.grown, ends.result⟩

/-- Carrying out a plan that keeps the invariant ends as its result is asked for, and everything that
happens on the way fits, if both hold for its requests. -/
theorem Plan.carryOut_keeps {answer : Request → World → Ending Value}
    {inside : Request → World → List Event} {plan : Plan α}
    (met : ∀ request start, inv.world start → inv.asks start.scopes.size request →
      inv.Ends start.scopes.size (inv.replies · request) (answer request start) ∧
        ∀ event ∈ inside request start, inv.Fits event)
    (ready : inv.world world) (kept : plan.Keeps inv post world.scopes.size) :
    inv.Ends world.scopes.size post (plan.carryOut answer world) ∧
      ∀ event ∈ plan.events answer inside world, inv.Fits event := by
  induction plan generalizing world with
  | done value =>
    exact ⟨⟨ready, Nat.le_refl _, fun given same => by cases same; exact kept⟩, by simp [events]⟩
  | stop reason => exact ⟨⟨ready, Nat.le_refl _, by simp [carryOut]⟩, by simp [events]⟩
  | act action next ih =>
    obtain ⟨readyAfter, answered⟩ := Action.perform_kept ready kept.1
    obtain ⟨ends, events⟩ := ih _ readyAfter (kept.2 _ _ answered)
    exact ⟨ends.later (answers_later answered), List.forall_mem_cons.mpr ⟨⟨ready, kept.1⟩, events⟩⟩
  | ask request next ih =>
    obtain ⟨ends, insideFits⟩ := met request world ready kept.1
    simp only [carryOut, events, List.forall_mem_append]
    cases answered : answer request world with
    | mk result after =>
      rw [answered] at ends
      cases result with
      | error reason => exact ⟨⟨ends.world, ends.grown, by simp⟩, insideFits, by simp⟩
      | ok value =>
        obtain ⟨endsAfter, eventsAfter⟩ :=
          ih value ends.world (kept.2 _ value ends.grown (ends.result value rfl))
        exact ⟨endsAfter.later ends.grown, insideFits, eventsAfter⟩

/-- Every run keeps the invariant, however it ends and however deep it may go, and so does everything
that happens during the run. -/
theorem Request.run_keeps (inv : Invariant) (depth : Nat) (request : Request) (ready : inv.world world)
    (asked : inv.asks world.scopes.size request) :
    inv.Ends world.scopes.size (inv.replies · request) (request.perform depth world) ∧
      ∀ event ∈ request.trace depth world, inv.Fits event := by
  induction depth generalizing request world with
  | zero =>
    have ends : inv.Ends world.scopes.size (inv.replies · request) (request.perform 0 world) :=
      ⟨ready, Nat.le_refl _, by simp [perform]⟩
    refine ⟨ends, fun event member => ?_⟩
    rw [List.mem_singleton.mp member]
    exact ⟨ready, asked, ends⟩
  | succ depth ih =>
    obtain ⟨ends, eventsFit⟩ := Plan.carryOut_keeps (fun inner start startReady innerAsked =>
      ih inner startReady innerAsked) ready (plan_keeps (inv.enough ready) asked)
    refine ⟨ends, List.forall_mem_append.mpr ⟨eventsFit, fun event member => ?_⟩⟩
    rw [List.mem_singleton.mp member]
    exact ⟨ready, asked, ends⟩

private theorem outcome_scopes (ending : Ending Value) : (outcome ending).2.scopes = ending.2.scopes := by
  obtain ⟨result, after⟩ := ending
  cases result with
  | ok value => rfl
  | error reason => cases reason <;> rfl

/-- How the end of an application is reported takes nothing away from the invariant. -/
theorem outcome_keeps (inv : Invariant) (ready : inv.world ending.2) : inv.world (outcome ending).2 :=
  inv.same_scopes ready (outcome_scopes ending)

/-- An evaluation keeps the invariant, and what it gives is an error or what its code may give, less the
signal. -/
theorem evaluateTo_keeps (inv : Invariant) (depth : Nat) (what : String) (ready : inv.world world)
    (asked : inv.asks world.scopes.size (.eval code scope)) :
    inv.world (evaluateTo depth code what scope world).2 ∧
      ∀ value, (evaluateTo depth code what scope world).1 = .ok value →
        (∃ serial reason, value = .error serial reason) ∨
          ∃ size given, inv.result size code given ∧ value = given.unwrap := by
  have ends := (Request.run_keeps inv depth (.eval code scope) ready asked).1
  unfold evaluateTo
  generalize (Request.eval code scope).perform depth world = ending at ends
  obtain ⟨result, after⟩ := ending
  cases result with
  | ok given =>
    refine ⟨ends.world, fun value same => .inr ⟨_, given, ends.result given rfl, ?_⟩⟩
    cases same
    rfl
  | error reason =>
    cases reason with
    | failed serial failure =>
      refine ⟨ends.world, fun value same => .inl ⟨serial, failure, ?_⟩⟩
      cases same
      rfl
    | malformed fault => exact ⟨ends.world, fun value same => by cases same⟩
    | tooDeep =>
      refine ⟨inv.same_scopes ends.world rfl, fun value same => .inl ?_⟩
      cases same
      exact ⟨_, _, rfl⟩

end TreeWalk
