import TreeWalk.Proofs.Comparison
import TreeWalk.Proofs.DepthLimit
import TreeWalk.Proofs.UnmentionedNames

/-! Without functions, every run ends.

Only functions and the data that is compared can make a run go deeper than its tree: everything else that code
asks for is code further down, or the application of a builtin, and a builtin asks for no more than applications
of its predicate. Loops go over what their source held at the start, so they may change it as they like. Where a
tree has no function literal and no function can be found, none ever comes up. The levels of the tree then bound
the depth of every run but for its comparisons, and a comparison goes no deeper than what it compares. -/
namespace TreeWalk

namespace Tree

mutual

/-- The labels in a tree. -/
def labels : Tree → List Label
  | node label children => label :: labelsOf children
  | leaf .. | absent => []

/-- The labels in the trees of a list. -/
def labelsOf : List Tree → List Label
  | [] => []
  | tree :: trees => labels tree ++ labelsOf trees

end

mutual

/-- How many levels a tree has. -/
def levels : Tree → Nat
  | node _ children => levelsOf children + 1
  | leaf .. | absent => 1

/-- How many levels the trees of a list have. -/
def levelsOf : List Tree → Nat
  | [] => 0
  | tree :: trees => max (levels tree) (levelsOf trees)

end

/-- A tree of so many levels at most, without function literals. -/
structure Within (limit : Nat) (tree : Tree) : Prop where
  noLiteral : Label.function ∉ tree.labels
  room : tree.levels ≤ limit

namespace Within

theorem mono {tree : Tree} (within : tree.Within limit) (more : limit ≤ limit') : tree.Within limit' :=
  ⟨within.noLiteral, Nat.le_trans within.room more⟩

theorem limit_pos {tree : Tree} (within : tree.Within limit) : 0 < limit := by
  refine Nat.lt_of_lt_of_le ?_ within.room
  cases tree with
  | node | leaf | absent => exact Nat.succ_pos _

theorem child (within : (node label children).Within (limit + 1)) (member : tree ∈ children) :
    tree.Within limit := by
  have noLiteral : Label.function ∉ labelsOf children := fun inside =>
    within.noLiteral (List.mem_cons_of_mem label inside)
  have room : levelsOf children ≤ limit := Nat.le_of_succ_le_succ within.room
  clear within
  induction children with
  | nil => cases member
  | cons first others ih =>
    rw [labelsOf, List.mem_append, not_or] at noLiteral
    rw [levelsOf, Nat.max_le] at room
    rcases List.mem_cons.mp member with rfl | later
    · exact ⟨noLiteral.1, room.1⟩
    · exact ih later noLiteral.2 room.2

end Within

end Tree

namespace Code

/-- Whether code is a function literal. -/
def isLiteral : Code → Bool
  | function .. => true
  | _ => false

/-- Code of so many levels at most, without function literals. -/
inductive Within : Nat → Code → Prop where
  | intro {code : Code} (noLiteral : code.isLiteral = false)
      (operands : ∀ part ∈ code.operands, Within limit part)
      (statements : ∀ part ∈ code.statements, Within limit part)
      (enclosed : ∀ part ∈ code.enclosed, Within limit part) : Within (limit + 1) code

namespace Within

theorem mono {code : Code} (within : code.Within limit) (more : limit ≤ limit') : code.Within limit' := by
  induction within generalizing limit' with
  | intro noLiteral _ _ _ operands statements enclosed =>
    obtain ⟨below, rfl⟩ := Nat.exists_eq_add_of_le' (Nat.le_trans (Nat.le_add_left 1 _) more)
    have moreBelow := Nat.le_of_succ_le_succ more
    exact .intro noLiteral (fun part member => operands part member moreBelow)
      (fun part member => statements part member moreBelow)
      (fun part member => enclosed part member moreBelow)

theorem of_operands {code : Code} (noLiteral : code.isLiteral = false)
    (operands : ∀ part ∈ code.operands, part.Within limit) (statements : code.statements = [])
    (enclosed : code.enclosed = []) : code.Within (limit + 1) := by
  refine .intro noLiteral operands ?_ ?_
  · simp [statements]
  · simp [enclosed]

theorem of_no_parts {code : Code} (noLiteral : code.isLiteral = false) (operands : code.operands = [])
    (statements : code.statements = []) (enclosed : code.enclosed = []) (room : 0 < limit) :
    code.Within limit := by
  obtain ⟨below, rfl⟩ := Nat.exists_eq_add_of_le' room
  exact of_operands noLiteral (by simp [operands]) statements enclosed

theorem fault (fault : Fault) (room : 0 < limit) : (Code.fault fault).Within limit :=
  of_no_parts rfl rfl rfl rfl room

theorem makeBind (value : code.Within limit) : (Code.makeBind slot target code).Within (limit + 1) := by
  unfold Code.makeBind
  rcases nameIn_cases slot target with ⟨name, read, _⟩ | ⟨fault, read⟩ <;> rw [read]
  · exact .of_operands rfl (List.forall_mem_singleton.mpr value) rfl rfl
  · exact .fault fault (Nat.succ_pos _)

theorem makeLoop (steps : ∀ part ∈ body, part.Within limit) :
    (Code.makeLoop source element index body).Within (limit + 1) := by
  unfold Code.makeLoop
  rcases nameIn_cases .loopSource source with ⟨_, read, _⟩ | ⟨fault, read⟩ <;> rw [read]
  · rcases nameIn_cases .loopElement element with ⟨_, read, _⟩ | ⟨fault, read⟩ <;> rw [read]
    · rcases indexName_cases index with ⟨_, read, _⟩ | ⟨fault, read⟩ <;> rw [read]
      · exact .intro rfl (List.forall_mem_nil _) steps (List.forall_mem_nil _)
      · exact .fault fault (Nat.succ_pos _)
    · exact .fault fault (Nat.succ_pos _)
  · exact .fault fault (Nat.succ_pos _)

theorem ofLeaf (kind : LeafKind) (text : String) (room : 0 < limit) : (Code.ofLeaf kind text).Within limit := by
  unfold Code.ofLeaf
  split
  · split <;> exact .of_no_parts rfl rfl rfl rfl room
  all_goals exact .of_no_parts rfl rfl rfl rfl room

end Within

/-- The code of a tree has no more levels than the tree. -/
theorem ofTree_within (within : tree.Within limit) : (ofTree tree).Within limit := by
  induction limit generalizing tree with
  | zero => exact absurd within.limit_pos (Nat.lt_irrefl 0)
  | succ limit ih =>
    have all : ∀ {trees : List Tree}, (∀ tree ∈ trees, tree.Within limit) →
        ∀ code ∈ ofTrees trees, code.Within limit :=
      fun within => forall_mem_ofTrees.mpr fun tree member => ih (within tree member)
    -- The nodes that hold the arguments of a call and the body of a loop do not become code themselves.
    have inside : ∀ {tree : Tree}, tree.Within limit → ∀ code ∈ ofChildren tree, code.Within limit := by
      intro tree within
      cases tree with
      | node label children => exact all fun _ => (within.mono (Nat.le_succ limit)).child
      | leaf | absent => exact List.forall_mem_singleton.mpr (.fault _ within.limit_pos)
    fun_cases ofTree tree with
    | case1 => exact .fault _ (Nat.succ_pos _)
    | case2 kind text => exact .ofLeaf kind text (Nat.succ_pos _)
    | case3 children =>
      exact .intro rfl (List.forall_mem_nil _) (List.forall_mem_nil _) (all fun _ => within.child)
    | case4 children =>
      exact .intro rfl (List.forall_mem_nil _) (all fun _ => within.child) (List.forall_mem_nil _)
    | case5 children => exact .of_operands rfl (all fun _ => within.child) rfl rfl
    | case6 child => exact (ih (within.child List.mem_cons_self)).mono (Nat.le_succ _)
    | case8 child =>
      have value := ih (within.child List.mem_cons_self)
      exact .of_operands rfl (List.forall_mem_singleton.mpr value) rfl rfl
    | case10 target value | case12 target value =>
      have valueWithin : value.Within limit := within.child (by simp)
      exact .makeBind (ih valueWithin)
    | case14 source element index body =>
      have bodyWithin : body.Within limit := within.child (by simp)
      exact .makeLoop (inside bodyWithin)
    | case16 condition consequence =>
      have tested : condition.Within limit := within.child (by simp)
      have first : consequence.Within limit := within.child (by simp)
      have nothing : (block []).Within limit := .of_no_parts rfl rfl rfl rfl first.limit_pos
      refine .intro rfl (List.forall_mem_singleton.mpr (ih tested)) ?_ (List.forall_mem_nil _)
      exact List.forall_mem_cons.mpr ⟨ih first, List.forall_mem_singleton.mpr nothing⟩
    | case17 condition consequence alternative =>
      have tested : condition.Within limit := within.child (by simp)
      have first : consequence.Within limit := within.child (by simp)
      have second : alternative.Within limit := within.child (by simp)
      refine .intro rfl (List.forall_mem_singleton.mpr (ih tested)) ?_ (List.forall_mem_nil _)
      exact List.forall_mem_cons.mpr ⟨ih first, List.forall_mem_singleton.mpr (ih second)⟩
    | case19 params body => exact absurd List.mem_cons_self within.noLiteral
    | case22 callee args =>
      have called : callee.Within limit := within.child (by simp)
      have passed : args.Within limit := within.child (by simp)
      exact .of_operands rfl (List.forall_mem_cons.mpr ⟨ih called, inside passed⟩) rfl rfl
    | case24 left right | case26 left _ right =>
      have first : left.Within limit := within.child (by simp)
      have second : right.Within limit := within.child (by simp)
      exact .of_operands rfl
        (List.forall_mem_cons.mpr ⟨ih first, List.forall_mem_singleton.mpr (ih second)⟩) rfl rfl
    | case28 _ operand =>
      have value : operand.Within limit := within.child (by simp)
      exact .of_operands rfl (List.forall_mem_singleton.mpr (ih value)) rfl rfl
    -- All that is left are nodes of the wrong shape.
    | _ => exact .fault _ (Nat.succ_pos _)

end Code

/-- There is no function in a value, at any depth. -/
def Value.FunctionFree : Value → Prop := Built (fun _ => True) fun _ _ _ => False

theorem Value.FunctionFree.not_function (free : FunctionFree (.function serial params body scope)) : False :=
  free.of_function.2

/-- No function can be found in a scope or around it. -/
def World.FunctionFree (world : World) (scope : Nat) : Prop :=
  ∀ name value, world.find? name scope = some value → value.FunctionFree

/-- Where no function can be found, runs of code without function literals neither bind nor give one. Nothing
is ever entered, so there is one scope. -/
def functionFreedom (limit home : Nat) : Invariant where
  value _ v := v.FunctionFree
  scope _ s := s = home
  outer _ _ := False
  code := Code.Within limit
  result _ _ v := v.FunctionFree
  world w := w.FunctionFree home
  least := 0
  value_later _ free := free
  scope_later _ inside := inside
  plain := .plain
  array_iff := Value.Built.array_iff
  result_of_value free _ := free
  operand within member := by
    cases within with
    | intro _ operands => exact ⟨(operands _ member).mono (Nat.le_succ _), fun _ _ free => free⟩
  statement within member := by
    cases within with
    | intro _ _ statements => exact ⟨(statements _ member).mono (Nat.le_succ _), fun _ _ free => free⟩
  program within member := by
    cases within with
    | intro _ _ _ enclosed => exact ⟨(enclosed _ member).mono (Nat.le_succ _), fun _ _ free => free.unwrap⟩
  signal _ free := .signal trivial free
  closure within _ := by
    cases within with
    | intro noLiteral => cases noLiteral
  functionBody free _ := free.not_function.elim
  opened free := free.not_function
  fresh _ entered := entered.elim
  enough _ := Nat.zero_le _
  found free inside found := free _ _ (inside ▸ found)
  bind_kept free inside new name value found := by
    subst inside
    rcases World.find?_of_bind found with rfl | old
    · exact new
    · exact free name value old
  addScope_kept _ entered _ := entered.elim
  same_scopes free same name value found := free name value (World.find?_of_scopes same name _ ▸ found)

/-- The parts of code have fewer levels than the code. -/
theorem Code.Within.supports {code : Code} (within : code.Within (limit + 1)) (home : Nat) :
    (functionFreedom limit home).Supports code := by
  cases within with
  | intro noLiteral operands statements enclosed =>
    refine ⟨fun part member => ⟨operands part member, fun _ _ free => free⟩,
      fun part member => ⟨statements part member, fun _ _ free => free⟩, ?_, ?_, ?_⟩
    · rintro body rfl part member
      exact ⟨enclosed part member, fun _ _ free => free.unwrap⟩
    · rintro part rfl size value serial free
      exact .signal trivial free
    · rintro params body rfl
      cases noLiteral

/-- A run that ends with a value, with an error of the language or with a fault in a tree. -/
inductive Ending.Finishes : Ending α → Prop where
  | value {given : α} {world : World} : Finishes (.ok given, world)
  | failed {failure : Failure} {world : World} : Finishes (.error (.failed serial failure), world)
  | malformed {fault : Fault} {world : World} : Finishes (.error (.malformed fault), world)

/-- There is one other way to end. -/
theorem Ending.finishes_iff {ending : Ending α} : ending.Finishes ↔ ending.1 ≠ .error .tooDeep := by
  obtain ⟨result, world⟩ := ending
  constructor
  · intro finishes
    cases finishes with
    | value | failed | malformed => simp
  · intro notTooDeep
    cases result with
    | ok value => exact .value
    | error reason =>
      cases reason with
      | failed => exact .failed
      | malformed => exact .malformed
      | tooDeep => exact absurd rfl notTooDeep

/-- More room makes no difference to a run that finishes. -/
theorem Ending.CutShort.eq_of_finishes {short long : Ending α} (cut : short.CutShort long)
    (finishes : short.Finishes) : long = short :=
  cut.resolve_right fun tooDeep => finishes_iff.mp finishes tooDeep.1

theorem Request.perform_of_finishes {request : Request} (finishes : (request.perform depth world).Finishes)
    (room : depth ≤ deeper) : request.perform deeper world = request.perform depth world :=
  (request.perform_cutShort room world).eq_of_finishes finishes

/-- One of these events is a comparison that has been cut off. -/
def ComparisonCut (events : List Event) : Prop :=
  ∃ a b start, Event.asked (.compare a b) start (.error .tooDeep, start) ∈ events

theorem ComparisonCut.among (cut : ComparisonCut events) (among : events ⊆ others) : ComparisonCut others := by
  obtain ⟨a, b, start, member⟩ := cut
  exact ⟨a, b, start, among member⟩

namespace Plan

variable {answer : Request → World → Ending Value} {inside : Request → World → List Event} {inv : Invariant}

theorem carryOut_of_finishes {plan : Plan α} (finishes : (plan.carryOut (Request.perform depth) world).Finishes)
    (room : depth ≤ deeper) :
    plan.carryOut (Request.perform deeper) world = plan.carryOut (Request.perform depth) world :=
  (plan.carryOut_cutShort (Request.perform_cutShort room) (Request.perform_later deeper) world).eq_of_finishes
    finishes

/-- Carrying out a plan that keeps an invariant is cut off only where one of its requests is, and in what
happens then that can be seen. -/
theorem Keeps.finishes_or_cut {plan : Plan α} (kept : plan.Keeps inv post world.scopes.size)
    (ready : inv.world world)
    (met : ∀ request start, inv.world start → inv.asks start.scopes.size request →
      inv.Ends start.scopes.size (inv.replies · request) (answer request start) ∧
        ((answer request start).Finishes ∨ ComparisonCut (inside request start))) :
    (plan.carryOut answer world).Finishes ∨ ComparisonCut (plan.events answer inside world) := by
  induction plan generalizing world with
  | done value => exact .inl .value
  | stop reason => exact .inl (Ending.finishes_iff.mpr fun tooDeep => kept (Except.error.inj tooDeep))
  | act action next ih =>
    obtain ⟨readyAfter, answered⟩ := Action.perform_kept ready kept.1
    have further := ih _ (kept.2 _ _ answered) readyAfter
    exact further.imp_right fun cut => cut.among (List.subset_cons_self _ _)
  | ask request next ih =>
    obtain ⟨ends, finishes | cut⟩ := met request world ready kept.1
    · rw [carryOut, events]
      generalize answer request world = ending at ends finishes
      cases finishes with
      | @value given after =>
        have further := ih given (kept.2 _ given ends.grown (ends.result given rfl)) ends.world
        exact further.imp_right fun cut => cut.among (List.subset_append_right _ _)
      | failed => exact .inl .failed
      | malformed => exact .inl .malformed
    · rw [events]
      exact .inr (cut.among (List.subset_append_left _ _))

/-- Where each request that can come up finishes with some room, so does a plan: it makes finitely many. -/
theorem Keeps.finishes {plan : Plan α} (kept : plan.Keeps inv post world.scopes.size) (ready : inv.world world)
    (met : ∀ request start, inv.world start → inv.asks start.scopes.size request →
      ∃ depth, (request.perform depth start).Finishes) :
    ∃ depth, (plan.carryOut (Request.perform depth) world).Finishes := by
  induction plan generalizing world with
  | done value => exact ⟨0, .value⟩
  | stop reason => exact ⟨0, Ending.finishes_iff.mpr fun tooDeep => kept (Except.error.inj tooDeep)⟩
  | act action next ih =>
    obtain ⟨readyAfter, answered⟩ := Action.perform_kept ready kept.1
    exact ih _ (kept.2 _ _ answered) readyAfter
  | ask request next ih =>
    obtain ⟨depth, finishes⟩ := met request world ready kept.1
    have ends := (Request.run_keeps inv depth request ready kept.1).1
    have stays : ∀ deeper, depth ≤ deeper → request.perform deeper world = request.perform depth world :=
      fun _ => Request.perform_of_finishes finishes
    simp only [carryOut]
    generalize request.perform depth world = ending at ends finishes stays
    cases finishes with
    | @value given after =>
      -- The rest may need more room, with which the request ends as it did.
      obtain ⟨further, finished⟩ := ih given (kept.2 _ given ends.grown (ends.result given rfl)) ends.world
      refine ⟨max depth further, ?_⟩
      rw [stays _ (Nat.le_max_left ..)]
      change (carryOut _ (next given) after).Finishes
      rw [carryOut_of_finishes finished (Nat.le_max_right depth further)]
      exact finished
    | failed => exact ⟨depth, by rw [stays depth (Nat.le_refl _)]; exact .failed⟩
    | malformed => exact ⟨depth, by rw [stays depth (Nat.le_refl _)]; exact .malformed⟩

theorem finishes_bind {plan : Plan α} {rest : α → Plan β} (first : (plan.carryOut answer world).Finishes)
    (second : ∀ value after, ((rest value).carryOut answer after).Finishes) :
    ((plan >>= rest).carryOut answer world).Finishes := by
  rw [carryOut_bind]
  generalize plan.carryOut answer world = ending at first
  cases first with
  | @value given after => exact second given after
  | failed => exact .failed
  | malformed => exact .malformed

theorem call_finishes (met : (answer (.apply callee args) world).Finishes) :
    ((call callee args >>= settle).carryOut answer world).Finishes := by
  refine finishes_bind ?_ fun value after => ?_
  · rw [call, carryOut]
    generalize answer (.apply callee args) world = ending at met
    cases met with
    | value => exact .value
    | failed => exact .failed
    | malformed => exact .malformed
  · cases value with
    | error => exact .failed
    | _ => exact .value

theorem splitAfter_finishes
    (verdicts : ∀ item start, (answer (.apply predicate [item]) start).Finishes)
    (matched others items : List Value) (world : World) :
    ((splitAfter predicate matched others items).carryOut answer world).Finishes := by
  induction items generalizing matched others world with
  | nil => exact .value
  | cons item items ih =>
    refine finishes_bind (call_finishes (verdicts item world)) fun verdict after => ?_
    split
    · exact ih ..
    · exact ih ..
    · exact .failed

/-- Applying anything but a function goes too deep only where a verdict on one value does. -/
theorem applyStep_finishes (free : value.FunctionFree)
    (verdicts : ∀ items predicate, args = [.array items, predicate] →
      ∀ item start, (answer (.apply predicate [item]) start).Finishes) (world : World) :
    ((applyStep value args).carryOut answer world).Finishes := by
  cases value with
  | function => exact free.not_function.elim
  | builtin b =>
    suffices ∀ plan, BuiltinPlan args plan → (plan.carryOut answer world).Finishes from
      this _ (runBuiltin_plan b args)
    intro plan shape
    cases shape with
    | makes | prints | reads => exact .value
    | fails => exact .failed
    | divides shape =>
      exact finishes_bind (splitAfter_finishes (verdicts _ _ shape) [] [] _ world) fun _ _ => .value
  | _ => exact .failed

end Plan

namespace Request

/-- Without functions, an application takes two steps down at most: the second one is for the predicate of
`partition`, which is a builtin then and gets a single argument. -/
theorem apply_finishes (free : value.FunctionFree) (passed : ∀ arg ∈ args, arg.FunctionFree) (depth : Nat)
    (world : World) : ((Request.apply value args).perform (depth + 2) world).Finishes := by
  have single : ∀ value item start, Value.FunctionFree value →
      ((Request.apply value [item]).perform (depth + 1) start).Finishes := by
    intro value item start free
    exact Plan.applyStep_finishes free (fun items predicate two => by cases two) start
  refine Plan.applyStep_finishes free (fun items predicate two item start => ?_) world
  refine single predicate item start (passed predicate ?_)
  simp [two]

/-- A comparison needs as much room as it goes down, and one step. -/
theorem compare_finishes (a b : Value) (world : World) :
    ((Request.compare a b).perform (a.reach b + 1) world).Finishes := by
  rw [perform_compare, if_pos (Nat.lt_succ_self _)]
  exact .value

/-- A comparison that does not finish is seen to be cut off. -/
theorem compare_finishes_or_cut (a b : Value) (depth : Nat) (world : World) :
    ((Request.compare a b).perform depth world).Finishes ∨
      ComparisonCut ((Request.compare a b).trace depth world) := by
  by_cases enough : a.reach b < depth
  · rw [perform_compare, if_pos enough]
    exact .inl .value
  · have cut : (Request.compare a b).perform depth world = (.error .tooDeep, world) := by
      rw [perform_compare, if_neg enough]
    refine .inr ⟨a, b, world, ?_⟩
    cases depth with
    | zero => exact List.mem_singleton_self _
    | succ depth =>
      rw [← cut]
      exact List.mem_append_right _ (List.mem_singleton_self _)

theorem plan_keeps_freedom (within : code.Within (limit + 1)) (home size : Nat) :
    (Request.eval code home).plan.Keeps (functionFreedom limit home) (fun _ value => value.FunctionFree) size :=
  (Plan.step_keeps (within.supports home) rfl).bind fun _ _ _ given => Plan.settle_keeps given

/-- Each level of the code takes one step down. -/
theorem eval_finishes_or_cut (within : code.Within limit) (free : world.FunctionFree home) (more : Nat) :
    ((Request.eval code home).perform (limit + more + 2) world).Finishes ∨
      ComparisonCut ((Request.eval code home).trace (limit + more + 2) world) := by
  induction limit generalizing code world with
  | zero => cases within
  | succ limit ih =>
    have below : ∀ request start, (functionFreedom limit home).world start →
        (functionFreedom limit home).asks start.scopes.size request →
        (request.perform (limit + more + 2) start).Finishes ∨
          ComparisonCut (request.trace (limit + more + 2) start) := by
      intro request start ready asked
      cases request with
      | eval part scope =>
        obtain ⟨partWithin, rfl⟩ := asked
        exact ih partWithin ready
      | apply value args => exact .inl (apply_finishes asked.1 asked.2 (limit + more) start)
      | compare a b => exact compare_finishes_or_cut a b _ start
    have ended := (plan_keeps_freedom within home _).finishes_or_cut free fun request start ready asked =>
      ⟨(run_keeps (functionFreedom limit home) (limit + more + 2) request ready asked).1,
        below request start ready asked⟩
    rw [Nat.succ_add]
    exact ended.imp_right fun cut => cut.among (List.subset_append_left _ _)

/-- Each level of the code needs some more room than the levels below. -/
theorem eval_finishes (within : code.Within limit) (free : world.FunctionFree home) :
    ∃ depth, ((Request.eval code home).perform depth world).Finishes := by
  induction limit generalizing code world with
  | zero => cases within
  | succ limit ih =>
    have below : ∀ request start, (functionFreedom limit home).world start →
        (functionFreedom limit home).asks start.scopes.size request →
        ∃ depth, (request.perform depth start).Finishes := by
      intro request start ready asked
      cases request with
      | eval part scope =>
        obtain ⟨partWithin, rfl⟩ := asked
        exact ih partWithin ready
      | apply value args => exact ⟨2, apply_finishes asked.1 asked.2 0 start⟩
      | compare a b => exact ⟨_, compare_finishes a b start⟩
    obtain ⟨depth, finishes⟩ := (plan_keeps_freedom within home _).finishes free below
    exact ⟨depth + 1, finishes⟩

end Request

/-- Take a tree without function literals and a scope from which no function can be found, be it in an array or
in a signal. With enough room a run ends with a value, with an error of the language or with a fault in the
tree, and any more room makes no difference to the run or to what an evaluation comes to. The levels of the
tree and two more are enough, unless two arrays are compared that nest too deep for what is left. -/
theorem function_free_trees_finish (tree : Tree) (noLiteral : Label.function ∉ tree.labels) (scope : Nat)
    (world : World) (free : world.FunctionFree scope) :
    (∃ bound, ∀ depth, bound ≤ depth →
      ((Request.eval (.ofTree tree) scope).perform depth world).Finishes ∧
        (Request.eval (.ofTree tree) scope).perform depth world =
          (Request.eval (.ofTree tree) scope).perform bound world ∧
        evaluateTo depth (.ofTree tree) tree.describe scope world =
          evaluateTo bound (.ofTree tree) tree.describe scope world) ∧
    ∀ depth, tree.levels + 2 ≤ depth →
      ((Request.eval (.ofTree tree) scope).perform depth world).Finishes ∨
        ComparisonCut ((Request.eval (.ofTree tree) scope).trace depth world) := by
  have within : (Code.ofTree tree).Within tree.levels := Code.ofTree_within ⟨noLiteral, Nat.le_refl _⟩
  constructor
  · obtain ⟨bound, finishes⟩ := Request.eval_finishes within free
    refine ⟨bound, fun depth room => ?_⟩
    have same := Request.perform_of_finishes finishes room
    exact ⟨same ▸ finishes, same, by rw [evaluateTo, evaluateTo, same]⟩
  · intro depth room
    obtain ⟨more, rfl⟩ := Nat.exists_eq_add_of_le room
    rw [Nat.add_right_comm]
    exact Request.eval_finishes_or_cut within free more

/-- A loop doubles the array it goes over, which a builtin divides then. A single step down is not enough for
that, but some number is, and from nine on only a comparison could be cut off. In another scope there is a
function that calls itself. -/
theorem function_free_trees_finish_of_doubling_loop :
    let name := fun text => Tree.leaf (.terminal .identifier) text
    let doubled := Tree.node .call [name "list.concat", .node .args [name "xs", name "xs"]]
    let body := Tree.node .block [.node .assignment [name "xs", doubled]]
    let divided := Tree.node .call [name "partition", .node .args [name "xs", name "first"]]
    let tree := Tree.node .program [.node .loop [name "xs", name "x", .absent, body], .node .evaluation [divided]]
    let items := Value.array [.array [.bool true], .array [.bool false]]
    let endless := Value.function 0 [] [.call (.ident "f") []] 1
    let world : World := ⟨#[⟨none, [("xs", items)]⟩, ⟨some 0, [("f", endless)]⟩], 1, [], "", []⟩
    Label.function ∉ tree.labels ∧ tree.levels = 7 ∧ world.FunctionFree 0 ∧ ¬ world.FunctionFree 1 ∧
      ¬ ((Request.eval (.ofTree tree) 0).perform 1 world).Finishes ∧
      (∃ bound, ((Request.eval (.ofTree tree) 0).perform bound world).Finishes) ∧
      ∀ depth, 9 ≤ depth → ((Request.eval (.ofTree tree) 0).perform depth world).Finishes ∨
        ComparisonCut ((Request.eval (.ofTree tree) 0).trace depth world) := by
  intro name doubled body divided tree items endless world
  have noLiteral : Label.function ∉ tree.labels := by decide
  have levels : tree.levels = 7 := by decide
  have free : world.FunctionFree 0 := by
    intro name value found
    have item : ∀ b, (Value.array [.bool b]).FunctionFree := fun b =>
      .array (List.forall_mem_singleton.mpr (.plain trivial))
    have array : items.FunctionFree :=
      .array (List.forall_mem_cons.mpr ⟨item true, List.forall_mem_singleton.mpr (item false)⟩)
    have own : world.scopes[0]? = some ⟨none, [("xs", items)]⟩ := rfl
    rw [World.find?, own] at found
    by_cases isSource : name = "xs"
    · simp only [isSource, Scope.get?, List.lookup_cons_self, Option.some.injEq] at found
      exact found ▸ array
    · have other : (name == "xs") = false := by simp [isSource]
      simp [Scope.get?, List.lookup_cons, other] at found
  have notFree : ¬ world.FunctionFree 1 := by
    intro free
    have found : world.find? "f" 1 = some endless := by
      rw [World.find?]
      rfl
    exact (free "f" endless found).not_function
  have cut : ((Request.eval (.ofTree tree) 0).perform 1 world).1 = .error .tooDeep := rfl
  obtain ⟨⟨bound, enough⟩, bounded⟩ := function_free_trees_finish tree noLiteral 0 world free
  refine ⟨noLiteral, levels, free, notFree, fun finishes => Ending.finishes_iff.mp finishes cut, ?_, ?_⟩
  · exact ⟨bound, (enough bound (Nat.le_refl _)).1⟩
  · intro depth room
    exact bounded depth (levels ▸ room)

end TreeWalk
