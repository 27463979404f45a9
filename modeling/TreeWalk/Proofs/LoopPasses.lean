import TreeWalk.Proofs.ErrorValues
import TreeWalk.Proofs.LastingNames

/-! Loops go through the elements that they find at the beginning.

A loop may begin if its source is an array and its own names are distinct and not in use. It then runs its
body once for each element that the array had at this time, in order, whatever the body does to the names of
the loop. Each run of the body starts with the names bound anew, in the world that the run before it has left.
The first one that does not go on ends the loop as it ends itself. A loop that may not begin fails and changes
nothing but the count of identities. -/
namespace TreeWalk

/-- A loop: the names in its head, and the statements in its body. -/
structure Loop where
  source : String
  element : String
  index : Option String
  body : List Tree

namespace Loop

def tree (loop : Loop) : Tree :=
  let name : String → Tree := .leaf (.terminal .identifier)
  .node .loop [name loop.source, name loop.element, (loop.index.map name).getD .absent, .node .block loop.body]

/-- The loop may begin: its source stands for an array, and its names are distinct and not in use. -/
structure Ready (loop : Loop) (world : World) (scope : Nat) (items : List Value) : Prop where
  source : world.find? loop.source scope = some (.array items)
  distinct : loop.index ≠ some loop.element
  unseen : ∀ name ∈ loop.element :: loop.index.toList, world.find? name scope = none

/-- Runs the body, as a block. -/
def runBody (loop : Loop) (depth scope : Nat) : World → Ending Value :=
  (Request.eval (.ofTree (.node .block loop.body)) scope).perform (depth + 1)

end Loop

/-- A run that ends with a value that is no signal: a loop around it goes on. -/
def Ending.GoesOn (ending : Ending Value) : Prop := ∃ value, ending.1 = .ok value ∧ value.isSignal = false

namespace World

/-- Binds names in a scope, one after the other. -/
def bindAll (world : World) (scope : Nat) (bindings : List (String × Value)) : World :=
  bindings.foldl (fun world binding => world.bind scope binding.1 binding.2) world

theorem boundIn_bind (world : World) (name given : String) (value : Value) (there : scope < world.scopes.size) :
    (world.bind scope name value).boundIn scope given =
      if given = name then some value else world.boundIn scope given := by
  rw [boundIn, bind_getElem?, if_pos rfl, boundIn, Array.getElem?_eq_getElem there]
  exact Scope.get?_set _ name value given

/-- The names of a loop are bound where a run of its body starts. -/
theorem boundIn_loopBindings (world : World) (distinct : index ≠ some element) (count : Nat) (item : Value)
    (there : scope < world.scopes.size) :
    let start := world.bindAll scope (Plan.loopBindings element index count item)
    start.boundIn scope element = some item ∧ ∀ name ∈ index, start.boundIn scope name = some (.int count) := by
  cases index with
  | none => exact ⟨(world.boundIn_bind _ _ _ there).trans (if_pos rfl), by simp⟩
  | some name =>
    have there' : scope < (world.bind scope name (.int count)).scopes.size := by rwa [bind_size]
    have bound := fun given => (world.bind scope name (.int count)).boundIn_bind element given item there'
    refine ⟨(bound element).trans (if_pos rfl), fun given isName => ?_⟩
    obtain rfl : name = given := Option.some.inj isName
    have different : name ≠ element := fun same => distinct (congrArg some same)
    exact (bound name).trans ((if_neg different).trans ((world.boundIn_bind _ _ _ there).trans (if_pos rfl)))

theorem bindAll_size (world : World) (scope : Nat) (bindings : List (String × Value)) :
    (world.bindAll scope bindings).scopes.size = world.scopes.size := by
  induction bindings generalizing world with
  | nil => rfl
  | cons binding bindings ih => exact (ih _).trans (bind_size ..)

theorem Later.there {before after : World} (later : before.Later after) (there : scope < before.scopes.size) :
    scope < after.scopes.size := by
  obtain ⟨own, present, _⟩ := later.retains scope _ (Array.getElem?_eq_getElem there)
  exact (Array.getElem?_eq_some_iff.mp present).1

end World

namespace Plan

variable {answer : Request → World → Ending Value}

theorem carryOut_assignAll (scope : Nat) (bindings : List (String × Value)) (world : World) :
    (assignAll scope bindings).carryOut answer world = (.ok (), world.bindAll scope bindings) := by
  induction bindings generalizing world with
  | nil => rfl
  | cons binding bindings ih => exact ih _

theorem carryOut_requireUnbound (unseen : ∀ name ∈ names, world.find? name scope = none) :
    (requireUnbound scope names).carryOut answer world = (.ok (), world) := by
  induction names with
  | nil => rfl
  | cons name names ih =>
    obtain ⟨first, others⟩ := List.forall_mem_cons.mp unseen
    rw [requireUnbound, find, act_bind, carryOut]
    simp only [Action.perform, done_bind, first]
    exact ih others

/-- Statements do not have an error as their value. -/
theorem sequence_value_ne_error (last : Value) (notError : last.kind ≠ .error) (codes : List Code) (scope : Nat)
    (ran : (sequence scope last codes).carryOut (Request.perform depth) world = (.ok value, after)) :
    value.kind ≠ .error := by
  induction codes generalizing last world with
  | nil =>
    cases ran
    exact notError
  | cons code codes ih =>
    rw [sequence, run, ask_bind, carryOut] at ran
    have settled := Request.eval_value_ne_error depth code scope world
    cases met : (Request.eval code scope).perform depth world with
    | mk result middle =>
      rw [met] at ran settled
      cases result with
      | error reason => cases ran
      | ok first =>
        have notError' : first.kind ≠ .error := by
          intro isError
          cases first with
          | error serial failure => exact settled serial failure rfl
          | _ => cases isError
        simp only [done_bind] at ran
        split at ran
        · cases ran
          exact notError'
        · exact ih first notError' ran

theorem settle_of_ne {value : Value} (notError : value.kind ≠ .error) : settle value = .done value := by
  cases value with
  | error => exact absurd rfl notError
  | _ => rfl

end Plan

/-- A block is run statement by statement. -/
theorem Request.perform_block (body : List Code) (depth scope : Nat) (world : World) :
    (Request.eval (.block body) scope).perform (depth + 1) world =
      (Plan.sequence scope .null body).carryOut (perform depth) world := by
  have isPlan : (Request.eval (.block body) scope).plan = Plan.sequence scope .null body >>= Plan.settle := rfl
  rw [perform, isPlan, Plan.carryOut_bind]
  cases ran : (Plan.sequence scope .null body).carryOut (perform depth) world with
  | mk result after =>
    cases result with
    | error reason => rfl
    | ok value =>
      have notError := Plan.sequence_value_ne_error .null (by decide) _ scope ran
      simp only [Plan.settle_of_ne notError]
      rfl

namespace Loop

variable {loop : Loop} {depth scope : Nat} {world : World}

theorem code_eq (loop : Loop) :
    Code.ofTree loop.tree = .loop loop.source loop.element loop.index (Code.ofTrees loop.body) := by
  obtain ⟨source, element, index, body⟩ := loop
  cases index with
  | none => rfl
  | some index => rfl

/-- The body is run statement by statement. -/
theorem runBody_eq (loop : Loop) (depth scope : Nat) (world : World) :
    loop.runBody depth scope world =
      (Plan.sequence scope .null (Code.ofTrees loop.body)).carryOut (Request.perform depth) world :=
  Request.perform_block (Code.ofTrees loop.body) depth scope world

/-- One run of the body. -/
structure Pass where
  start : World
  ending : Ending Value

namespace Pass

/-- The world that a run of the body leaves. -/
def after (pass : Pass) : World := pass.ending.2

/-- A run of the body for an element of the source. Between the world before and its start, the names of
the loop are bound, and nothing else is done. -/
structure Runs (loop : Loop) (depth scope : Nat) (before : World) (count : Nat) (item : Value) (pass : Pass) :
    Prop where
  start : pass.start = before.bindAll scope (Plan.loopBindings loop.element loop.index count item)
  element : pass.start.boundIn scope loop.element = some item
  index : ∀ name ∈ loop.index, pass.start.boundIn scope name = some (.int count)
  ending : pass.ending = loop.runBody depth scope pass.start

end Pass

/-- How a loop takes its course, from a count on: one run of the body for each element, each in the world that
the one before has left. All but the last one go on. If the last one does too, there are as many as elements,
and the value is null; otherwise it ends the loop. -/
structure Course (loop : Loop) (depth scope count : Nat) (items : List Value) (world : World)
    (passes : List Pass) (ending : Ending Value) : Prop where
  runs : ∀ k (pass : Pass), passes[k]? = some pass → ∃ item before, items[k]? = some item ∧
    (world :: passes.map Pass.after)[k]? = some before ∧ pass.Runs loop depth scope before (count + k) item
  goesOn : ∀ pass ∈ passes.dropLast, pass.ending.GoesOn
  ends : (passes.length = items.length ∧ (∀ pass ∈ passes, pass.ending.GoesOn) ∧
      ending = (.ok .null, (passes.getLast?.map Pass.after).getD world)) ∨
    ∃ last, passes.getLast? = some last ∧ ¬ last.ending.GoesOn ∧ ending = last.ending

namespace Course

theorem finished (loop : Loop) (depth scope count : Nat) (world : World) :
    Course loop depth scope count [] world [] (.ok .null, world) where
  runs := by
    intro k pass found
    cases found
  goesOn := List.forall_mem_nil _
  ends := .inl ⟨rfl, List.forall_mem_nil _, rfl⟩

theorem stopped {pass : Pass} (runs : pass.Runs loop depth scope world count item)
    (stops : ¬ pass.ending.GoesOn) (items : List Value) :
    Course loop depth scope count (item :: items) world [pass] pass.ending where
  runs := by
    intro k found isPass
    cases k with
    | zero =>
      cases isPass
      exact ⟨item, world, rfl, rfl, runs⟩
    | succ k => cases isPass
  goesOn := List.forall_mem_nil _
  ends := .inr ⟨pass, rfl, stops, rfl⟩

theorem cons {pass : Pass} (runs : pass.Runs loop depth scope world count item) (goesOn : pass.ending.GoesOn)
    (rest : Course loop depth scope (count + 1) items pass.after passes ending) :
    Course loop depth scope count (item :: items) world (pass :: passes) ending where
  runs := by
    intro k found isPass
    cases k with
    | zero =>
      cases isPass
      exact ⟨item, world, rfl, rfl, runs⟩
    | succ k =>
      obtain ⟨later, before, isItem, isBefore, runsLater⟩ := rest.runs k found isPass
      rw [Nat.add_right_comm] at runsLater
      exact ⟨later, before, isItem, isBefore, runsLater⟩
  goesOn := by
    intro other member
    cases passes with
    | nil => cases member
    | cons second passes =>
      rcases List.mem_cons.mp member with rfl | inRest
      · exact goesOn
      · exact rest.goesOn other inRest
  ends := by
    rw [List.getLast?_cons]
    rcases rest.ends with ⟨sameLength, allGoOn, isEnding⟩ | ⟨last, isLast, stops, isEnding⟩
    · refine .inl ⟨congrArg (· + 1) sameLength, List.forall_mem_cons.mpr ⟨goesOn, allGoOn⟩, ?_⟩
      rw [isEnding]
      cases passes.getLast? <;> rfl
    · exact .inr ⟨last, by rw [isLast]; rfl, stops, isEnding⟩

end Course

/-- The runs of the body take their course. -/
theorem passes_course (distinct : loop.index ≠ some loop.element) (items : List Value) (count : Nat)
    (there : scope < world.scopes.size) :
    ∃ passes, Course loop depth scope count items world passes
      ((Plan.passes scope loop.element loop.index (Code.ofTrees loop.body) count items >>= Plan.settle).carryOut
        (Request.perform depth) world) := by
  induction items generalizing count world with
  | nil => exact ⟨[], .finished loop depth scope count world⟩
  | cons item items ih =>
    obtain ⟨element, index⟩ := world.boundIn_loopBindings distinct count item there
    rw [Plan.passes, bind_assoc, Plan.carryOut_bind, Plan.carryOut_assignAll]
    dsimp only
    rw [bind_assoc, Plan.carryOut_bind, ← runBody_eq]
    generalize isStart : world.bindAll scope _ = start at element index ⊢
    have there' : scope < start.scopes.size := by rwa [← isStart, World.bindAll_size]
    have runs : Pass.Runs loop depth scope world count item ⟨start, loop.runBody depth scope start⟩ :=
      ⟨isStart.symm, element, index, rfl⟩
    have later := Request.perform_later (depth + 1) (.eval (.ofTree (.node .block loop.body)) scope) start
    rw [← runBody] at later
    cases ran : loop.runBody depth scope start with
    | mk result after =>
      rw [ran] at runs later
      cases result with
      | error reason =>
        have stops : ¬ Ending.GoesOn (.error reason, after) := by
          rintro ⟨value, isValue, _⟩
          cases isValue
        exact ⟨_, .stopped runs stops items⟩
      | ok value =>
        dsimp only
        by_cases isSignal : value.isSignal = true
        · have stops : ¬ Ending.GoesOn (.ok value, after) := by
            rintro ⟨other, isOther, notSignal⟩
            cases isOther
            rw [isSignal] at notSignal
            cases notSignal
          have notError : value.kind ≠ .error := by
            intro isError
            cases value with
            | error => cases isSignal
            | _ => cases isError
          rw [if_pos isSignal, Plan.pure_eq, Plan.done_bind, Plan.settle_of_ne notError]
          exact ⟨_, .stopped runs stops items⟩
        · have goesOn : Ending.GoesOn (.ok value, after) := ⟨value, rfl, by simpa using isSignal⟩
          obtain ⟨passes, course⟩ := ih (count + 1) (later.there there')
          rw [if_neg isSignal]
          exact ⟨_, .cons runs goesOn course⟩

theorem Ready.carryOut_loopItems (ready : loop.Ready world scope items) :
    (Plan.loopItems scope loop.source loop.element loop.index).carryOut answer world = (.ok items, world) := by
  rw [Plan.loopItems, Plan.find, Plan.act_bind, Plan.carryOut]
  simp only [Action.perform, Plan.done_bind, ready.source, if_neg ready.distinct]
  rw [Plan.carryOut_bind, Plan.carryOut_requireUnbound ready.unseen]
  rfl

theorem ready_of_loopItems
    (passed :
      (Plan.loopItems scope loop.source loop.element loop.index).carryOut answer world = (.ok items, after)) :
    loop.Ready world scope items := by
  have unseen := (Plan.loopItems_unseen passed).2
  rw [Plan.loopItems, Plan.find, Plan.act_bind, Plan.carryOut] at passed
  simp only [Action.perform, Plan.done_bind] at passed
  split at passed
  · cases passed
  · rename_i found
    split at passed
    · cases passed
    · rename_i distinct
      rw [Plan.carryOut_bind] at passed
      split at passed
      · cases passed
        exact ⟨found, distinct, fun name used => by simpa [World.Sees] using unseen name used⟩
      · cases passed
  · cases passed

end Loop

/-- A loop that may begin runs its body for the elements that its source has when it begins, one by one and in
order. Every run starts with the element bound to its name, and the count to that of the index, in the scope of
the loop. The first run that ends without a value, or with a signal, ends the loop likewise; if there is none,
the body runs once for each element and the value is null. A loop that may not begin fails; scopes, input,
output and notes stay as they are. -/
theorem loops_go_through_elements_found (loop : Loop) (depth scope : Nat) (world : World) :
    let ending := (Request.eval (.ofTree loop.tree) scope).perform (depth + 1) world
    (∀ items, loop.Ready world scope items → ∃ passes, loop.Course depth scope 0 items world passes ending) ∧
      ((∀ items, ¬ loop.Ready world scope items) → ∃ failure,
        ending =
          (.error (.failed world.nextSerial failure), { world with nextSerial := world.nextSerial + 1 })) := by
  intro ending
  have isEnding : ending = (Plan.loopItems scope loop.source loop.element loop.index >>= fun items =>
      Plan.passes scope loop.element loop.index (Code.ofTrees loop.body) 0 items >>= Plan.settle).carryOut
        (Request.perform depth) world := by
    rw [← Request.plan_loop, ← loop.code_eq]
    rfl
  rw [isEnding, Plan.carryOut_bind]
  constructor
  · intro items ready
    rw [ready.carryOut_loopItems]
    obtain ⟨own, present, _⟩ := World.sees_iff.mp (Option.isSome_of_eq_some ready.source)
    exact Loop.passes_course ready.distinct items 0 (Array.getElem?_eq_some_iff.mp present).1
  · intro notReady
    rcases (Plan.loopItems_looks scope loop.source loop.element loop.index).ends world with
      ⟨items, passed⟩ | ⟨failure, failed⟩
    · exact absurd (Loop.ready_of_loopItems (passed (Request.perform depth))) (notReady items)
    · rw [failed]
      exact ⟨failure, rfl⟩

/-- A body that empties the source and changes the index is still run for both elements. -/
theorem loops_go_through_elements_found_of_emptied_source :
    let name : String → Tree := .leaf (.terminal .identifier)
    let emptied : Tree := .node .assignment [name "a", .node .array []]
    let moved : Tree := .node .assignment [name "i", .leaf (.terminal .integer) "7"]
    let loop : Loop := ⟨"a", "x", some "i", [emptied, moved]⟩
    let items : List Value := [.str "u", .str "v"]
    let world : World := ⟨#[⟨none, [("a", .array items)]⟩], 0, [], "", []⟩
    let ending := (Request.eval (.ofTree loop.tree) 0).perform 4 world
    loop.Ready world 0 items ∧ ending.1 = .ok .null ∧
      ∃ passes, loop.Course 3 0 0 items world passes ending ∧ passes.length = 2 := by
  intro name emptied moved loop items world ending
  have ready : loop.Ready world 0 items := by
    refine ⟨by rw [World.find?]; rfl, by decide, ?_⟩
    refine List.forall_mem_cons.mpr ⟨by rw [World.find?]; rfl, List.forall_mem_singleton.mpr ?_⟩
    rw [World.find?]
    rfl
  obtain ⟨passes, course⟩ := (loops_go_through_elements_found loop 3 0 world).1 items ready
  have goesOn : ∀ start, (loop.runBody 3 0 start).GoesOn := fun start => ⟨.null, rfl, rfl⟩
  rcases course.ends with ⟨sameLength, _, isEnding⟩ | ⟨last, isLast, stops, _⟩
  · exact ⟨ready, congrArg Prod.fst isEnding, passes, course, sameLength⟩
  · obtain ⟨k, isPass⟩ := List.getElem?_of_mem (List.mem_of_getLast? isLast)
    obtain ⟨_, _, _, _, runs⟩ := course.runs k last isPass
    exact absurd (runs.ending ▸ goesOn last.start) stops

end TreeWalk
