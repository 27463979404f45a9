import TreeWalk.Proofs.FreshIdentities
import TreeWalk.Proofs.LoopPasses
import TreeWalk.Proofs.StableSplit

/-! The identity of functions.

A function is equal to itself and to no other function. It stays so on every way that a value can take: it may
be bound to a name, passed, listed in an array, joined, pushed, reversed or divided with others, gone through by
a loop, and returned. Wherever it comes to, there is a value that is found equal to it. -/
namespace TreeWalk

open Value

namespace Value

/-- Somewhere in a value there is one that is found equal to another. -/
def Bears (whole made : Value) : Prop := ∃ part : Value, part.Inside whole ∧ Equals part made

theorem kind_eq_of_equals (same : Equals a b) : a.kind = b.kind := by
  have outlines := equals_iff.mp same
  cases a <;> cases b <;> simp_all [outline, kind]

section Bears

variable {made : Value} (isFunction : made.kind = .function)

include isFunction

theorem bears_array_iff : (array items).Bears made ↔ ∃ item ∈ items, item.Bears made := by
  constructor
  · rintro ⟨part, inside, same⟩
    cases inside with
    | here =>
      have kinds := (kind_eq_of_equals same).trans isFunction
      cases kinds
    | element member inside => exact ⟨_, member, part, inside, same⟩
  · rintro ⟨item, member, part, inside, same⟩
    exact ⟨part, .element member inside, same⟩

theorem Bears.unwrap {whole : Value} (bears : whole.Bears made) : whole.unwrap.Bears made := by
  obtain ⟨part, inside, same⟩ := bears
  cases inside with
  | here =>
    have kinds := (kind_eq_of_equals same).trans isFunction
    cases whole with
    | signal => cases kinds
    | _ => exact ⟨_, .here, same⟩
  | element member inside => exact ⟨part, .element member inside, same⟩
  | carried inside => exact ⟨part, inside, same⟩

theorem Bears.ne_error {whole : Value} (bears : whole.Bears made) : whole.kind ≠ .error := by
  obtain ⟨part, inside, same⟩ := bears
  cases inside with
  | here =>
    rw [kind_eq_of_equals same, isFunction]
    decide
  | element | carried => simp [kind]

end Bears

end Value

namespace Request

/-- A request is met with a value that bears another. -/
def Brings (request : Request) (made : Value) (depth : Nat) (world after : World) : Prop :=
  ∃ got, request.perform depth world = (.ok got, after) ∧ got.Bears made

/-- Code that is run from left to right, with the values that it gives. -/
inductive InTurn (depth scope : Nat) : List Code → World → List Value → World → Prop where
  | nil : InTurn depth scope [] world [] world
  | cons (first : (eval code scope).perform depth world = (.ok value, middle))
      (rest : InTurn depth scope codes middle values after) :
      InTurn depth scope (code :: codes) world (value :: values) after

end Request

open Request (InTurn)

/-- The world in which the body of a function runs. -/
def World.entered (world : World) (params : List String) (outer : Nat) (args : List Value) : World :=
  (world.addScope ⟨some outer, params.zip args⟩).2

/-- Wherever a value is carried, there is something that is found equal to it. -/
structure Value.Carried (made : Value) : Prop where
  /-- By a declaration or an assignment it comes to stand under the name. -/
  bound : ∀ depth code scope name world after, (Request.eval code scope).Brings made depth world after →
    scope < after.scopes.size → ∃ left,
      (Request.eval (.bind name code) scope).perform (depth + 1) world = (.ok .null, left) ∧
      (Request.eval (.ident name) scope).Brings made (depth + 1) left left
  /-- What is passed stands under the parameter in the scope of the call. -/
  passed : ∀ depth (params : List String) outer (args : List Value) (i : Nat) name arg (world : World),
    params.Nodup → params[i]? = some name → args[i]? = some arg → arg.Bears made →
    (Request.eval (.ident name) world.scopes.size).Brings made (depth + 1) (world.entered params outer args)
      (world.entered params outer args)
  /-- A `return` ends the statements around it with a signal that carries it. -/
  returned : ∀ depth code rest scope world after, (Request.eval code scope).Brings made depth world after →
    ∃ left signal, (Request.eval (.block (.giveBack code :: rest)) scope).perform (depth + 2) world =
      (.ok signal, left) ∧ signal.isSignal = true ∧ signal.Bears made
  /-- What the statements of a function come to is what the application gives. -/
  answered : ∀ depth serial params body outer args (world after : World), args.length = params.length →
    (Request.eval (.block body) world.scopes.size).Brings made depth (world.entered params outer args) after →
    (Request.apply (.function serial params body outer) args).Brings made depth world after
  /-- What an application gives is what the call gives. -/
  called : ∀ depth callee codes scope world value middle args start after,
    (Request.eval callee scope).perform depth world = (.ok value, middle) →
    InTurn depth scope codes middle args start → (Request.apply value args).Brings made depth start after →
    (Request.eval (.call callee codes) scope).Brings made (depth + 1) world after
  /-- An array has what its elements come to. -/
  listed : ∀ depth codes scope world values after, InTurn depth scope codes world values after →
    (∃ value ∈ values, value.Bears made) →
    (Request.eval (.array codes) scope).Brings made (depth + 1) world after
  /-- Two arrays joined by `+` have what one of them has. -/
  added : ∀ depth left right scope world items middle others after,
    (Request.eval left scope).perform depth world = (.ok (.array items), middle) →
    (Request.eval right scope).perform depth middle = (.ok (.array others), after) →
    (Value.array items).Bears made ∨ (Value.array others).Bears made →
    (Request.eval (.binary .add left right) scope).Brings made (depth + 1) world after
  pushed : ∀ depth items item world, (Value.array items).Bears made ∨ item.Bears made →
    (Request.apply (.builtin .push) [.array items, item]).Brings made (depth + 1) world world
  reversed : ∀ depth items world, (Value.array items).Bears made →
    (Request.apply (.builtin .reverse) [.array items]).Brings made (depth + 1) world world
  concatenated : ∀ depth items others world, (Value.array items).Bears made ∨ (Value.array others).Bears made →
    (Request.apply (.builtin .listConcat) [.array items, .array others]).Brings made (depth + 1) world world
  /-- An array that is divided has it in one of its parts. -/
  divided : ∀ depth items predicate world got after,
    (Request.apply (.builtin .partition) [.array items, predicate]).perform depth world = (.ok got, after) →
    (Value.array items).Bears made → got.Bears made
  /-- The element of a loop stands under its name where the run of the body for it starts. -/
  visited : ∀ (loop : Loop) depth scope world items, loop.Ready world scope items → ∃ passes,
    loop.Course depth scope 0 items world passes
      ((Request.eval (.ofTree loop.tree) scope).perform (depth + 1) world) ∧
    ∀ (k : Nat) (pass : Loop.Pass) (item : Value), passes[k]? = some pass → items[k]? = some item →
      item.Bears made → (Request.eval (.ident loop.element) scope).Brings made (depth + 1) pass.start pass.start

namespace World

theorem find?_of_boundIn {world : World} (bound : world.boundIn scope name = some value) :
    world.find? name scope = some value := by
  obtain ⟨own, present, found⟩ := Option.bind_eq_some_iff.mp bound
  rw [find?, present]
  simp only [found]

/-- Distinct parameters stand for their own arguments. -/
theorem lookup_zip {params : List String} {args : List Value} {i : Nat} (distinct : params.Nodup)
    (param : params[i]? = some name) (arg : args[i]? = some value) :
    (params.zip args).lookup name = some value := by
  induction params generalizing args i with
  | nil => simp at param
  | cons first params ih =>
    obtain ⟨notAgain, distinct⟩ := List.nodup_cons.mp distinct
    cases args with
    | nil => simp at arg
    | cons arg args =>
      cases i with
      | zero =>
        cases param
        cases arg
        exact List.lookup_cons_self
      | succ i =>
        have other : (name == first) = false := by
          rw [beq_eq_false_iff_ne]
          rintro rfl
          exact notAgain (List.mem_of_getElem? param)
        rw [List.zip_cons_cons, List.lookup_cons, other]
        exact ih distinct param arg

theorem boundIn_entered {params : List String} {args : List Value} {i : Nat} (world : World) (outer : Nat)
    (distinct : params.Nodup) (param : params[i]? = some name) (arg : args[i]? = some value) :
    (world.entered params outer args).boundIn world.scopes.size name = some value := by
  rw [boundIn, entered, addScope, Array.getElem?_push_size, Option.bind_some]
  exact lookup_zip distinct param arg

end World

theorem Plan.carryOut_collect (inTurn : InTurn depth scope codes world values after) :
    (collect scope codes).carryOut (Request.perform depth) world = (.ok values, after) := by
  suffices ∀ before, (collectAfter scope before codes).carryOut (Request.perform depth) world =
      (.ok (before.reverse ++ values), after) from this []
  induction inTurn with
  | nil => simp [collectAfter, carryOut]
  | cons first _ ih =>
    intro before
    simp [collectAfter, run, carryOut, first, ih]

namespace Request

variable {made : Value} {start : World}

theorem perform_giveBack (given : (eval code scope).perform depth world = (.ok value, after)) :
    (eval (.giveBack code) scope).perform (depth + 1) world =
      (.ok (.signal after.nextSerial value), after.takeSerial.2) := by
  simp only [perform, plan, Plan.step, Plan.run, Plan.ask_bind, Plan.done_bind, Plan.carryOut, given]
  rfl

theorem perform_bind (given : (eval code scope).perform depth world = (.ok value, after)) (name : String) :
    (eval (.bind name code) scope).perform (depth + 1) world = (.ok .null, after.bind scope name value) := by
  simp only [perform, plan, Plan.step, Plan.run, Plan.ask_bind, Plan.done_bind, Plan.carryOut, given]
  rfl

/-- An application runs the body as a block, in a scope of its own, and takes the value out of a signal. -/
theorem perform_enter (enough : args.length = params.length) (serial : Nat) (body : List Code)
    (outer depth : Nat) (world : World) :
    (apply (.function serial params body outer) args).perform (depth + 1) world =
      let ending := (eval (.block body) world.scopes.size).perform (depth + 1) (world.entered params outer args)
      (ending.1.map Value.unwrap, ending.2) := by
  have isPlan : (apply (.function serial params body outer) args).perform (depth + 1) world =
      (Plan.sequence world.scopes.size .null body >>= fun value => pure value.unwrap).carryOut (perform depth)
        (world.entered params outer args) := by
    rw [perform, plan, Plan.applyStep, if_pos enough]
    rfl
  rw [isPlan, perform_block, Plan.carryOut_bind]
  generalize Plan.carryOut _ (Plan.sequence _ _ _) _ = ending
  obtain ⟨result, after⟩ := ending
  cases result <;> rfl

theorem perform_call (called : (eval callee scope).perform depth world = (.ok value, middle))
    (inTurn : InTurn depth scope codes middle args start)
    (applied : (apply value args).perform depth start = (.ok got, after)) (notError : got.kind ≠ .error) :
    (eval (.call callee codes) scope).perform (depth + 1) world = (.ok got, after) := by
  simp only [perform, plan, Plan.step, Plan.run, Plan.call, Plan.ask_bind, Plan.done_bind, Plan.carryOut,
    called, bind_assoc, Plan.carryOut_bind, Plan.carryOut_collect inTurn, applied, Plan.settle_of_ne notError]

theorem perform_array (inTurn : InTurn depth scope codes world values after) :
    (eval (.array codes) scope).perform (depth + 1) world = (.ok (.array values), after) := by
  simp only [perform, plan, Plan.step, bind_assoc, Plan.carryOut_bind, Plan.carryOut_collect inTurn]
  rfl

theorem perform_add (first : (eval left scope).perform depth world = (.ok (.array items), middle))
    (second : (eval right scope).perform depth middle = (.ok (.array others), after)) :
    (eval (.binary .add left right) scope).perform (depth + 1) world =
      (.ok (.array (items ++ others)), after) := by
  simp only [perform, plan, Plan.step, Plan.run, Plan.ask_bind, Plan.done_bind, Plan.carryOut, first, second]
  rfl

/-- A name brings what it is bound to. -/
theorem brings_ident (isFunction : made.kind = .function) (bound : world.boundIn scope name = some value)
    (bears : value.Bears made) (depth : Nat) :
    (eval (.ident name) scope).Brings made (depth + 1) world world := by
  refine ⟨value, ?_, bears⟩
  rw [perform, plan, Plan.step, Plan.carryOut_bind, Plan.carryOut_lookup (World.find?_of_boundIn bound)]
  simp only [Plan.settle_of_ne (bears.ne_error isFunction), Plan.carryOut]

theorem bears_of_partition (isFunction : made.kind = .function)
    (ran : (apply (.builtin .partition) [.array items, predicate]).perform depth world = (.ok got, after))
    (bears : (Value.array items).Bears made) : got.Bears made := by
  cases depth with
  | zero => cases ran
  | succ depth =>
    rw [perform, plan, Plan.applyStep] at ran
    by_cases callable : predicate.kind = .function ∨ predicate.kind = .builtin
    · rw [Plan.partition_carryOut callable, Plan.carryOut_bind] at ran
      obtain ⟨trials, _, _, ended⟩ := Plan.splitAfter_course depth predicate items [] [] world
      rcases ended with ⟨verdicts, sameLength, _, divided⟩ | ⟨_, _, _, _, _, _, failed⟩
      · rw [Plan.split, divided] at ran
        cases ran
        obtain ⟨item, member, itemBears⟩ := (bears_array_iff isFunction).mp bears
        refine (bears_array_iff isFunction).mpr ?_
        rcases List.mem_append.mp ((chosen_perm sameLength).mem_iff.mpr member) with matched | other
        · exact ⟨_, List.mem_cons_self, (bears_array_iff isFunction).mpr ⟨item, matched, itemBears⟩⟩
        · exact ⟨_, List.mem_cons_of_mem _ List.mem_cons_self,
            (bears_array_iff isFunction).mpr ⟨item, other, itemBears⟩⟩
      · rw [Plan.split, failed] at ran
        cases ran
    · rw [Plan.runBuiltin, if_neg callable] at ran
      cases ran

end Request

/-- A loop that may begin takes its course. -/
theorem Loop.Ready.course {loop : Loop} (ready : loop.Ready world scope items) (depth : Nat) :
    ∃ passes, loop.Course depth scope 0 items world passes
      ((Request.eval (.ofTree loop.tree) scope).perform (depth + 1) world) := by
  obtain ⟨own, present, _⟩ := World.sees_iff.mp (Option.isSome_of_eq_some ready.source)
  have there := (Array.getElem?_eq_some_iff.mp present).1
  rw [loop.code_eq, Request.perform, Request.plan_loop, Plan.carryOut_bind, ready.carryOut_loopItems]
  exact Loop.passes_course ready.distinct items 0 there

/-- What one of two arrays bears, both of them joined bear. -/
theorem Value.bears_append (isFunction : made.kind = .function)
    (bears : (array items).Bears made ∨ (array others).Bears made) : (array (items ++ others)).Bears made := by
  rw [bears_array_iff isFunction, bears_array_iff isFunction] at bears
  rw [bears_array_iff isFunction]
  rcases bears with ⟨item, member, itemBears⟩ | ⟨item, member, itemBears⟩
  · exact ⟨item, List.mem_append_left _ member, itemBears⟩
  · exact ⟨item, List.mem_append_right _ member, itemBears⟩

/-- Functions are found equal to themselves wherever they are carried. -/
theorem Value.carried_of_function {made : Value} (isFunction : made.kind = .function) : made.Carried where
  bound := by
    rintro depth code scope name world after ⟨value, given, bears⟩ there
    refine ⟨_, Request.perform_bind given name, Request.brings_ident isFunction ?_ bears depth⟩
    rw [World.boundIn_bind _ _ _ _ there, if_pos rfl]
  passed := by
    intro depth params outer args i name arg world distinct isParam isArg bears
    exact Request.brings_ident isFunction (world.boundIn_entered outer distinct isParam isArg) bears depth
  returned := by
    rintro depth code rest scope world after ⟨value, given, part, inside, same⟩
    refine ⟨after.takeSerial.2, .signal after.nextSerial value, ?_, rfl, part, .carried inside, same⟩
    rw [Request.perform_block, Plan.sequence, Plan.run, Plan.ask_bind, Plan.carryOut,
      Request.perform_giveBack given]
    rfl
  answered := by
    rintro depth serial params body outer args world after enough ⟨value, given, bears⟩
    cases depth with
    | zero => cases given
    | succ depth =>
      refine ⟨value.unwrap, ?_, bears.unwrap isFunction⟩
      rw [Request.perform_enter enough, given]
      rfl
  called := by
    rintro depth callee codes scope world value middle args start after called inTurn ⟨got, applied, bears⟩
    exact ⟨got, Request.perform_call called inTurn applied (bears.ne_error isFunction), bears⟩
  listed := by
    intro depth codes scope world values after inTurn bears
    exact ⟨_, Request.perform_array inTurn, (bears_array_iff isFunction).mpr bears⟩
  added := by
    intro depth left right scope world items middle others after first second bears
    exact ⟨_, Request.perform_add first second, bears_append isFunction bears⟩
  pushed := by
    intro depth items item world bears
    refine ⟨.array (items ++ [item]), rfl, bears_append isFunction (bears.imp_right fun itemBears => ?_)⟩
    exact (bears_array_iff isFunction).mpr ⟨item, List.mem_singleton_self item, itemBears⟩
  reversed := by
    intro depth items world bears
    obtain ⟨item, member, itemBears⟩ := (bears_array_iff isFunction).mp bears
    refine ⟨.array items.reverse, rfl, (bears_array_iff isFunction).mpr ⟨item, ?_, itemBears⟩⟩
    exact List.mem_reverse.mpr member
  concatenated := by
    intro depth items others world bears
    exact ⟨.array (items ++ others), rfl, bears_append isFunction bears⟩
  divided := by
    intro depth items predicate world got after ran bears
    exact Request.bears_of_partition isFunction ran bears
  visited := by
    intro loop depth scope world items ready
    obtain ⟨passes, course⟩ := ready.course depth
    refine ⟨passes, course, fun k pass item isPass isItem bears => ?_⟩
    obtain ⟨found, before, isFound, _, runs⟩ := course.runs k pass isPass
    obtain rfl : item = found := Option.some.inj (isItem.symm.trans isFound)
    exact Request.brings_ident isFunction runs.element bears depth

/-- In a world that a host can get to, and on the way of whatever the host asks for there, functions that are
found equal have the same parameters, the same body and the same scope. Each time that a function literal is
evaluated it gives a function of its own, unless there is no depth left. This function is equal to itself
wherever it is carried, and not equal to anything that was there before. -/
theorem function_identity_is_coherent (reachable : Reachable world held) (offered : request.Offered held)
    (depth : Nat) :
    (∀ serial params body scope serial' params' body' scope',
      Present world held request depth (.function serial params body scope) →
      Present world held request depth (.function serial' params' body' scope') →
      Equals (.function serial params body scope) (.function serial' params' body' scope') →
      params = params' ∧ body = body' ∧ scope = scope') ∧
    ∀ earlier params body scope start ending,
      earlier ++ [.asked (.eval (.function params body) scope) start ending] <+: request.trace depth world →
      ending = (.error .tooDeep, start) ∨
        ∃ serial, ending = (.ok (.function serial params body scope), start.takeSerial.2) ∧
          (Value.function serial params body scope).Carried ∧
          ∀ old, Before world earlier start old → ¬ Equals (.function serial params body scope) old := by
  constructor
  · intro serial params body scope serial' params' body' scope' first second same
    obtain ⟨record, known⟩ := reachable.known_of_present offered depth
    cases ((known _ first).equals_iff (known _ second)).mp same
    exact ⟨rfl, rfl, rfl⟩
  · intro earlier params body scope start ending listed
    obtain ⟨record, catalogued⟩ := reachable.catalogued
    have met := Request.metAfter_of_trace depth request catalogued.world (offered.known catalogued) listed
    refine met.literal.imp_right fun given => ?_
    obtain ⟨isEnding, later, grown, registered, known⟩ := given
    refine ⟨_, isEnding, carried_of_function rfl, fun old before => ?_⟩
    have began : world.nextSerial ≤ start.nextSerial := by
      rw [← catalogued.world.size, ← registered.size]
      exact grown.length_le
    exact (before.madeBefore began registered known).not_equals

/-- One literal is evaluated twice, for the two elements of an array. The functions are of the same make, but
the second one is not equal to the first, which was there before it. -/
theorem function_identity_is_coherent_of_repeated_literal :
    let literal : Code := .function ["n"] [.ident "n"]
    let world : World := ((World.start "").addScope (.empty none)).2
    let request : Request := .eval (.array [literal, literal]) 0
    let made : Nat → Value := fun serial => .function serial ["n"] [.ident "n"] 0
    let ending : Nat → Ending Value := fun serial =>
      (.ok (made serial), { world with nextSerial := serial + 1 })
    let earlier : List Event := [.acted .takeSerial world, .asked (.eval literal 0) world (ending 0),
      .acted .takeSerial (ending 0).2]
    Reachable world [] ∧ request.Offered [] ∧
      earlier ++ [.asked (.eval literal 0) (ending 0).2 (ending 1)] <+: request.trace 2 world ∧
      Present world [] request 2 (made 0) ∧ Before world earlier (ending 0).2 (made 0) ∧
      Equals (made 0) (made 0) ∧ ¬ Equals (made 1) (made 0) ∧ (made 1).Carried := by
  intro literal world request made ending earlier
  have reachable : Reachable world [] := .root (.start "")
  have offered : request.Offered [] := trivial
  have listed : earlier ++ [.asked (.eval literal 0) (ending 0).2 (ending 1)] <+: request.trace 2 world :=
    ⟨_, rfl⟩
  have member : Event.asked (.eval literal 0) world (ending 0) ∈ earlier := by simp [earlier]
  have before : Before world earlier (ending 0).2 (made 0) := .met member .given
  have present : Present world [] request 2 (made 0) :=
    .met (listed.subset (List.mem_append_left _ member)) .given
  obtain ⟨_, isNew⟩ := function_identity_is_coherent reachable offered 2
  rcases isNew earlier ["n"] [.ident "n"] 0 (ending 0).2 (ending 1) listed with
    tooDeep | ⟨serial, isEnding, carried, different⟩
  · cases tooDeep
  · cases isEnding
    exact ⟨reachable, offered, listed, present, before, rfl, different _ before, carried⟩

end TreeWalk
