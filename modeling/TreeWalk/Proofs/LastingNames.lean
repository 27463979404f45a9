import TreeWalk.Proofs.Bindings
import TreeWalk.Proofs.Succession

/-! Names stay bound.

No action takes a binding away or moves a scope, so a name that can be seen from a scope can be seen from there,
and from all scopes inside it, ever after. A loop wants names that cannot be seen. Once a loop has begun its
first pass, its names are bound in its scope, and no later loop in this scope or inside it can use them: it
ends with an error before it has bound or run anything. -/
namespace TreeWalk

namespace World

/-- A name is bound in a scope or around it. -/
def Sees (world : World) (name : String) (scope : Nat) : Prop := (world.find? name scope).isSome

/-- One scope is another or lies inside it, at any depth. -/
inductive Encloses (world : World) (scope : Nat) : Nat → Prop where
  | self : Encloses world scope scope
  | inside (present : world.scopes[i]? = some own) (around : own.outer = some outer) (older : outer < i)
      (further : Encloses world scope outer) : Encloses world scope i

/-- A name is bound in the scope itself, or seen from the scope around it. -/
theorem sees_iff : Sees world name scope ↔ ∃ own, world.scopes[scope]? = some own ∧
    ((own.get? name).isSome ∨ ∃ outer, own.outer = some outer ∧ outer < scope ∧ world.Sees name outer) := by
  rw [Sees, find?]
  cases world.scopes[scope]? with
  | none => simp
  | some own =>
    cases bound : own.get? name with
    | some value => simp [bound]
    | none =>
      cases around : own.outer with
      | none => simp [bound, around]
      | some outer =>
        by_cases older : outer < scope
        · simp [bound, around, older, Sees]
        · simp [bound, around, older]

theorem Sees.inside (sees : Sees world name scope) (encloses : world.Encloses scope i) :
    world.Sees name i := by
  induction encloses with
  | self => exact sees
  | inside present around older _ ih => exact sees_iff.mpr ⟨_, present, .inr ⟨_, around, older, ih⟩⟩

/-- Every scope of one world is in another, with the same scope around it and with all names that it binds. -/
def Retains (before after : World) : Prop :=
  ∀ (i : Nat) (own : Scope), before.scopes[i]? = some own → ∃ own', after.scopes[i]? = some own' ∧
    own'.outer = own.outer ∧ ∀ name, (own.get? name).isSome → (own'.get? name).isSome

namespace Retains

theorem of_scopes_eq (same : after.scopes = before.scopes) : Retains before after :=
  fun _ own present => ⟨own, by rw [same, present], rfl, fun _ => id⟩

theorem trans (first : Retains before middle) (second : Retains middle after) : Retains before after := by
  intro i own present
  obtain ⟨own', present', around, names⟩ := first i own present
  obtain ⟨own'', present'', around', names'⟩ := second i own' present'
  exact ⟨own'', present'', around'.trans around, fun name bound => names' name (names name bound)⟩

theorem sees (retains : Retains before after) (sees : before.Sees name scope) : after.Sees name scope := by
  induction scope using Nat.strongRecOn with
  | ind scope ih =>
    obtain ⟨own, present, bound⟩ := sees_iff.mp sees
    obtain ⟨own', present', around, names⟩ := retains scope own present
    refine sees_iff.mpr ⟨own', present', ?_⟩
    rcases bound with here | ⟨outer, isOuter, older, further⟩
    · exact .inl (names name here)
    · exact .inr ⟨outer, around.trans isOuter, older, ih outer older further⟩

end Retains

theorem bind_retains (world : World) (scope : Nat) (name : String) (value : Value) :
    world.Retains (world.bind scope name value) := by
  intro i own present
  rw [bind_getElem?, present]
  split
  · refine ⟨own.set name value, rfl, rfl, fun given bound => ?_⟩
    rw [Scope.get?_set]
    split
    · rfl
    · exact bound
  · exact ⟨own, rfl, rfl, fun _ => id⟩

/-- A name is seen from the scope in which it has just been bound. -/
theorem bind_sees (world : World) (name : String) (value : Value) (there : scope < world.scopes.size) :
    (world.bind scope name value).Sees name scope := by
  have present := Array.getElem?_eq_getElem there
  refine sees_iff.mpr ⟨world.scopes[scope].set name value, ?_, .inl ?_⟩
  · rw [bind_getElem?, if_pos rfl, present, Option.map_some]
  · rw [Scope.get?_set, if_pos rfl, Option.isSome_some]

theorem addScope_retains (world : World) (scope : Scope) : world.Retains (world.addScope scope).2 := by
  intro i own present
  have inBounds := (Array.getElem?_eq_some_iff.mp present).1
  refine ⟨own, ?_, rfl, fun _ => id⟩
  rw [addScope, Array.getElem?_push_lt inBounds, ← present, Array.getElem?_eq_getElem inBounds]

end World

theorem Action.perform_retains (action : Action) (world : World) :
    world.Retains (action.perform world).2 := by
  cases action with
  | addScope scope => exact world.addScope_retains scope
  | bind scope name value => exact world.bind_retains scope name value
  | takeSerial | find | print | readLine | log => exact .of_scopes_eq rfl

theorem World.Later.retains {before after : World} (later : before.Later after) : before.Retains after := by
  induction later with
  | refl => exact .of_scopes_eq rfl
  | act _ action ih => exact ih.trans (action.perform_retains _)

namespace Plan

variable {answer : Request → World → Ending Value} {inside : Request → World → List Event}

/-- What happens while one plan after another is carried out. -/
theorem events_bind (plan : Plan α) (rest : α → Plan β) (world : World) :
    (plan >>= rest).events answer inside world = plan.events answer inside world ++
      match plan.carryOut answer world with
      | (.ok value, after) => (rest value).events answer inside after
      | (.error _, _) => [] := by
  induction plan generalizing world with
  | done | stop => rfl
  | act action next ih =>
    rw [act_bind, events, events, ih, carryOut, List.cons_append]
  | ask request next ih =>
    rw [ask_bind, events, events, carryOut]
    cases answer request world with
    | mk result after =>
      cases result with
      | ok value => rw [List.append_assoc, ← ih]
      | error reason => simp

/-- A plan that looks names up and does nothing else, but may fail. -/
inductive Looks : Plan α → Prop where
  | done (value : α) : Looks (.done value)
  | fail (failure : Failure) : Looks (Plan.fail failure)
  | find {next : Option Value → Plan α} (rest : ∀ found, Looks (next found)) :
      Looks (.act (.find name scope) next)

namespace Looks

theorem bind {rest : α → Plan β} (looks : Looks plan) (further : ∀ value, Looks (rest value)) :
    Looks (plan >>= rest) := by
  induction looks with
  | done value => exact further value
  | fail failure => exact .fail failure
  | find _ ih => exact .find ih

/-- Such a plan leaves the world as it was, or fails; nothing that it might ask for matters. -/
theorem ends {plan : Plan α} (looks : Looks plan) (world : World) :
    (∃ value, ∀ answer, plan.carryOut answer world = (.ok value, world)) ∨
      ∃ failure, ∀ answer,
        plan.carryOut answer world = (.error (.failed world.nextSerial failure), world.takeSerial.2) := by
  induction looks with
  | done value => exact .inl ⟨value, fun _ => rfl⟩
  | fail failure => exact .inr ⟨failure, fun _ => rfl⟩
  | find _ ih => exact ih _

theorem carryOut_eq {plan : Plan α} (looks : Looks plan) (answer answer' : Request → World → Ending Value)
    (world : World) : plan.carryOut answer world = plan.carryOut answer' world := by
  rcases looks.ends world with ⟨value, passed⟩ | ⟨failure, failed⟩
  · rw [passed, passed]
  · rw [failed, failed]

/-- All that happens is that names are looked up and, for an error, an identity is taken. -/
theorem events {plan : Plan α} (looks : Looks plan) (world : World) :
    ∀ event ∈ plan.events answer inside world,
      event = .acted .takeSerial world ∨ ∃ name scope, event = .acted (.find name scope) world := by
  induction looks with
  | done => exact List.forall_mem_nil _
  | fail failure => exact List.forall_mem_singleton.mpr (.inl rfl)
  | find _ ih => exact List.forall_mem_cons.mpr ⟨.inr ⟨_, _, rfl⟩, ih _⟩

end Looks

theorem find_looks (name : String) (scope : Nat) : Looks (find name scope) := .find .done

theorem requireUnbound_looks (scope : Nat) (names : List String) : Looks (requireUnbound scope names) := by
  induction names with
  | nil => exact .done ()
  | cons name names ih =>
    refine (find_looks name scope).bind fun found => ?_
    split
    · exact .fail _
    · exact ih

theorem loopItems_looks (scope : Nat) (source element : String) (index : Option String) :
    Looks (loopItems scope source element index) := by
  refine (find_looks source scope).bind fun found => ?_
  split
  · exact .fail _
  · split
    · exact .fail _
    · exact (requireUnbound_looks scope _).bind fun _ => .done _
  · exact .fail _

theorem requireUnbound_unseen (passed : (requireUnbound scope names).carryOut answer world = (.ok (), after)) :
    ∀ name ∈ names, ¬ world.Sees name scope := by
  induction names with
  | nil => exact List.forall_mem_nil _
  | cons name names ih =>
    rw [requireUnbound, find, act_bind, carryOut] at passed
    simp only [Action.perform, done_bind] at passed
    split at passed
    · cases passed
    · rename_i unseen
      exact List.forall_mem_cons.mpr ⟨unseen, ih passed⟩

/-- A loop that may begin finds its source but none of its names. -/
theorem loopItems_unseen
    (passed : (loopItems scope source element index).carryOut answer world = (.ok items, after)) :
    world.Sees source scope ∧ ∀ name ∈ element :: index.toList, ¬ world.Sees name scope := by
  rw [loopItems, find, act_bind, carryOut] at passed
  simp only [Action.perform, done_bind] at passed
  split at passed
  · cases passed
  · rename_i found
    split at passed
    · cases passed
    · rw [carryOut_bind] at passed
      split at passed
      · rename_i required
        exact ⟨by simp [World.Sees, found], requireUnbound_unseen required⟩
      · cases passed
  · cases passed

/-- Names that are bound one after the other are all seen in the end; nothing is asked for. -/
theorem assignAll_sees (bindings : List (String × Value)) (there : scope < world.scopes.size) :
    ∃ after, (∀ answer, (assignAll scope bindings).carryOut answer world = (.ok (), after)) ∧
      world.Later after ∧ (∀ binding ∈ bindings, after.Sees binding.1 scope) ∧
      ∀ answer inside, ∀ event ∈ (assignAll scope bindings).events answer inside world,
        event.isRequest = false := by
  induction bindings generalizing world with
  | nil => exact ⟨world, fun _ => rfl, .refl world, List.forall_mem_nil _, fun _ _ => List.forall_mem_nil _⟩
  | cons binding bindings ih =>
    obtain ⟨name, value⟩ := binding
    have bound := world.bind_sees name value there
    have stillThere : scope < (world.bind scope name value).scopes.size := by
      rwa [World.bind_size]
    obtain ⟨after, ends, later, seen, acted⟩ := ih stillThere
    refine ⟨after, ends, (World.Later.of_action (.bind scope name value) world).trans later, ?_, ?_⟩
    · exact List.forall_mem_cons.mpr ⟨later.retains.sees bound, seen⟩
    · exact fun answer inside => List.forall_mem_cons.mpr ⟨rfl, acted answer inside⟩

/-- A name that is bound stands for what it is bound to. -/
theorem carryOut_lookup (found : world.find? name scope = some value) :
    (lookup scope name).carryOut answer world = (.ok value, world) := by
  rw [lookup, find, act_bind, carryOut]
  simp only [Action.perform, done_bind, found]
  rfl

end Plan

/-- The plan of a loop: first it is settled whether the loop may begin. -/
theorem Request.plan_loop (scope : Nat) (source element : String) (index : Option String) (body : List Code) :
    (Request.eval (.loop source element index body) scope).plan =
      Plan.loopItems scope source element index >>= fun items =>
        Plan.passes scope element index body 0 items >>= Plan.settle := by
  simp [Request.plan, Plan.step]

/-- A request that ends with an error before anything is bound or run: names are looked up, and the error gets
its identity. -/
def Request.Refused (request : Request) (world : World) : Prop :=
  ∀ depth, (∃ failure, request.perform (depth + 1) world =
      (.error (.failed world.nextSerial failure), world.takeSerial.2)) ∧
    ∀ event ∈ request.plan.events (perform depth) (timeline depth) world,
      event = .acted .takeSerial world ∨ ∃ name scope, event = .acted (.find name scope) world

/-- A loop that uses a name that is seen is refused. -/
theorem Request.refused_of_sees (sees : World.Sees world name scope) (used : name ∈ element :: index.toList)
    (source : String) (body : List Code) :
    (Request.eval (.loop source element index body) scope).Refused world := by
  intro depth
  have looks := Plan.loopItems_looks scope source element index
  rw [Request.perform, plan_loop, Plan.carryOut_bind, Plan.events_bind]
  rcases looks.ends world with ⟨items, passed⟩ | ⟨failure, failed⟩
  · exact absurd sees ((Plan.loopItems_unseen (passed (perform depth))).2 name used)
  · rw [failed]
    exact ⟨⟨failure, rfl⟩, by simpa using looks.events world⟩

/-- Every name of a loop is bound when a pass begins. -/
theorem Plan.loopBindings_names (used : name ∈ element :: index.toList) (count : Nat) (item : Value) :
    ∃ binding ∈ loopBindings element index count item, binding.1 = name := by
  rcases List.mem_cons.mp used with rfl | isIndex
  · exact ⟨(name, item), by simp [loopBindings], rfl⟩
  · rw [Option.mem_toList] at isIndex
    exact ⟨(name, .int count), by simp [loopBindings, isIndex], rfl⟩

/-- A loop that has elements to go through binds its names before it asks for anything. -/
theorem Request.loop_sees
    (begun : (Plan.loopItems scope source element index).carryOut (perform depth) world =
      (.ok (item :: items), world))
    (used : name ∈ element :: index.toList) (body : List Code) :
    (∀ event ∈ (Request.eval (.loop source element index body) scope).plan.events (perform depth)
        (timeline depth) world, event.isRequest → event.start.Sees name scope) ∧
      ((Request.eval (.loop source element index body) scope).perform (depth + 1) world).2.Sees name scope := by
  obtain ⟨own, present, -⟩ := World.sees_iff.mp (Plan.loopItems_unseen begun).1
  have there : scope < world.scopes.size := (Array.getElem?_eq_some_iff.mp present).1
  obtain ⟨after, assigned, -, seen, acted⟩ :=
    Plan.assignAll_sees (Plan.loopBindings element index 0 item) there
  obtain ⟨binding, member, rfl⟩ := Plan.loopBindings_names used 0 item
  have bound := seen binding member
  -- What is left of the plan once the names are bound.
  obtain ⟨rest, isRest⟩ : ∃ rest : Plan Value,
      Plan.passes scope element index body 0 (item :: items) >>= Plan.settle =
        Plan.assignAll scope (Plan.loopBindings element index 0 item) >>= fun _ => rest :=
    ⟨_, bind_assoc _ _ _⟩
  have inOrder := rest.events_inOrder (timeline_inOrder depth) after
  rw [perform, plan_loop, Plan.carryOut_bind, Plan.events_bind, begun]
  dsimp only
  rw [isRest, Plan.carryOut_bind, Plan.events_bind, assigned]
  refine ⟨fun event happened isRequest => ?_, inOrder.later.retains.sees bound⟩
  rcases List.mem_append.mp happened with looked | happened
  · rcases (Plan.loopItems_looks ..).events world event looked with rfl | ⟨_, _, rfl⟩
    all_goals cases isRequest
  · rcases List.mem_append.mp happened with named | later
    · rw [acted _ _ event named] at isRequest
      cases isRequest
    · exact (inOrder.between later).1.retains.sees bound

namespace Event

/-- A loop in a scope, over an array that is not empty, that uses the name and begins its first pass. -/
def BeginsLoop (name : String) (scope : Nat) (event : Event) : Prop :=
  ∃ source element index body start depth item items,
    event = .asked (.eval (.loop source element index body) scope) start
      ((Request.eval (.loop source element index body) scope).perform (depth + 1) start) ∧
    name ∈ element :: index.toList ∧
    (Plan.loopItems scope source element index).carryOut (Request.perform depth) start =
      (.ok (item :: items), start)

/-- A loop in a scope that uses the name, whatever comes of it. -/
def IsLoop (name : String) (scope : Nat) (event : Event) : Prop :=
  ∃ source element index body start ending,
    event = .asked (.eval (.loop source element index body) scope) start ending ∧ name ∈ element :: index.toList

/-- A request that ends with an error, for want of depth or before anything is bound or run. -/
def Refused : Event → Prop
  | acted _ _ => False
  | asked request start ending =>
    (ending = (.error .tooDeep, start) ∨
      ∃ failure, ending = (.error (.failed start.nextSerial failure), start.takeSerial.2)) ∧
    request.Refused start

/-- The names of a loop that begins are seen in a world. -/
def Marks (event : Event) (world : World) : Prop :=
  ∀ name scope, event.BeginsLoop name scope → world.Sees name scope

theorem Marks.later {event : Event} (marks : event.Marks before) (later : before.Later after) :
    event.Marks after :=
  fun name scope begins => later.retains.sees (marks name scope begins)

theorem marks_of_acted (action : Action) (found world : World) : (acted action found).Marks world := by
  rintro name scope ⟨_, _, _, _, _, _, _, _, same, -⟩
  cases same

/-- Events in order, each request with how it is met, and with the names of loops that have begun seen by
all requests that come later. -/
structure Recorded (before : World) (events : List Event) (after : World) : Prop where
  inOrder : InOrder before events after
  met : ∀ request start ending, asked request start ending ∈ events →
    ∃ depth, ending = request.perform depth start
  marked : events.Pairwise fun earlier later => later.isRequest → earlier.Marks later.start
  left : ∀ event ∈ events, event.Marks after

namespace Recorded

theorem nil (later : World.Later before after) : Recorded before [] after :=
  ⟨.nil later, fun _ _ _ => List.not_mem_nil.elim, .nil, List.forall_mem_nil _⟩

theorem append (first : Recorded before events middle) (second : Recorded middle events' after) :
    Recorded before (events ++ events') after := by
  refine ⟨first.inOrder.append second.inOrder, ?_, ?_, ?_⟩
  · intro request start ending member
    rcases List.mem_append.mp member with early | late
    · exact first.met request start ending early
    · exact second.met request start ending late
  · refine List.pairwise_append.mpr ⟨first.marked, second.marked, ?_⟩
    intro earlier early later late _
    exact (first.left earlier early).later (second.inOrder.between late).1
  · refine List.forall_mem_append.mpr ⟨?_, second.left⟩
    exact fun event early => (first.left event early).later second.inOrder.later

theorem acted (action : Action) (rest : Recorded (action.perform world).2 events after) :
    Recorded world (.acted action world :: events) after := by
  refine ⟨.cons (.refl world) rest.inOrder, ?_, ?_, ?_⟩
  · intro request start ending member
    exact rest.met request start ending (by simpa using member)
  · refine List.pairwise_cons.mpr ⟨fun later _ _ => ?_, rest.marked⟩
    exact marks_of_acted action world later.start
  · exact List.forall_mem_cons.mpr ⟨marks_of_acted action world after, rest.left⟩

end Recorded

end Event

theorem Plan.events_recorded {answer : Request → World → Ending Value} {inside : Request → World → List Event}
    (below : ∀ request world, Event.Recorded world (inside request world) (answer request world).2)
    (plan : Plan α) (world : World) :
    Event.Recorded world (plan.events answer inside world) (plan.carryOut answer world).2 := by
  induction plan generalizing world with
  | done value => exact .nil (.refl world)
  | stop reason => exact .nil (.refl world)
  | act action next ih => exact .acted action (ih _ _)
  | ask request next ih =>
    have first := below request world
    rw [carryOut, events]
    cases met : answer request world with
    | mk result after =>
      rw [met] at first
      cases result with
      | ok value => exact first.append (ih value after)
      | error reason => simpa using first

/-- The names of a loop that begins are seen where it ends. -/
theorem Event.marks_ending (request : Request) (start : World) (ending : Ending Value) :
    (Event.asked request start ending).Marks ending.2 := by
  rintro name scope ⟨source, element, index, body, _, depth, item, items, same, used, begun⟩
  cases same
  exact (Request.loop_sees begun used body).2

theorem Request.timeline_recorded (depth : Nat) (request : Request) (world : World) :
    Event.Recorded world (request.timeline depth world) (request.perform depth world).2 := by
  induction depth generalizing request world with
  | zero =>
    refine ⟨request.timeline_inOrder 0 world, ?_, List.pairwise_singleton _ _, ?_⟩
    · intro made start ending member
      cases List.mem_singleton.mp member
      exact ⟨0, rfl⟩
    · exact List.forall_mem_singleton.mpr (Event.marks_ending request world _)
  | succ depth ih =>
    have inner := request.plan.events_recorded ih world
    refine ⟨request.timeline_inOrder (depth + 1) world, ?_, List.pairwise_cons.mpr ⟨?_, inner.marked⟩, ?_⟩
    · intro made start ending member
      rcases List.mem_cons.mp member with same | inside
      · cases same
        exact ⟨depth + 1, rfl⟩
      · exact inner.met made start ending inside
    · rintro later inside isRequest name scope
        ⟨source, element, index, body, _, depth', item, items, same, used, begun⟩
      obtain ⟨rfl, rfl, -⟩ := Event.asked.inj same
      rw [(Plan.loopItems_looks ..).carryOut_eq _ (perform depth)] at begun
      exact (loop_sees begun used body).1 later inside isRequest
    · exact List.forall_mem_cons.mpr ⟨Event.marks_ending request world _, inner.left⟩

/-- What a host does. -/
inductive Deed where
  /-- Makes a scope, by itself or inside another. -/
  | enclose (outer : Option Nat)
  | set (scope : Nat) (name : String) (value : Value)
  /-- Runs a source text. -/
  | run (depth : Nat) (source : String) (scope : Nat)
  /-- Runs a tree, whether or not there is a text for it. -/
  | evaluate (depth : Nat) (tree : Tree) (scope : Nat)
  | apply (depth : Nat) (callee : Value) (args : List Value)

namespace Deed

/-- The world after a deed. -/
def after : Deed → World → World
  | enclose outer, world => (world.addScope (.empty outer)).2
  | set scope name value, world => world.bind scope name value
  | run depth source scope, world => (runTo depth source scope world).2
  | evaluate depth tree scope, world => (evaluateTo depth (.ofTree tree) tree.describe scope world).2
  | apply depth callee args, world => (outcome ((Request.apply callee args).perform depth world)).2

/-- What happens meanwhile, in order. -/
def events : Deed → World → List Event
  | enclose outer, world => [.acted (.addScope (.empty outer)) world]
  | set scope name value, world => [.acted (.bind scope name value) world]
  | run depth source scope, world =>
    match parse source with
    | .error _ => []
    | .ok tree => (Request.eval (.ofTree tree) scope).timeline depth world
  | evaluate depth tree scope, world => (Request.eval (.ofTree tree) scope).timeline depth world
  | apply depth callee args, world => (Request.apply callee args).timeline depth world

/-- The world after deeds, one after the other. -/
def afterAll (deeds : List Deed) (world : World) : World := deeds.foldl (fun world deed => deed.after world) world

/-- What happens during deeds, one after the other. -/
def eventsAll : List Deed → World → List Event
  | [], _ => []
  | deed :: deeds, world => deed.events world ++ eventsAll deeds (deed.after world)

theorem evaluate_recorded (depth : Nat) (code : Code) (what : String) (scope : Nat) (world : World) :
    Event.Recorded world ((Request.eval code scope).timeline depth world)
      (evaluateTo depth code what scope world).2 := by
  have ran := (Request.eval code scope).timeline_recorded depth world
  have reported := ran.append (.nil (evaluateTo_later depth code what scope world))
  rwa [List.append_nil] at reported

theorem recorded (deed : Deed) (world : World) : Event.Recorded world (deed.events world) (deed.after world) := by
  cases deed with
  | enclose outer => exact .acted (.addScope _) (.nil (.refl _))
  | set scope name value => exact .acted (.bind ..) (.nil (.refl _))
  | run depth source scope =>
    rw [events, after, runTo]
    cases parse source with
    | error error => exact .nil (.of_action (.log _) world)
    | ok tree => exact evaluate_recorded ..
  | evaluate depth tree scope => exact evaluate_recorded ..
  | apply depth callee args =>
    have ran := (Request.apply callee args).timeline_recorded depth world
    have reported := ran.append (.nil (outcome_later _))
    rwa [List.append_nil] at reported

theorem recordedAll (deeds : List Deed) (world : World) :
    Event.Recorded world (eventsAll deeds world) (afterAll deeds world) := by
  induction deeds generalizing world with
  | nil => exact .nil (.refl world)
  | cons deed deeds ih => exact (deed.recorded world).append (ih _)

end Deed

/-- Over all that a host does, a name that is seen from a scope is seen from it, and from all scopes inside it,
at all later times: looked up there, it stands for what it is bound to. Once a loop over an array that is not
empty has begun, a later loop that uses one of its names, in its scope or inside it, is refused. -/
theorem seen_names_stay_seen (deeds : List Deed) (world : World) :
    (world :: (Deed.eventsAll deeds world).map Event.start ++ [Deed.afterAll deeds world]).Pairwise
      (fun earlier later => ∀ name outer inner, earlier.Sees name outer → later.Encloses outer inner →
        ∃ value, later.find? name inner = some value ∧
          ∀ answer, (Plan.lookup inner name).carryOut answer later = (.ok value, later)) ∧
    (Deed.eventsAll deeds world).Pairwise fun earlier later => ∀ name outer inner,
      earlier.BeginsLoop name outer → later.IsLoop name inner → later.start.Encloses outer inner →
        later.Refused := by
  have recorded := Deed.recordedAll deeds world
  refine ⟨recorded.inOrder.pairwise.imp ?_, recorded.marked.imp_of_mem ?_⟩
  · intro earlier later comesLater name outer inner sees encloses
    obtain ⟨value, found⟩ := Option.isSome_iff_exists.mp ((comesLater.retains.sees sees).inside encloses)
    exact ⟨value, found, fun answer => Plan.carryOut_lookup found⟩
  · rintro earlier later - late marks name outer inner begins
      ⟨source, element, index, body, start, ending, rfl, used⟩ encloses
    have refused := Request.refused_of_sees ((marks rfl name outer begins).inside encloses) used source body
    refine ⟨?_, refused⟩
    obtain ⟨depth, rfl⟩ := recorded.met _ _ _ late
    cases depth with
    | zero => exact .inl rfl
    | succ depth => exact .inr (refused depth).1

/-- A loop that is run a second time finds its name in use. -/
theorem seen_names_stay_seen_of_repeated_loop :
    let name : String → Tree := .leaf (.terminal .identifier)
    let tree : Tree := .node .loop [name "a", name "x", .absent, .node .block []]
    let world : World := ⟨#[⟨none, [("a", .array [.int 1])]⟩], 0, [], "", []⟩
    let later := (Deed.evaluate 2 tree 0).after world
    (Event.asked (.eval (.ofTree tree) 0) later ((Request.eval (.ofTree tree) 0).perform 2 later)).Refused := by
  intro name tree world later
  let deed : Deed := .evaluate 2 tree 0
  have split : Deed.eventsAll [deed, deed] world = deed.events world ++ deed.events later :=
    congrArg (deed.events world ++ ·) (List.append_nil (deed.events later))
  have both := (seen_names_stay_seen [deed, deed] world).2
  rw [split] at both
  refine (List.pairwise_append.mp both).2.2 _ List.mem_cons_self _ List.mem_cons_self "x" 0 0 ?_ ?_ .self
  · refine ⟨"a", "x", none, [], world, 1, .int 1, [], rfl, List.mem_cons_self, ?_⟩
    have source : world.find? "a" 0 = some (.array [.int 1]) := by
      rw [World.find?]
      rfl
    have element : world.find? "x" 0 = none := by
      rw [World.find?]
      rfl
    simp [Plan.loopItems, Plan.requireUnbound, Plan.find, Plan.carryOut, Action.perform, source, element]
  · exact ⟨"a", "x", none, [], later, _, rfl, List.mem_cons_self⟩

end TreeWalk
