import TreeWalk.Program
import TreeWalk.Proofs.Trace

/-! The order in which things happen.

All that a run does to a world it does by actions, one after the other. So a world that comes after another
comes from it by actions, whatever else is known of the run; and in a list of events in order, each finds a
world that comes from the one that the event before it left. -/
namespace TreeWalk

/-- One world comes from another by actions. -/
inductive World.Later : World → World → Prop where
  | refl (world : World) : Later world world
  | act (earlier : Later before middle) (action : Action) : Later before (action.perform middle).2

namespace World.Later

theorem of_action (action : Action) (world : World) : world.Later (action.perform world).2 :=
  .act (.refl world) action

theorem trans (first : Later before middle) (second : Later middle after) : Later before after := by
  induction second with
  | refl => exact first
  | act _ action ih => exact .act ih action

end World.Later

/-- A plan goes forward if its requests do. -/
theorem Plan.carryOut_later {answer : Request → World → Ending Value}
    (forward : ∀ request (world : World), world.Later (answer request world).2) (plan : Plan α) (world : World) :
    world.Later (plan.carryOut answer world).2 := by
  induction plan generalizing world with
  | done value => exact .refl world
  | stop reason => exact .refl world
  | act action next ih => exact (World.Later.of_action action world).trans (ih _ _)
  | ask request next ih =>
    have first := forward request world
    rw [carryOut]
    cases met : answer request world with
    | mk result after =>
      rw [met] at first
      cases result with
      | ok value => exact first.trans (ih value after)
      | error reason => exact first

theorem Request.perform_later (depth : Nat) (request : Request) (world : World) :
    world.Later (request.perform depth world).2 := by
  induction depth generalizing request world with
  | zero => exact .refl world
  | succ depth ih => exact request.plan.carryOut_later ih world

theorem outcome_later (ending : Ending Value) : ending.2.Later (outcome ending).2 := by
  obtain ⟨result, world⟩ := ending
  cases result with
  | ok value => exact .refl world
  | error reason =>
    cases reason with
    | failed | malformed => exact .refl world
    | tooDeep => exact .of_action .takeSerial world

/-- How the end of an evaluation is reported comes after its end. -/
theorem evaluateTo_later (depth : Nat) (code : Code) (what : String) (scope : Nat) (world : World) :
    ((Request.eval code scope).perform depth world).2.Later (evaluateTo depth code what scope world).2 := by
  unfold evaluateTo
  obtain ⟨result, after⟩ := (Request.eval code scope).perform depth world
  cases result with
  | ok value => exact .refl after
  | error reason =>
    cases reason with
    | failed | malformed => exact outcome_later _
    | tooDeep =>
      have logged : after.Later (after.log (.depthReached what)) := .of_action (.log _) after
      exact logged.trans (outcome_later (.error .tooDeep, _))

/-- Everything that happens while a request is met, in order. A request is listed when it is made, before all
that it leads to. -/
def Request.timeline : Nat → Request → World → List Event
  | 0, request, world => [.asked request world (request.perform 0 world)]
  | depth + 1, request, world =>
    .asked request world (request.perform (depth + 1) world) ::
      request.plan.events (perform depth) (timeline depth) world

namespace Event

/-- The world that an event found. -/
def start : Event → World
  | acted _ start => start
  | asked _ start _ => start

/-- Whether an event is a request. -/
def isRequest : Event → Bool
  | acted .. => false
  | asked .. => true

/-- The world right after an event. A request by itself changes nothing. -/
def next : Event → World
  | acted action start => (action.perform start).2
  | asked _ start _ => start

theorem start_later_next (event : Event) : event.start.Later event.next := by
  cases event with
  | acted action start => exact .of_action action start
  | asked _ start _ => exact .refl start

/-- Events that take one world to another. -/
inductive InOrder : World → List Event → World → Prop where
  | nil (later : World.Later before after) : InOrder before [] after
  | cons {event : Event} (later : before.Later event.start) (rest : InOrder event.next events after) :
      InOrder before (event :: events) after

namespace InOrder

theorem later (inOrder : InOrder before events after) : before.Later after := by
  induction inOrder with
  | nil later => exact later
  | @cons _ _ _ event later _ ih => exact (later.trans event.start_later_next).trans ih

theorem append (first : InOrder before events middle) (second : InOrder middle events' after) :
    InOrder before (events ++ events') after := by
  induction first with
  | nil later =>
    cases second with
    | nil later' => exact .nil (later.trans later')
    | cons later' rest => exact .cons (later.trans later') rest
  | cons later _ ih => exact .cons later (ih second)

/-- Each event lies between the two worlds. -/
theorem between (inOrder : InOrder before events after) (member : event ∈ events) :
    before.Later event.start ∧ event.next.Later after := by
  induction inOrder with
  | nil => cases member
  | @cons _ _ _ first later rest ih =>
    rcases List.mem_cons.mp member with rfl | inRest
    · exact ⟨later, rest.later⟩
    · obtain ⟨started, ended⟩ := ih inRest
      exact ⟨(later.trans first.start_later_next).trans started, ended⟩

/-- The worlds that the events find come one after the other. -/
theorem pairwise (inOrder : InOrder before events after) :
    (before :: events.map start ++ [after]).Pairwise World.Later := by
  induction inOrder with
  | nil later => simpa using later
  | @cons events after before first later _ ih =>
    obtain ⟨afterNext, others⟩ := List.pairwise_cons.mp ih
    have afterStart : ∀ world ∈ events.map start ++ [after], first.start.Later world :=
      fun world member => first.start_later_next.trans (afterNext world member)
    refine List.pairwise_cons.mpr ⟨fun world member => ?_, List.pairwise_cons.mpr ⟨afterStart, others⟩⟩
    rcases List.mem_cons.mp member with rfl | inRest
    · exact later
    · exact later.trans (afterStart world inRest)

end InOrder

end Event

/-- What happens while a plan is carried out happens in order. -/
theorem Plan.events_inOrder {answer : Request → World → Ending Value} {inside : Request → World → List Event}
    (below : ∀ request world, Event.InOrder world (inside request world) (answer request world).2)
    (plan : Plan α) (world : World) :
    Event.InOrder world (plan.events answer inside world) (plan.carryOut answer world).2 := by
  induction plan generalizing world with
  | done value => exact .nil (.refl world)
  | stop reason => exact .nil (.refl world)
  | act action next ih => exact .cons (.refl world) (ih _ _)
  | ask request next ih =>
    have first := below request world
    rw [carryOut, events]
    cases met : answer request world with
    | mk result after =>
      rw [met] at first
      cases result with
      | ok value => exact first.append (ih value after)
      | error reason => simpa using first

theorem Request.timeline_inOrder (depth : Nat) (request : Request) (world : World) :
    Event.InOrder world (request.timeline depth world) (request.perform depth world).2 := by
  induction depth generalizing request world with
  | zero => exact .cons (.refl world) (.nil (.refl world))
  | succ depth ih => exact .cons (.refl world) (request.plan.events_inOrder ih world)

end TreeWalk
