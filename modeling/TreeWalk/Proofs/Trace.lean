import TreeWalk.Eval

/-! What happens during a run, in order.

A trace lists every action and every request, however deep the request that led to it. It is read off
the same plans that are carried out, with the same answers, so a run and its trace cannot differ. -/
namespace TreeWalk

/-- Something that happens during a run. -/
inductive Event where
  /-- An action, and the world it found. -/
  | acted (action : Action) (start : World)
  /-- A request that has been met, the world it found, and how it ended. -/
  | asked (request : Request) (start : World) (ending : Ending Value)

/-- What happens while a plan is carried out, given what happens while its requests are met. -/
def Plan.events (answer : Request → World → Ending Value) (inside : Request → World → List Event) :
    Plan α → World → List Event
  | .done _, _ => []
  | .stop _, _ => []
  | .act action next, world =>
    .acted action world ::
      (next (action.perform world).1).events answer inside (action.perform world).2
  | .ask request next, world =>
    inside request world ++
      match answer request world with
      | (.ok value, world) => (next value).events answer inside world
      | (.error _, _) => []

/-- Everything that happens while a request is met. A request is listed once it has been met, after
all that it led to. -/
def Request.trace : Nat → Request → World → List Event
  | 0, request, world => [.asked request world (request.perform 0 world)]
  | depth + 1, request, world =>
    request.plan.events (perform depth) (trace depth) world ++
      [.asked request world (request.perform (depth + 1) world)]

end TreeWalk
