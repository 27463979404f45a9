import TreeWalk.Proofs.LastingNames

/-! How `partition` divides an array.

The predicate is applied to the elements one by one and in order, and each application starts in the world
that the one before has left. If every one of them gives a verdict, the array is divided in two by these
verdicts: both parts keep the order, and each element goes into exactly one of them. The first application
that gives no verdict is the last one that is made, and the division fails with the error of the predicate or
with a complaint about its value. -/
namespace TreeWalk

/-- The requests that a plan makes itself, in order; what these lead to is left out. -/
def Plan.ownRequests (depth : Nat) (plan : Plan α) (world : World) : List Event :=
  (plan.events (Request.perform depth) (fun inner start => [.asked inner start (inner.perform depth start)])
    world).filter Event.isRequest

/-- One application of a predicate: the element, the world it found, and how it ended. -/
structure Trial where
  item : Value
  start : World
  ending : Ending Value

namespace Trial

/-- The world that an application leaves. -/
def after (trial : Trial) : World := trial.ending.2

/-- The verdict, if an application gives one. -/
def verdict? (trial : Trial) : Option Bool :=
  match trial.ending.1 with
  | .ok (.bool verdict) => some verdict
  | _ => none

/-- An application as it shows in what happens. -/
def event (predicate : Value) (trial : Trial) : Event :=
  .asked (.apply predicate [trial.item]) trial.start trial.ending

/-- The application to an element, made in a world. -/
def make (depth : Nat) (predicate item : Value) (world : World) : Trial :=
  ⟨item, world, (Request.apply predicate [item]).perform depth world⟩

/-- How an application without a verdict ends the division: one that ends without a value does so likewise, an
error that it gives is the error of the whole, and any other value is complained about. -/
inductive Rejects : Ending Value → Stop → World → Prop where
  | stopped (reason : Stop) (after : World) : Rejects (.error reason, after) reason after
  | error (serial : Nat) (failure : Failure) (after : World) :
      Rejects (.ok (.error serial failure), after) (.failed serial failure) after
  | other (notVerdict : value.kind ≠ .boolean) (notError : value.kind ≠ .error) (after : World) :
      Rejects (.ok value, after) (.failed after.nextSerial (.notVerdict value.kind)) after.takeSerial.2

/-- Applications to the first elements of a row, in turn: each one in the world that the one before has left,
and all but the last one with a verdict. -/
structure InTurn (depth : Nat) (predicate : Value) (world : World) (items : List Value)
    (trials : List Trial) : Prop where
  applied : ∀ (k : Nat) (trial : Trial), trials[k]? = some trial → items[k]? = some trial.item ∧
    (world :: trials.map after)[k]? = some trial.start ∧
    trial.ending = (Request.apply predicate [trial.item]).perform depth trial.start
  judged : ∀ trial ∈ trials.dropLast, trial.verdict?.isSome

namespace InTurn

variable {depth : Nat} {predicate item : Value} {world : World} {items : List Value}

theorem nil (depth : Nat) (predicate : Value) (world : World) (items : List Value) :
    InTurn depth predicate world items [] where
  applied := by
    intro k trial found
    cases found
  judged := List.forall_mem_nil _

/-- One more application at the beginning, with a verdict unless it is the only one. -/
theorem cons (judged : trials = [] ∨ (make depth predicate item world).verdict?.isSome)
    (rest : InTurn depth predicate (make depth predicate item world).after items trials) :
    InTurn depth predicate world (item :: items) (make depth predicate item world :: trials) where
  applied := by
    intro k trial found
    cases k with
    | zero =>
      cases found
      exact ⟨rfl, rfl, rfl⟩
    | succ k => exact rest.applied k trial found
  judged := by
    intro trial member
    cases trials with
    | nil => cases member
    | cons second trials =>
      rcases List.mem_cons.mp member with rfl | inRest
      · exact judged.resolve_left (List.cons_ne_nil _ _)
      · exact rest.judged trial inRest

end InTurn

end Trial

/-- The elements with a given verdict, in order. -/
def chosen (verdict : Bool) (items : List Value) (verdicts : List Bool) : List Value :=
  ((items.zip verdicts).filter (·.2 == verdict)).map Prod.fst

theorem chosen_cons (verdict first : Bool) (item : Value) (items : List Value) (verdicts : List Bool) :
    chosen verdict (item :: items) (first :: verdicts) =
      if first = verdict then item :: chosen verdict items verdicts else chosen verdict items verdicts := by
  by_cases same : first = verdict
  · simp [chosen, same]
  · simp [chosen, same]

/-- A row divided in two: both parts keep the order, and each element goes into exactly one of them. -/
structure StableSplit (items matched others : List Value) : Prop where
  matched_inOrder : matched.Sublist items
  others_inOrder : others.Sublist items
  whole : (matched ++ others).Perm items
  lengths : matched.length + others.length = items.length

theorem chosen_sublist (verdict : Bool) (sameLength : verdicts.length = items.length) :
    (chosen verdict items verdicts).Sublist items := by
  have inOrder := (List.filter_sublist (p := (·.2 == verdict)) (l := items.zip verdicts)).map Prod.fst
  rwa [List.map_fst_zip (Nat.le_of_eq sameLength.symm)] at inOrder

theorem chosen_perm (sameLength : verdicts.length = items.length) :
    (chosen true items verdicts ++ chosen false items verdicts).Perm items := by
  induction items generalizing verdicts with
  | nil => exact .refl _
  | cons item items ih =>
    cases verdicts with
    | nil => cases sameLength
    | cons verdict verdicts =>
      have rest := ih (Nat.succ.inj sameLength)
      cases verdict with
      | true => simpa [chosen_cons] using rest
      | false => simpa [chosen_cons] using List.perm_middle.trans (rest.cons item)

theorem chosen_stableSplit (sameLength : verdicts.length = items.length) :
    StableSplit items (chosen true items verdicts) (chosen false items verdicts) where
  matched_inOrder := chosen_sublist true sameLength
  others_inOrder := chosen_sublist false sameLength
  whole := chosen_perm sameLength
  lengths := by rw [← List.length_append, (chosen_perm sameLength).length_eq]

namespace Plan

variable {depth : Nat} {predicate item : Value} {world : World}

open Trial

/-- An element with a verdict is put to its part, and the division goes on where the application has ended. -/
theorem splitAfter_of_verdict (judged : (make depth predicate item world).verdict? = some verdict)
    (matched others items : List Value) :
    let plan := splitAfter predicate matched others (item :: items)
    let rest := splitAfter predicate (if verdict then item :: matched else matched)
      (if verdict then others else item :: others) items
    let trial := make depth predicate item world
    plan.carryOut (Request.perform depth) world = rest.carryOut (Request.perform depth) trial.after ∧
      plan.ownRequests depth world = trial.event predicate :: rest.ownRequests depth trial.after := by
  simp only [make, verdict?, after, event, ownRequests, splitAfter, call, ask_bind, done_bind, carryOut,
    events] at judged ⊢
  generalize (Request.apply predicate [item]).perform depth world = ending at judged ⊢
  split at judged
  · rename_i value isValue
    obtain ⟨result, after⟩ := ending
    cases isValue
    cases judged
    cases verdict with
    | false => exact ⟨rfl, rfl⟩
    | true => exact ⟨rfl, rfl⟩
  · cases judged

/-- An element without a verdict ends the division. -/
theorem splitAfter_of_no_verdict (unjudged : (make depth predicate item world).verdict? = none)
    (matched others items : List Value) :
    let plan := splitAfter predicate matched others (item :: items)
    let trial := make depth predicate item world
    ∃ reason after, Rejects trial.ending reason after ∧
      plan.carryOut (Request.perform depth) world = (.error reason, after) ∧
      plan.ownRequests depth world = [trial.event predicate] := by
  simp only [make, verdict?, event, ownRequests, splitAfter, call, ask_bind, done_bind, carryOut, events]
    at unjudged ⊢
  generalize (Request.apply predicate [item]).perform depth world = ending at unjudged ⊢
  obtain ⟨result, after⟩ := ending
  cases result with
  | error reason => exact ⟨reason, after, .stopped reason after, rfl, rfl⟩
  | ok value =>
    cases value with
    | bool verdict => cases unjudged
    | error serial failure => exact ⟨_, _, .error serial failure after, rfl, rfl⟩
    | _ => exact ⟨_, _, .other (by simp [Value.kind]) (by simp [Value.kind]) after, rfl, rfl⟩

/-- The course of a division, whatever has been divided before. -/
theorem splitAfter_course (depth : Nat) (predicate : Value) (items matched others : List Value)
    (world : World) :
    let plan := splitAfter predicate matched others items
    let ending := plan.carryOut (Request.perform depth) world
    ∃ trials, plan.ownRequests depth world = trials.map (event predicate) ∧
      InTurn depth predicate world items trials ∧
      ((∃ verdicts, verdicts.length = items.length ∧ trials.map verdict? = verdicts.map some ∧
          ending = (.ok (matched.reverse ++ chosen true items verdicts,
              others.reverse ++ chosen false items verdicts),
            (trials.getLast?.map after).getD world)) ∨
        ∃ last reason after, trials.getLast? = some last ∧ last.verdict? = none ∧
          Rejects last.ending reason after ∧ ending = (.error reason, after)) := by
  induction items generalizing matched others world with
  | nil =>
    refine ⟨[], rfl, .nil depth predicate world [], .inl ⟨[], rfl, rfl, ?_⟩⟩
    simp [splitAfter, carryOut, chosen]
  | cons item items ih =>
    cases isVerdict : (make depth predicate item world).verdict? with
    | none =>
      obtain ⟨reason, after, rejects, ended, asked⟩ :=
        splitAfter_of_no_verdict isVerdict matched others items
      refine ⟨[make depth predicate item world], asked, .cons (.inl rfl) (.nil _ _ _ _), .inr ?_⟩
      exact ⟨_, reason, after, rfl, isVerdict, rejects, ended⟩
    | some verdict =>
      obtain ⟨goesOn, asked⟩ := splitAfter_of_verdict isVerdict matched others items
      obtain ⟨trials, askedLater, inTurn, ended⟩ := ih (if verdict then item :: matched else matched)
        (if verdict then others else item :: others) (make depth predicate item world).after
      refine ⟨make depth predicate item world :: trials, ?_, .cons (.inr (by rw [isVerdict]; rfl)) inTurn, ?_⟩
      · rw [asked, askedLater, List.map_cons]
      · rw [goesOn, List.getLast?_cons]
        rcases ended with ⟨verdicts, sameLength, judged, isEnding⟩ | ⟨last, reason, after, isLast, rest⟩
        · refine .inl ⟨verdict :: verdicts, congrArg (· + 1) sameLength, ?_, ?_⟩
          · rw [List.map_cons, isVerdict, judged, List.map_cons]
          · rw [isEnding]
            cases verdict <;> cases trials.getLast? <;> simp [chosen_cons]
        · exact .inr ⟨last, reason, after, by rw [isLast]; rfl, rest⟩

/-- What a division that is given a predicate asks for is what dividing the elements asks for. -/
theorem partition_ownRequests (callable : predicate.kind = .function ∨ predicate.kind = .builtin)
    (items : List Value) (depth : Nat) (world : World) :
    (runBuiltin .partition [.array items, predicate]).ownRequests depth world =
      (split predicate items).ownRequests depth world := by
  simp only [runBuiltin, if_pos callable, ownRequests, events_bind]
  cases (split predicate items).carryOut (Request.perform depth) world with
  | mk result after => cases result <;> simp [events]

theorem partition_carryOut (callable : predicate.kind = .function ∨ predicate.kind = .builtin)
    (items : List Value) (answer : Request → World → Ending Value) (world : World) :
    (runBuiltin .partition [.array items, predicate]).carryOut answer world =
      (split predicate items >>= fun parts => done (.array [.array parts.1, .array parts.2])).carryOut answer
        world := by
  simp only [runBuiltin, if_pos callable]
  rfl

end Plan

/-- Applied to an array and a predicate, `partition` applies the predicate to the elements in turn, and asks
for nothing else. If all of them get a verdict, the result is the array of those with a true verdict and of
those with a false one, each in order. Otherwise the last application is the first one without a verdict, and
it ends the division: with its own error, or with a complaint about what it gave. -/
theorem partition_is_stable_split (depth : Nat) (items : List Value) (predicate : Value) (world : World)
    (callable : predicate.kind = .function ∨ predicate.kind = .builtin) :
    let request : Request := .apply (.builtin .partition) [.array items, predicate]
    let ending := request.perform (depth + 1) world
    (∃ trials : List Trial, request.plan.ownRequests depth world = trials.map (Trial.event predicate) ∧
      Trial.InTurn depth predicate world items trials ∧
      ((∃ verdicts, verdicts.length = items.length ∧ trials.map Trial.verdict? = verdicts.map some ∧
          StableSplit items (chosen true items verdicts) (chosen false items verdicts) ∧
          ending = (.ok (.array [.array (chosen true items verdicts), .array (chosen false items verdicts)]),
            (trials.getLast?.map Trial.after).getD world)) ∨
        ∃ last reason after, trials.getLast? = some last ∧ last.verdict? = none ∧
          Trial.Rejects last.ending reason after ∧ ending = (.error reason, after))) ∧
      ∀ kind, (Failure.notVerdict kind).message =
        "`partition` predicate must return BOOLEAN, got " ++ kind.name := by
  intro request ending
  refine ⟨?_, fun _ => rfl⟩
  have isEnding : ending = _ := Plan.partition_carryOut callable items (Request.perform depth) world
  have asked : request.plan.ownRequests depth world = _ :=
    Plan.partition_ownRequests callable items depth world
  rw [isEnding, asked, Plan.carryOut_bind]
  obtain ⟨trials, own, inTurn, ended⟩ := Plan.splitAfter_course depth predicate items [] [] world
  refine ⟨trials, own, inTurn, ?_⟩
  rcases ended with ⟨verdicts, sameLength, judged, divided⟩ |
    ⟨last, reason, after, isLast, noVerdict, rejects, failed⟩
  · refine .inl ⟨verdicts, sameLength, judged, chosen_stableSplit sameLength, ?_⟩
    rw [Plan.split, divided]
    rfl
  · refine .inr ⟨last, reason, after, isLast, noVerdict, rejects, ?_⟩
    rw [Plan.split, failed]

/-- Arrays divided by their first elements. An array that begins with a number ends the division, and the one
after it is not looked at. -/
theorem partition_is_stable_split_by_first_element :
    let request : List Value → Request := fun items =>
      .apply (.builtin .partition) [.array items, .builtin .first]
    let yes : Value := .array [.bool true]
    let no : Value := .array [.bool false, .null]
    let odd : Value := .array [.int 1]
    let world := World.start ""
    ((Value.builtin .first).kind = .function ∨ (Value.builtin .first).kind = .builtin) ∧
      ((request [yes, no, yes]).perform 2 world = (.ok (.array [.array [yes, yes], .array [no]]), world) ∧
        ∃ trials, Trial.InTurn 1 (.builtin .first) world [yes, no, yes] trials ∧ trials.length = 3) ∧
      (request [yes, odd, no]).perform 2 world =
          (.error (.failed 0 (.notVerdict .integer)), { world with nextSerial := 1 }) ∧
        ∃ trials, Trial.InTurn 1 (.builtin .first) world [yes, odd, no] trials ∧ trials.length = 2 := by
  intro request yes no odd world
  have callable : (Value.builtin .first).kind = .function ∨ (Value.builtin .first).kind = .builtin := .inr rfl
  have tried : ∀ items, ∃ trials, Trial.InTurn 1 (.builtin .first) world items trials ∧
      trials.length = ((request items).plan.ownRequests 1 world).length := by
    intro items
    obtain ⟨⟨trials, own, inTurn, _⟩, _⟩ := partition_is_stable_split 1 items (.builtin .first) world callable
    exact ⟨trials, inTurn, by rw [own, List.length_map]⟩
  exact ⟨callable, ⟨rfl, tried _⟩, rfl, tried _⟩

end TreeWalk
