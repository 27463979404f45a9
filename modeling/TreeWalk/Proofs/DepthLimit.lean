import TreeWalk.Proofs.Traffic

/-! The bound on the depth only cuts runs short.

Work that ends before the bound is reached does not notice the bound. Work that reaches it stops there and
then: nothing on the way out looks at the reason, so all that has been printed and read by then is what
the same work prints and reads first when it may go deeper. -/
namespace TreeWalk

/-- A run with a bound and the same run with more room: they end alike, or the first one goes too deep, at
a point that the second one passes. -/
def Ending.CutShort (short long : Ending α) : Prop :=
  long = short ∨ short.1 = .error .tooDeep ∧ short.2.Precedes long.2

/-- A plan is cut short where one of its requests is. -/
theorem Plan.carryOut_cutShort {short long : Request → World → Ending Value}
    (cut : ∀ request world, (short request world).CutShort (long request world))
    (forward : ∀ request (world : World), world.Later (long request world).2) (plan : Plan α)
    (world : World) : (plan.carryOut short world).CutShort (plan.carryOut long world) := by
  induction plan generalizing world with
  | done value => exact .inl rfl
  | stop reason => exact .inl rfl
  | act action next ih => exact ih _ _
  | ask request next ih =>
    simp only [carryOut]
    have below := cut request world
    generalize short request world = ending at below
    obtain ⟨result, after⟩ := ending
    rcases below with same | ⟨tooDeep, earlier⟩
    · rw [same]
      cases result with
      | ok value => exact ih value after
      | error reason => exact .inl rfl
    · -- The first run ends here. The second one may go on with this plan, and only further ahead.
      have reason : result = .error .tooDeep := tooDeep
      subst reason
      refine .inr ⟨rfl, ?_⟩
      generalize long request world = ending at earlier
      obtain ⟨result, farther⟩ := ending
      cases result with
      | ok value => exact earlier.trans ((next value).carryOut_later forward farther).precedes
      | error reason => exact earlier

theorem Request.perform_cutShort (room : depth ≤ deeper) (request : Request) (world : World) :
    (request.perform depth world).CutShort (request.perform deeper world) := by
  induction depth generalizing deeper request world with
  | zero => exact .inr ⟨rfl, request.perform_precedes deeper world⟩
  | succ depth ih =>
    obtain ⟨further, rfl⟩ := Nat.exists_eq_add_of_le' room
    have roomBelow : depth ≤ further + depth := Nat.le_add_left _ _
    exact request.plan.carryOut_cutShort (ih roomBelow) (perform_later _) world

/-- What a run that goes too deep comes to, and the world it leaves. -/
theorem evaluateTo_of_tooDeep (what : String)
    (tooDeep : ((Request.eval code scope).perform depth world).1 = .error .tooDeep) :
    evaluateTo depth code what scope world =
      outcome (.error .tooDeep,
        ((Request.eval code scope).perform depth world).2.log (.depthReached what)) := by
  unfold evaluateTo
  generalize (Request.eval code scope).perform depth world = ending at tooDeep
  obtain ⟨result, after⟩ := ending
  cases tooDeep
  rfl

/-- What the second and the third of three worlds have printed and read since the first. -/
theorem World.Precedes.traffic {start middle last : World} (first : start.Precedes middle)
    (second : middle.Precedes last) :
    (∃ printed more, middle.output = start.output ++ printed ∧
      last.output = start.output ++ printed ++ more) ∧
      ∃ consumed more, start.input = consumed ++ middle.input ∧
        start.input = consumed ++ more ++ last.input := by
  obtain ⟨printed, output⟩ := first.printed
  obtain ⟨morePrinted, outputMore⟩ := second.printed
  obtain ⟨consumed, input⟩ := first.unread
  obtain ⟨moreConsumed, inputMore⟩ := second.unread
  refine ⟨⟨printed, morePrinted, output, by rw [outputMore, output]⟩, consumed, moreConsumed, input.symm, ?_⟩
  rw [List.append_assoc, inputMore, input]

/-- Of two bounds on the depth, take the smaller one. A run that does not reach it has the same result
under the larger one and leaves the same world: the same scopes, output and unread input. A run that does
reach it has an error as its result, with one and the same message, and what it has printed and read is
what the run under the larger bound prints and reads first. -/
theorem depth_limit_cuts_short (tree : Tree) (scope : Nat) (world : World) (depth deeper : Nat)
    (room : depth ≤ deeper) :
    let reaches := ((Request.eval (.ofTree tree) scope).perform depth world).1 = .error .tooDeep
    let short := evaluateTo depth (.ofTree tree) tree.describe scope world
    let long := evaluateTo deeper (.ofTree tree) tree.describe scope world
    (¬ reaches → long = short) ∧
      (reaches →
        (∃ serial, short.1 = .ok (.error serial .tooDeep)) ∧
        Failure.tooDeep.message = "maximum recursion depth exceeded" ∧
        (∃ printed more, short.2.output = world.output ++ printed ∧
          long.2.output = world.output ++ printed ++ more) ∧
        ∃ consumed more, world.input = consumed ++ short.2.input ∧
          world.input = consumed ++ more ++ long.2.input) := by
  intro reaches short long
  have cut := Request.perform_cutShort room (.eval (.ofTree tree) scope) world
  constructor
  · intro notReached
    have same := cut.resolve_right fun both => notReached both.1
    simp only [long, short, evaluateTo, same]
  · intro reached
    have isShort : short = _ := evaluateTo_of_tooDeep tree.describe reached
    refine ⟨⟨_, by rw [isShort]; rfl⟩, rfl, ?_⟩
    have earlier : ((Request.eval (.ofTree tree) scope).perform depth world).2.Precedes
        ((Request.eval (.ofTree tree) scope).perform deeper world).2 := by
      rcases cut with same | ⟨_, earlier⟩
      · rw [same]
        exact .refl _
      · exact earlier
    have start := Request.perform_precedes depth (.eval (.ofTree tree) scope) world
    have final := evaluateTo_precedes deeper (.ofTree tree) tree.describe scope world
    -- The report of the cut adds nothing to the output and reads nothing.
    have output : short.2.output = ((Request.eval (.ofTree tree) scope).perform depth world).2.output := by
      rw [isShort]
      rfl
    have input : short.2.input = ((Request.eval (.ofTree tree) scope).perform depth world).2.input := by
      rw [isShort]
      rfl
    rw [output, input]
    exact start.traffic (earlier.trans final)

/-- The tree of `[print("a"), [[true]]]` prints its text under a bound of three before it goes too deep,
and needs no more than four. -/
theorem depth_limit_cuts_short_of_nested_arrays :
    let world : World := ⟨#[.empty none], 0, [], "", []⟩
    let said : Tree := .node .call [.leaf (.terminal .identifier) "print",
      .node .args [.leaf (.terminal .string) "a"]]
    let tree : Tree := .node .array [said, .node .array [.node .array [.leaf (.terminal .trueWord) "true"]]]
    let ending := fun depth => (Request.eval (.ofTree tree) 0).perform depth world
    let report := fun depth => evaluateTo depth (.ofTree tree) tree.describe 0 world
    (ending 3).1 = .error .tooDeep ∧ (report 3).2.output = "a\n" ∧
      (∃ serial, (report 3).1 = .ok (.error serial .tooDeep)) ∧
      (ending 4).1 ≠ .error .tooDeep ∧ report 9 = report 4 := by
  intro world said tree ending report
  have unbound : ∀ output, World.find? ⟨#[.empty none], 0, [], output, []⟩ "print" 0 = none := by
    intro output
    rw [World.find?]
    rfl
  have builtin : Builtin.ofName? "print" = some .print := rfl
  have ran : ending 3 = (.error .tooDeep, { world with output := "a\n" }) ∧
      ending 4 = (.ok (.array [.null, .array [.array [.bool true]]]), { world with output := "a\n" }) := by
    constructor <;>
      simp [ending, tree, said, world, Code.ofTree, Code.ofTrees, Code.ofChildren, Code.ofLeaf,
        Request.perform, Request.plan, Plan.step, Plan.collect, Plan.collectAfter, Plan.run, Plan.call,
        Plan.lookup, Plan.find, Plan.carryOut, Plan.settle, Plan.applyStep, Plan.runBuiltin, Plan.print,
        Action.perform, World.print, Value.render, unbound, builtin]
  have reached : (ending 3).1 = .error .tooDeep := by rw [ran.1]
  have notReached : (ending 4).1 ≠ .error .tooDeep := by simp [ran.2]
  have cut := depth_limit_cuts_short tree 0 world 3 9 (by decide)
  have kept := depth_limit_cuts_short tree 0 world 4 9 (by decide)
  refine ⟨reached, ?_, (cut.2 reached).1, notReached, kept.1 notReached⟩
  have isReport : report 3 = _ := evaluateTo_of_tooDeep tree.describe reached
  rw [isReport]
  exact congrArg (·.2.output) ran.1

end TreeWalk
