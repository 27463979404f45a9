import TreeWalk.Proofs.ValueOrigin

/-! How far a comparison goes.

What two values have to do with each other is a matter of the values alone. To find it out for two arrays,
a run goes down their levels, and each level takes room. It goes no further than the first two elements
that are not equal, so the room it takes is told by both arrays together. With that much room the verdict
is the right one, and with less there is none. -/
namespace TreeWalk

namespace Value

mutual

/-- How many levels the comparison of two values goes down. -/
def reach : Value → Value → Nat
  | array items, array others => if items.length = others.length then reachAll items others else 0
  | _, _ => 0

/-- How many levels the comparison of elements goes down, up to the first two that are not equal. -/
def reachAll : List Value → List Value → Nat
  | item :: items, other :: others =>
    max (reach item other + 1) (if equal item other then reachAll items others else 0)
  | _, _ => 0

end

mutual

/-- How deep arrays nest in a value. -/
def nesting : Value → Nat
  | array items => nestingOf items + 1
  | _ => 0

/-- How deep arrays nest in the values of a list. -/
def nestingOf : List Value → Nat
  | [] => 0
  | item :: items => max (nesting item) (nestingOf items)

end

mutual

/-- A comparison goes no further down than either value nests. -/
theorem reach_le_nesting : ∀ value other : Value, reach value other ≤ min value.nesting other.nesting
  | array items, array others => by
    have below := reachAll_le_nestingOf items others
    rw [reach, nesting, nesting]
    split <;> omega
  | array items, int _ | array items, str _ | array items, bool _ | array items, null
  | array items, function .. | array items, builtin _ | array items, signal .. | array items, error .. => by
    simp [reach]
  | int _, _ | str _, _ | bool _, _ | null, _ | function .., _ | builtin _, _ | signal .., _ | error .., _ => by
    simp [reach]

theorem reachAll_le_nestingOf : ∀ items others : List Value,
    reachAll items others ≤ min (nestingOf items) (nestingOf others) + 1
  | [], _ => by simp [reachAll]
  | _ :: _, [] => by simp [reachAll]
  | item :: items, other :: others => by
    have first := reach_le_nesting item other
    have rest := reachAll_le_nestingOf items others
    rw [reachAll, nestingOf, nestingOf]
    split <;> omega

end

/-- An empty array inside so many arrays. -/
def nested : Nat → Value
  | 0 => array []
  | depth + 1 => array [nested depth]

theorem nested_eq_array (depth : Nat) : ∃ items, nested depth = array items := by
  cases depth with
  | zero => exact ⟨[], rfl⟩
  | succ depth => exact ⟨[nested depth], rfl⟩

/-- To compare a deep array with itself, a run goes all the way down. -/
theorem reach_nested (depth : Nat) : reach (nested depth) (nested depth) = depth := by
  induction depth with
  | zero => rfl
  | succ depth ih => simp [nested, reach, reachAll, ih]

/-- The operator gives the verdict of equality, whatever the kinds of the values. -/
theorem binaryOp_equal (a b : Value) : binaryOp .equal a b = .ok (bool (equal a b)) := by
  cases a <;> cases b <;> simp [binaryOp, binaryInt, equal]

end Value

namespace Plan

/-- Where pairs are compared rightly as far as there is room, so are rows of them. -/
theorem carryOut_compareAll {answer : Request → World → Ending Value} {depth : Nat}
    (below : ∀ left right world, answer (.compare left right) world =
      (if left.reach right < depth then .ok (.bool (left.equal right)) else .error .tooDeep, world))
    {items others : List Value} (same : items.length = others.length) (world : World) :
    (compareAll (items.zip others)).carryOut answer world =
      (if Value.reachAll items others ≤ depth then .ok (.bool (Value.equalAll items others))
        else .error .tooDeep, world) := by
  induction items generalizing others with
  | nil =>
    cases others with
    | nil => rfl
    | cons => cases same
  | cons item items ih =>
    cases others with
    | nil => cases same
    | cons other others =>
      have rest := ih (Nat.succ.inj same)
      rw [List.zip_cons_cons, compareAll, compare, ask_bind, carryOut, below, Value.reachAll, Value.equalAll]
      by_cases enough : item.reach other < depth
      · rw [if_pos enough]
        cases item.equal other with
        | true =>
          simp only [done_bind, rest, if_true, Bool.true_and, Nat.max_le]
          simp only [Nat.succ_le_of_lt enough, true_and]
        | false => simp [carryOut, Nat.succ_le_of_lt enough]
      · have tooFar : ¬ item.reach other + 1 ≤ depth := enough
        simp [enough, Nat.max_le, tooFar]

/-- Everything but the comparison of two arrays is done at once. -/
theorem combine_eq_ofResult {op : Binary} {left right : Value}
    (notArrays : ∀ items others, op = .equal → left = .array items → right = .array others → False) :
    combine op left right = ofResult (left.binaryOp op right) := by
  unfold combine
  split
  next items others => exact (notArrays items others rfl rfl rfl).elim
  · rfl

/-- An operation gives what the operator makes of its operands, if there is room for the comparison in it. -/
theorem carryOut_combine {answer : Request → World → Ending Value} {depth : Nat}
    (below : ∀ left right world, answer (.compare left right) world =
      (if left.reach right < depth then .ok (.bool (left.equal right)) else .error .tooDeep, world))
    (op : Binary) (left right : Value) (world : World) :
    (combine op left right).carryOut answer world =
      if op = .equal → left.reach right ≤ depth then
        (ofResult (left.binaryOp op right)).carryOut answer world
      else (.error .tooDeep, world) := by
  by_cases arrays : ∃ items others, op = .equal ∧ left = .array items ∧ right = .array others
  · obtain ⟨items, others, rfl, rfl, rfl⟩ := arrays
    rw [Value.binaryOp_equal, combine, Value.reach, Value.equal]
    by_cases same : items.length = others.length
    · rw [if_pos same, if_pos same, carryOut_compareAll below same]
      by_cases enough : Value.reachAll items others ≤ depth <;> simp [enough, ofResult, carryOut]
    · rw [if_neg same, if_neg same, Value.equalAll_of_length_ne same]
      simp [ofResult, carryOut]
  · have notArrays : ∀ items others, op = .equal → left = .array items → right = .array others → False :=
      fun items others isEqual first second => arrays ⟨items, others, isEqual, first, second⟩
    have shallow : op = .equal → left.reach right = 0 := by
      intro isEqual
      unfold Value.reach
      split
      next items others => exact (notArrays items others isEqual rfl rfl).elim
      · rfl
    rw [combine_eq_ofResult notArrays, if_pos fun isEqual => by rw [shallow isEqual]; exact Nat.zero_le depth]

end Plan

namespace Request

/-- Two values are compared rightly if the comparison goes less deep than allowed. Otherwise the run is cut
off; nothing else happens in either case. -/
theorem perform_compare (depth : Nat) (left right : Value) (world : World) :
    (compare left right).perform depth world =
      (if left.reach right < depth then .ok (.bool (left.equal right)) else .error .tooDeep, world) := by
  induction depth generalizing left right world with
  | zero => rfl
  | succ depth ih =>
    rw [perform, plan, Plan.carryOut_combine ih, Value.binaryOp_equal]
    by_cases enough : left.reach right ≤ depth <;>
      simp [enough, Nat.lt_succ_iff, Plan.ofResult, Plan.carryOut]

/-- A comparison is not cut off where one of the values nests less deep than a run may. -/
theorem perform_compare_ok {left right : Value} (enough : left.nesting < depth ∨ right.nesting < depth)
    (world : World) : (compare left right).perform depth world = (.ok (.bool (left.equal right)), world) := by
  have within : left.reach right < depth := by
    have below := Value.reach_le_nesting left right
    omega
  rw [perform_compare, if_pos within]

/-- A node for `==` runs both operands and compares what they give. -/
theorem perform_equal {a b : Value} (first : (eval left scope).perform depth world = (.ok a, middle))
    (second : (eval right scope).perform depth middle = (.ok b, after)) :
    (eval (.binary .equal left right) scope).perform (depth + 1) world =
      (compare a b).perform (depth + 1) after := by
  have combined := Plan.carryOut_combine (perform_compare depth) .equal a b after
  simp only [perform, plan, Plan.step, Plan.carryOut_bind, Plan.run, Plan.carryOut, first, second, combined]
  by_cases enough : a.reach b ≤ depth <;>
    simp [enough, Value.binaryOp_equal, Plan.ofResult, Plan.carryOut, Plan.settle]

end Request

end TreeWalk
