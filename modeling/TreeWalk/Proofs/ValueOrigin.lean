import TreeWalk.Eval

/-! Where values come from.

Operators and builtins copy values; none of them makes a function, a signal or an error, or looks
inside anything but an array. The builtins are sorted once by what their plans do, so that later
arguments have five cases to go through and not one for each builtin; the operators are sorted in the
same way into two. -/
namespace TreeWalk

/-- A value without parts and without an identity. -/
def Value.Plain : Value → Prop
  | int _ | str _ | bool _ | null | builtin _ => True
  | array _ | function .. | signal .. | error .. => False

/-- What an operation can make of the values it is given: a plain value, an element of a given array,
or an array of given values and of elements of given arrays. -/
inductive Made (given : List Value) : Value → Prop where
  | plain (plain : value.Plain) : Made given value
  | element (whole : .array items ∈ given) (member : value ∈ items) : Made given value
  | array (origin : ∀ item ∈ items, item ∈ given ∨ ∃ whole, .array whole ∈ given ∧ item ∈ whole) :
      Made given (.array items)

/-- What plain values have, and arrays exactly if all their elements have it, is passed on to all that is made. -/
theorem Made.passes {good : Value → Prop} (made : Made given value)
    (plain : ∀ {value : Value}, value.Plain → good value)
    (array_iff : ∀ {items}, good (.array items) ↔ ∀ item ∈ items, good item)
    (kept : ∀ part ∈ given, good part) : good value := by
  cases made with
  | plain isPlain => exact plain isPlain
  | element whole member => exact array_iff.mp (kept _ whole) _ member
  | array origin =>
    refine array_iff.mpr fun item member => ?_
    rcases origin item member with direct | ⟨whole, known, inside⟩
    · exact kept item direct
    · exact array_iff.mp (kept _ known) item inside

namespace Value

theorem binaryInt_plain (ran : binaryInt op a b = .ok value) : value.Plain := by
  unfold binaryInt at ran
  split at ran
  case h_4 =>
    split at ran
    · cases ran
    · cases ran; trivial
  all_goals cases ran <;> trivial

/-- What two operands make is plain, or an array of what was in arrays. -/
theorem binaryOp_fresh (ran : binaryOp op left right = .ok value) :
    value.Plain ∨ ∃ items, value = .array items ∧
      ∀ item ∈ items, ∃ whole, .array whole ∈ [left, right] ∧ item ∈ whole := by
  unfold binaryOp at ran
  split at ran
  · exact .inl (binaryInt_plain ran)
  · split at ran <;> cases ran <;> exact .inl trivial
  · split at ran
    · cases ran
      refine .inr ⟨_, rfl, fun item member => ?_⟩
      rcases List.mem_append.mp member with inLeft | inRight
      · exact ⟨_, by simp, inLeft⟩
      · exact ⟨_, by simp, inRight⟩
    · cases ran; exact .inl trivial
    · cases ran
  · split at ran
    · cases ran; exact .inl trivial
    · cases ran; exact .inl trivial
    · split at ran <;> cases ran

theorem binaryOp_made (ran : binaryOp op left right = .ok value) : Made [left, right] value := by
  rcases binaryOp_fresh ran with plain | ⟨items, rfl, origin⟩
  · exact .plain plain
  · exact .array fun item member => .inr (origin item member)

theorem unaryOp_plain (ran : unaryOp op right = .ok value) : value.Plain := by
  unfold unaryOp at ran
  split at ran <;> cases ran <;> trivial

theorem Plain.not_signal {value : Value} (plain : value.Plain) : value.isSignal = false := by
  cases value with
  | signal => cases plain
  | _ => rfl

theorem binaryOp_not_signal (ran : binaryOp op left right = .ok value) : value.isSignal = false := by
  rcases binaryOp_fresh ran with plain | ⟨items, rfl, _⟩
  · exact plain.not_signal
  · rfl

theorem at?_made (ran : at? left index = .ok value) : Made [left, index] value := by
  unfold at? at ran
  split at ran
  · rename_i items i
    cases ran
    split
    · cases found : items[i.toNat]? with
      | none => exact .plain trivial
      | some item => exact .element List.mem_cons_self (List.mem_of_getElem? found)
    · exact .plain trivial
  · cases ran

end Value

/-- What the plan of a builtin can be, given the arguments. -/
inductive BuiltinPlan (args : List Value) : Plan Value → Prop where
  | makes (made : Made args value) : BuiltinPlan args (.done value)
  | fails (failure : Failure) : BuiltinPlan args (.fail failure)
  | prints (text : String) : BuiltinPlan args (do Plan.print text; return .null)
  | reads : BuiltinPlan args (do return .str (← Plan.readLine))
  | divides (shape : args = [.array items, predicate]) :
      BuiltinPlan args (do
        let (matched, others) ← Plan.split predicate items
        return .array [.array matched, .array others])

/-- Each builtin gives back a plain value, an element, or an array of what it was given; only
`partition` asks for anything. -/
theorem runBuiltin_plan (b : Builtin) (args : List Value) : BuiltinPlan args (Plan.runBuiltin b args) := by
  fun_cases Plan.runBuiltin b args <;> try first | exact .fails _ | exact .makes (.plain trivial)
  case case4 item rest => exact .makes (.element List.mem_cons_self List.mem_cons_self)
  case case7 items item last => exact .makes (.element List.mem_cons_self (List.mem_of_getLast? last))
  case case10 items item =>
    refine .makes (.array fun value member => ?_)
    rcases List.mem_append.mp member with old | new
    · exact .inr ⟨items, by simp, old⟩
    · exact .inl (by simp_all)
  case case12 items =>
    exact .makes (.array fun value member => .inr ⟨items, by simp, List.mem_reverse.mp member⟩)
  case case14 left right =>
    refine .makes (.array fun value member => .inr ?_)
    rcases List.mem_append.mp member with inLeft | inRight
    · exact ⟨left, by simp, inLeft⟩
    · exact ⟨right, by simp, inRight⟩
  case case17 items predicate callable => exact .divides rfl
  case case26 value => exact .prints _
  case case27 => exact .reads

/-- Arrays of different lengths are not equal. -/
theorem Value.equalAll_of_length_ne {items others : List Value} (different : items.length ≠ others.length) :
    equalAll items others = false := by
  induction items generalizing others with
  | nil =>
    cases others with
    | nil => exact absurd rfl different
    | cons => rfl
  | cons item items ih =>
    cases others with
    | nil => rfl
    | cons other others =>
      rw [equalAll, ih fun same => different (congrArg (· + 1) same), Bool.and_false]

/-- What the plan of an operation can be: the operation itself, or the comparison of the elements of two
arrays, pair by pair. -/
inductive OperationPlan (op : Binary) (left right : Value) : Plan Value → Prop where
  | atOnce : OperationPlan op left right (.ofResult (left.binaryOp op right))
  | inPairs (isEqual : op = .equal) (first : left = .array items) (second : right = .array others)
      (same : items.length = others.length) : OperationPlan op left right (.compareAll (items.zip others))

theorem combine_plan (op : Binary) (left right : Value) :
    OperationPlan op left right (Plan.combine op left right) := by
  unfold Plan.combine
  split
  · rename_i items others
    split
    next same => exact .inPairs rfl rfl rfl same
    next different =>
      have unequal : (Value.array items).binaryOp .equal (.array others) = .ok (.bool false) := by
        rw [Value.binaryOp, Value.equalAll_of_length_ne different]
      have shape : OperationPlan .equal (.array items) (.array others) _ := .atOnce
      rwa [unequal] at shape
  · exact .atOnce

end TreeWalk
