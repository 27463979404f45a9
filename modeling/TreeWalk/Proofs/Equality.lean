import TreeWalk.Proofs.Comparison
import TreeWalk.Proofs.Identities
import TreeWalk.Value.Display

/-! What is equal is one value.

Equality compares data by content and everything else by identity. It sees only the outline of a value, in
which a function, a signal or an error is its kind and its identity. Two values are equal exactly if they have
the same outline, so equality is an equivalence. In general an outline says less than the value. Among the
values that are there together in a world it does not, because what has an identity is on record under it.

A run that compares arrays goes down into them and may be cut off there. If it is not, then it comes to this
verdict. -/
namespace TreeWalk

/-- What equality sees of a value. -/
inductive Outline where
  | int (value : Int)
  | str (value : String)
  | bool (value : Bool)
  | null
  | array (items : List Outline)
  | builtin (builtin : Builtin)
  | object (kind : Kind) (serial : Nat)

namespace Value

mutual

/-- Takes away what equality does not look at. -/
def outline : Value → Outline
  | int value => .int value
  | str value => .str value
  | bool value => .bool value
  | null => .null
  | array items => .array (outlineAll items)
  | builtin b => .builtin b
  | function serial _ _ _ => .object .function serial
  | signal serial _ => .object .signal serial
  | error serial _ => .object .error serial

def outlineAll : List Value → List Outline
  | [] => []
  | item :: items => outline item :: outlineAll items

end

mutual

theorem equal_iff {a b : Value} : equal a b = true ↔ a.outline = b.outline := by
  cases a with
  | array items =>
    cases b with
    | array others => rw [equal, outline, outline, Outline.array.injEq, equalAll_iff]
    | _ => simp [equal, outline]
  | _ => cases b <;> simp [equal, outline]

theorem equalAll_iff {items others : List Value} :
    equalAll items others = true ↔ outlineAll items = outlineAll others := by
  cases items with
  | nil => cases others <;> simp [equalAll, outlineAll]
  | cons item items =>
    cases others with
    | nil => simp [equalAll, outlineAll]
    | cons other others =>
      rw [equalAll, outlineAll, outlineAll, Bool.and_eq_true, List.cons.injEq, equal_iff, equalAll_iff]

end

theorem serial?_of_outline {kind : Kind} {value : Value} (same : .object kind serial = value.outline) :
    value.serial? = some serial := by
  cases value with
  | function | signal | error =>
    cases same
    rfl
  | _ => simp [outline] at same

mutual

/-- A known value can be read back from its outline. -/
theorem eq_of_outline {a b : Value} (left : a.Known record) (right : b.Known record)
    (same : a.outline = b.outline) : a = b := by
  cases a with
  | array items =>
    cases b with
    | array others =>
      rw [outline, outline, Outline.array.injEq] at same
      rw [eq_of_outlineAll (Known.array_iff.mp left) (Known.array_iff.mp right) same]
    | _ => simp [outline] at same
  | function | signal | error => exact left.eq_of_serial right rfl (serial?_of_outline same)
  | _ => cases b <;> simp_all [outline]

theorem eq_of_outlineAll {items others : List Value} (left : ∀ item ∈ items, item.Known record)
    (right : ∀ other ∈ others, other.Known record) (same : outlineAll items = outlineAll others) :
    items = others := by
  cases items with
  | nil =>
    cases others with
    | nil => rfl
    | cons => simp [outlineAll] at same
  | cons item items =>
    cases others with
    | nil => simp [outlineAll] at same
    | cons other others =>
      rw [outlineAll, outlineAll, List.cons.injEq] at same
      obtain ⟨first, rest⟩ := List.forall_mem_cons.mp left
      obtain ⟨firstOther, restOthers⟩ := List.forall_mem_cons.mp right
      rw [eq_of_outline first firstOther same.1, eq_of_outlineAll rest restOthers same.2]

end

/-- Two strings, or two arrays: `!=` is not an operator between them. -/
def LacksNotEqual (a b : Value) : Prop := a.kind = b.kind ∧ a.kind ∈ [Kind.string, Kind.array]

theorem binaryOp_notEqual_of_lacks (lacks : LacksNotEqual a b) :
    binaryOp .notEqual a b = .error (.unknownBinary a.kind .notEqual) := by
  obtain ⟨sameKind, kinds⟩ := lacks
  cases a <;> simp [kind] at kinds <;> cases b <;> cases sameKind <;> rfl

theorem binaryOp_notEqual (supported : ¬ LacksNotEqual a b) :
    binaryOp .notEqual a b = .ok (bool (!equal a b)) := by
  cases a <;> cases b <;> simp_all [LacksNotEqual, kind, binaryOp, binaryInt, equal]

/-- The operator finds two values equal. -/
def Equals (a b : Value) : Prop := binaryOp .equal a b = .ok (bool true)

theorem equals_iff : Equals a b ↔ a.outline = b.outline := by
  rw [Equals, binaryOp_equal, ← equal_iff]
  simp

theorem equals_equivalence : Equivalence Equals where
  refl _ := equals_iff.mpr rfl
  symm same := equals_iff.mpr (equals_iff.mp same).symm
  trans first second := equals_iff.mpr ((equals_iff.mp first).trans (equals_iff.mp second))

/-- Known values are equal only to themselves. -/
theorem Known.equals_iff (left : Known record a) (right : Known record b) : Equals a b ↔ a = b := by
  rw [Value.equals_iff]
  constructor
  · intro same
    exact eq_of_outline left right same
  · intro same
    rw [same]

/-- Integers, strings, booleans, null, and arrays of such to any depth. -/
def Structural (value : Value) : Prop :=
  ∀ part : Value, part.Inside value → part.kind ∈ [Kind.integer, .string, .boolean, .null, .array]

theorem Structural.known {value : Value} (structural : value.Structural) : value.Known [] := by
  intro part inside serial isSerial
  have kinds := structural part inside
  cases part with
  | function | signal | error => simp [kind] at kinds
  | _ => cases isSerial

end Value

open Value

/-- A comparison that is not cut off finds out whether two values are equal. -/
theorem Request.perform_compare_verdict (a b : Value) (room : Nat) (world : World) :
    (compare a b).perform room world = (.error .tooDeep, world) ∨
      ∃ verdict, (compare a b).perform room world = (.ok (.bool verdict), world) ∧
        (verdict = true ↔ Equals a b) := by
  rw [perform_compare]
  by_cases enough : a.reach b < room
  · refine .inr ⟨a.equal b, by rw [if_pos enough], ?_⟩
    rw [Equals, binaryOp_equal]
    simp
  · exact .inl (by rw [if_neg enough])

/-- Between any two values, equality has a verdict, unless both are arrays nested as deep as a run may nest;
then the comparison may be cut off, and there is no other way for it to end. The verdicts are those of an
equivalence. Data is equal exactly if it is the same, to any depth. In a world that a host can get to, and on
the way of whatever the host asks for there, what is found equal is of one kind and rendered alike: there is
no difference between the two at all. The opposite operator gives the opposite verdict, except between two
strings and between two arrays, where it fails. -/
theorem equality_is_congruent (reachable : Reachable world held) (offered : Request.Offered held request)
    (depth : Nat) :
    (∀ a b room, a.nesting < room ∨ b.nesting < room →
      ∃ verdict, (Request.compare a b).perform room world = (.ok (.bool verdict), world)) ∧
    (∀ a b room, (Request.compare a b).perform room world = (.error .tooDeep, world) ∨
      ∃ verdict, (Request.compare a b).perform room world = (.ok (.bool verdict), world) ∧
        (verdict = true ↔ Equals a b)) ∧
    Equivalence Equals ∧
    (∀ a b, a.Structural → b.Structural → (Equals a b ↔ a = b)) ∧
    (∀ a b, Present world held request depth a → Present world held request depth b → Equals a b →
      a.kind = b.kind ∧ a.render = b.render ∧ a = b) ∧
    ∀ a b verdict, (verdict = true ↔ Equals a b) →
      (¬ LacksNotEqual a b → Plan.combine .notEqual a b = pure (.bool !verdict)) ∧
      (LacksNotEqual a b → Plan.combine .notEqual a b = Plan.fail (.unknownBinary a.kind .notEqual)) := by
  refine ⟨fun a b room enough => ⟨_, Request.perform_compare_ok enough world⟩,
    fun a b room => Request.perform_compare_verdict a b room world, equals_equivalence, ?_, ?_, ?_⟩
  · intro a b left right
    exact left.known.equals_iff right.known
  · intro a b left right same
    obtain ⟨record, known⟩ := reachable.known_of_present offered depth
    have one : a = b := ((known a left).equals_iff (known b right)).mp same
    subst one
    exact ⟨rfl, rfl, rfl⟩
  · intro a b verdict given
    have isVerdict : verdict = a.equal b := by
      rw [Equals, binaryOp_equal] at given
      cases verdict <;> simp_all
    have atOnce : Plan.combine .notEqual a b = .ofResult (a.binaryOp .notEqual b) :=
      Plan.combine_eq_ofResult fun _ _ isEqual => by cases isEqual
    rw [atOnce, isVerdict]
    constructor
    · intro supported
      rw [binaryOp_notEqual supported]
      rfl
    · intro lacks
      rw [binaryOp_notEqual_of_lacks lacks]
      rfl

/-- A host has made two errors of one text and an array of both, and asks for the last element of it. The two
errors are rendered alike but are not equal, and an array with them the other way round is found not to be
equal either; what the request gives is equal to the second error, and is that error. -/
theorem equality_is_congruent_of_two_errors :
    let world : World := (World.start "").takeSerial.2.takeSerial.2
    let first : Value := .error 0 .divisionByZero
    let second : Value := .error 1 .divisionByZero
    let held : List Value := [.builtin .last, .array [first, second], second, first]
    let request : Request := .apply (.builtin .last) [.array [first, second]]
    Reachable world held ∧ request.Offered held ∧ first.render = second.render ∧
      ¬ Equals first second ∧ Plan.combine .notEqual first second = pure (.bool true) ∧
      (Request.compare (.array [first, second]) (.array [second, first])).perform 2 world =
        (.ok (.bool false), world) ∧
      ∃ value after, request.perform 1 world = (.ok value, after) ∧ Equals value second ∧
        value.kind = second.kind ∧ value.render = second.render ∧ value = second := by
  intro world first second held request
  have made : Reachable world [second, first] := .error (.error (.start "") .divisionByZero) .divisionByZero
  have reachable : Reachable world held := .plain (.array made (by simp)) trivial
  have offered : request.Offered held := by simp [request, held, Request.Offered]
  obtain ⟨_, _, _, _, congruent, opposite⟩ := equality_is_congruent reachable offered 1
  have given : Present world held request 1 second :=
    .met (List.mem_append_right _ (List.mem_singleton_self _)) .given
  have unequal : ¬ Equals first second := by
    rw [equals_iff]
    simp [first, second, outline]
  have different : Plan.combine .notEqual first second = pure (.bool !false) :=
    (opposite first second false (by simp [unequal])).1 (by simp [LacksNotEqual, first, kind])
  exact ⟨reachable, offered, rfl, unequal, different, rfl, second, _, rfl, rfl,
    congruent second second given (.held (by simp [held])) rfl⟩

namespace Request

/-- A name that is bound to an array is looked up at once. -/
theorem perform_ident_array {items : List Value} (found : world.find? name scope = some (.array items))
    (depth : Nat) : (eval (.ident name) scope).perform (depth + 1) world = (.ok (.array items), world) := by
  simp [perform, plan, Plan.step, Plan.lookup, Plan.find, Plan.act_bind, Plan.carryOut, Action.perform, found,
    Plan.settle]

/-- Where an array goes down as far as a run may, it is not compared with itself. -/
theorem perform_self_comparison {items : List Value} (found : world.find? name scope = some (.array items))
    (deep : depth ≤ (array items).reach (.array items)) :
    (eval (.binary .equal (.ident name) (.ident name)) scope).perform depth world = (.error .tooDeep, world) := by
  match depth with
  | 0 | 1 => rfl
  | depth + 2 =>
    have operand := perform_ident_array found depth
    rw [perform_equal operand operand, perform_compare, if_neg (Nat.not_lt.mpr deep)]

end Request

/-- A host can put an empty array into arrays as often as it likes. -/
theorem Reachable.nested (reachable : Reachable world held) (depth : Nat) :
    ∃ held', Reachable world held' ∧ Value.nested depth ∈ held' := by
  induction depth with
  | zero =>
    have empty : ∀ item ∈ ([] : List Value), item ∈ held := List.forall_mem_nil _
    exact ⟨_, .array reachable empty, List.mem_cons_self⟩
  | succ depth ih =>
    obtain ⟨held', before, given⟩ := ih
    exact ⟨_, .array before (List.forall_mem_singleton.mpr given), List.mem_cons_self⟩

/-- An array that nests as deep as a run may is not found equal to itself: there is no verdict, and a program
that asks for it in a world that binds a name to the array gets an error. -/
theorem equality_is_cut_off_in_deep_array :
    ∃ world held, Reachable world held ∧ world.find? "x" 0 = some (nested depthLimit) ∧
      (Request.compare (nested depthLimit) (nested depthLimit)).perform depthLimit world =
        (.error .tooDeep, world) ∧
      ∀ what, (evaluateTo depthLimit (.binary .equal (.ident "x") (.ident "x")) what 0 world).1 =
        .ok (.error world.nextSerial .tooDeep) := by
  generalize depthLimit = depth
  have root : Reachable ((World.start "").addScope (.empty none)).2 [] := .root (.start "")
  obtain ⟨held, made, given⟩ := root.nested depth
  have found : (((World.start "").addScope (.empty none)).2.bind 0 "x" (nested depth)).find? "x" 0 =
      some (nested depth) := by
    rw [World.find?, World.bind_getElem?, if_pos rfl]
    simp [World.addScope, World.start, Scope.get?_set]
  have cutOff : ∀ world, (Request.compare (nested depth) (nested depth)).perform depth world =
      (.error .tooDeep, world) := by
    intro world
    rw [Request.perform_compare, reach_nested, if_neg (Nat.lt_irrefl depth)]
  refine ⟨_, held, .set made given 0 "x", found, cutOff _, fun what => ?_⟩
  obtain ⟨items, isArray⟩ := nested_eq_array depth
  have deep : depth ≤ (array items).reach (array items) := by
    rw [← isArray, reach_nested]
  rw [evaluateTo, Request.perform_self_comparison (found.trans (congrArg some isArray)) deep]
  rfl

end TreeWalk
