import TreeWalk.Proofs.FunctionFreedom
import TreeWalk.Proofs.RenderedData

/-! Integer expressions are exact.

Numerals, negation and the four operators make expressions to which exact arithmetic on unbounded integers
assigns at most one value. Division is the one operation that may have no result: its quotient is that of a
division whose remainder is smaller than the divisor, and has the sign of the dividend or is zero. Evaluating
such an expression in any scope gives the value that it has. It fails exactly if the divisor of some division
comes to zero, and it leaves the world as it is. All that is in the way of this is the limit on the depth. -/
namespace TreeWalk

/-- The operators of arithmetic. -/
inductive Arithmetic.Operator where
  | plus
  | minus
  | times
  | divide

/-- Expressions of numerals, negation and operators. -/
inductive Arithmetic where
  | numeral (digits : List Char) (isNumeral : Lexeme.IsNumeral digits)
  | negated (operand : Arithmetic)
  | combined (op : Arithmetic.Operator) (left right : Arithmetic)

namespace Arithmetic

namespace Operator

def leaf : Operator → Tree
  | plus => .leaf (.terminal .plus) "+"
  | minus => .leaf (.terminal .minus) "-"
  | times => .leaf (.terminal .star) "*"
  | divide => .leaf (.terminal .slash) "/"

end Operator

/-- The tree of an expression. -/
def tree : Arithmetic → Tree
  | numeral digits _ => .leaf (.terminal .integer) (String.ofList digits)
  | negated operand => .node .unary [.leaf (.terminal .minus) "-", operand.tree]
  | combined op left right => .node .binary [left.tree, op.leaf, right.tree]

/-- What a division comes to: with it there is a remainder that is smaller than the divisor, and that is zero
or has the sign of the dividend. -/
def IsQuotient (a b q : Int) : Prop :=
  ∃ r, a = q * b + r ∧ r.natAbs < b.natAbs ∧ (r = 0 ∨ r.sign = a.sign)

/-- What an operator makes of two numbers. -/
inductive Operator.Gives : Operator → Int → Int → Int → Prop where
  | plus : Gives plus a b (a + b)
  | minus : Gives minus a b (a - b)
  | times : Gives times a b (a * b)
  | divide (quotient : IsQuotient a b q) : Gives divide a b q

/-- The value that an expression has in exact arithmetic. -/
inductive Computes : Arithmetic → Int → Prop where
  | numeral : Computes (numeral digits isNumeral) (Decimal.placeValue digits)
  | negated (computes : Computes operand n) : Computes (negated operand) (-n)
  | combined (first : Computes left a) (second : Computes right b) (gives : op.Gives a b n) :
      Computes (combined op left right) n

/-- One expression is part of another. -/
inductive Inside (part : Arithmetic) : Arithmetic → Prop where
  | here : Inside part part
  | operand (inside : Inside part whole) : Inside part (negated whole)
  | left (inside : Inside part whole) : Inside part (combined op whole other)
  | right (inside : Inside part whole) : Inside part (combined op other whole)

/-- Some division in the expression has a divisor of value zero. -/
def DividesByZero (whole : Arithmetic) : Prop :=
  ∃ dividend divisor, Inside (combined .divide dividend divisor) whole ∧ Computes divisor 0

theorem isQuotient_iff : IsQuotient a b q ↔ b ≠ 0 ∧ q = a.tdiv b := by
  constructor
  · rintro ⟨r, division, smaller, sign⟩
    have notZero : b ≠ 0 := by
      rintro rfl
      exact absurd smaller (Nat.not_lt_zero _)
    refine ⟨notZero, ?_⟩
    have whole : r + b * q = a := by rw [division, Int.mul_comm, Int.add_comm]
    rcases Int.le_total 0 a with positive | negative
    · have r_nonneg : 0 ≤ r := by
        rcases sign with rfl | same
        · exact Int.le_refl 0
        · exact Int.sign_nonneg_iff.mp (same ▸ Int.sign_nonneg_iff.mpr positive)
      exact ((Int.tdiv_tmod_unique positive notZero).mpr ⟨whole, r_nonneg, by omega⟩).1.symm
    · have r_nonpos : r ≤ 0 := by
        rcases sign with rfl | same
        · exact Int.le_refl 0
        · exact Int.sign_nonpos_iff.mp (same ▸ Int.sign_nonpos_iff.mpr negative)
      exact ((Int.tdiv_tmod_unique' negative notZero).mpr ⟨whole, by omega, r_nonpos⟩).1.symm
  · rintro ⟨notZero, rfl⟩
    refine ⟨a.tmod b, (Int.tdiv_mul_add_tmod a b).symm, ?_, ?_⟩
    · rw [Int.natAbs_tmod]
      exact Nat.mod_lt _ (Int.natAbs_pos.mpr notZero)
    · by_cases divides : b ∣ a
      · exact .inl (Int.tmod_eq_zero_of_dvd divides)
      · exact .inr (by rw [Int.sign_tmod, if_neg divides])

namespace Operator

/-- The operator that the leaf of an operator stands for. -/
def binary : Operator → Binary
  | plus => .add
  | minus => .subtract
  | times => .multiply
  | divide => .divide

theorem ofText_leaf (op : Operator) : Binary.ofText op.leaf.operatorText = op.binary := by
  cases op <;> rfl

theorem levels_leaf (op : Operator) : op.leaf.levels = 1 := by
  cases op <;> rfl

theorem Gives.unique {op : Operator} (gives : op.Gives a b n) (gives' : op.Gives a b n') : n = n' := by
  cases gives with
  | plus | minus | times => cases gives'; rfl
  | divide quotient =>
    cases gives' with
    | divide quotient' => rw [(isQuotient_iff.mp quotient).2, (isQuotient_iff.mp quotient').2]

/-- An operator fails between integers only where it divides by zero. -/
theorem binaryOp_cases (op : Operator) (a b : Int) :
    (∃ n, op.Gives a b n ∧ Value.binaryOp op.binary (.int a) (.int b) = .ok (.int n)) ∨
      op = divide ∧ b = 0 ∧ Value.binaryOp op.binary (.int a) (.int b) = .error .divisionByZero := by
  cases op with
  | plus => exact .inl ⟨a + b, .plus, rfl⟩
  | minus => exact .inl ⟨a - b, .minus, rfl⟩
  | times => exact .inl ⟨a * b, .times, rfl⟩
  | divide =>
    by_cases zero : b = 0
    · exact .inr ⟨rfl, zero, by simp [binary, Value.binaryOp, Value.binaryInt, zero]⟩
    · exact .inl ⟨a.tdiv b, .divide (isQuotient_iff.mpr ⟨zero, rfl⟩),
        by simp [binary, Value.binaryOp, Value.binaryInt, zero]⟩

end Operator

theorem Computes.unique (computes : Computes whole n) (computes' : Computes whole n') : n = n' := by
  induction computes generalizing n' with
  | numeral => cases computes'; rfl
  | negated _ ih =>
    cases computes' with
    | negated computes' => rw [ih computes']
  | combined _ _ gives ihFirst ihSecond =>
    cases computes' with
    | combined first second gives' =>
      obtain rfl := ihFirst first
      obtain rfl := ihSecond second
      exact gives.unique gives'

theorem Inside.computes (inside : Inside part whole) (computes : Computes whole n) : ∃ m, Computes part m := by
  induction inside generalizing n with
  | here => exact ⟨n, computes⟩
  | operand _ ih =>
    cases computes with
    | negated computes => exact ih computes
  | left _ ih =>
    cases computes with
    | combined first => exact ih first
  | right _ ih =>
    cases computes with
    | combined _ second => exact ih second

theorem Computes.not_dividesByZero (computes : Computes whole n) : ¬ DividesByZero whole := by
  rintro ⟨dividend, divisor, inside, zero⟩
  obtain ⟨m, divided⟩ := inside.computes computes
  cases divided with
  | combined _ second gives =>
    cases gives with
    | divide quotient => exact (isQuotient_iff.mp quotient).1 (second.unique zero)

theorem DividesByZero.inside (divides : DividesByZero part)
    (around : ∀ division, Inside division part → Inside division whole) : DividesByZero whole := by
  obtain ⟨dividend, divisor, inside, zero⟩ := divides
  exact ⟨dividend, divisor, around _ inside, zero⟩

/-- How an expression ends if so much depth is left: with the value that it has, with the failure of a division
by zero in it, or because it has more levels. -/
inductive Ends (whole : Arithmetic) (depth : Nat) (world : World) : Ending Value → Prop where
  | value (room : whole.tree.levels ≤ depth) (computes : Computes whole n) :
      Ends whole depth world (.ok (.int n), world)
  | divided (divides : DividesByZero whole) :
      Ends whole depth world (.error (.failed world.nextSerial .divisionByZero), world.takeSerial.2)
  | tooDeep (short : depth < whole.tree.levels) : Ends whole depth world (.error .tooDeep, world)

theorem levels_pos (whole : Arithmetic) : 1 ≤ whole.tree.levels := by
  cases whole with
  | numeral => exact Nat.le_refl 1
  | negated | combined => exact Nat.le_add_left 1 _

theorem levels_negated_le {operand : Arithmetic} :
    (negated operand).tree.levels ≤ depth + 1 ↔ operand.tree.levels ≤ depth := by
  have := operand.levels_pos
  simp only [tree, Tree.levels, Tree.levelsOf]
  omega

theorem levels_combined_le {left right : Arithmetic} : (combined op left right).tree.levels ≤ depth + 1 ↔
    left.tree.levels ≤ depth ∧ right.tree.levels ≤ depth := by
  have := left.levels_pos
  simp only [tree, Tree.levels, Tree.levelsOf, op.levels_leaf]
  omega

theorem ofTree_numeral (isNumeral : Lexeme.IsNumeral digits) :
    Code.ofTree (numeral digits isNumeral).tree = .int (Decimal.placeValue digits) := by
  have isText : Lexeme.IsNumeral (String.ofList digits).toList := by rwa [String.toList_ofList]
  have read := Decimal.read?_of_isNumeral isText
  rw [String.toList_ofList, ← Decimal.placeValue_eq_ofDigitChars] at read
  simp only [tree, Code.ofTree, Code.ofLeaf, read]

theorem ofTree_negated (operand : Arithmetic) :
    Code.ofTree (negated operand).tree = .unary .negate (.ofTree operand.tree) := by
  rw [tree, Code.ofTree]
  rfl

theorem ofTree_combined (op : Operator) (left right : Arithmetic) :
    Code.ofTree (combined op left right).tree = .binary op.binary (.ofTree left.tree) (.ofTree right.tree) := by
  rw [tree, Code.ofTree, op.ofText_leaf]

theorem Ends.negated (operandEnds : Ends operand depth world ((Request.eval code scope).perform depth world)) :
    Ends (negated operand) (depth + 1) world
      ((Request.eval (.unary .negate code) scope).perform (depth + 1) world) := by
  simp only [Request.perform, Request.plan, Plan.step, Plan.run, Plan.ask_bind, Plan.done_bind, Plan.carryOut]
  generalize Request.perform depth _ world = ending at operandEnds
  cases operandEnds with
  | value room computes => exact .value (levels_negated_le.mpr room) (.negated computes)
  | divided divides => exact .divided (divides.inside fun _ => .operand)
  | tooDeep short => exact .tooDeep (Nat.lt_of_not_le (by rw [levels_negated_le]; omega))

/-- The operands are evaluated from left to right, and the first that comes to nothing ends it all. -/
theorem Ends.combined (leftEnds : Ends left depth world ((Request.eval code scope).perform depth world))
    (rightEnds : Ends right depth world ((Request.eval code' scope).perform depth world)) :
    Ends (combined op left right) (depth + 1) world
      ((Request.eval (.binary op.binary code code') scope).perform (depth + 1) world) := by
  simp only [Request.perform, Request.plan, Plan.step, Plan.run, Plan.ask_bind, Plan.done_bind, Plan.carryOut]
  generalize Request.perform depth (.eval code scope) world = ending at leftEnds
  cases leftEnds with
  | divided divides => exact .divided (divides.inside fun _ => .left)
  | tooDeep short => exact .tooDeep (Nat.lt_of_not_le (by rw [levels_combined_le]; omega))
  | @value a leftRoom first =>
    dsimp only
    generalize Request.perform depth (.eval code' scope) world = ending at rightEnds
    cases rightEnds with
    | divided divides => exact .divided (divides.inside fun _ => .right)
    | tooDeep short => exact .tooDeep (Nat.lt_of_not_le (by rw [levels_combined_le]; omega))
    | @value b rightRoom second =>
      have atOnce : Plan.combine op.binary (.int a) (.int b) =
          .ofResult (Value.binaryOp op.binary (.int a) (.int b)) :=
        Plan.combine_eq_ofResult fun _ _ _ isArray => by cases isArray
      simp only [atOnce]
      rcases op.binaryOp_cases a b with ⟨n, gives, given⟩ | ⟨rfl, rfl, failed⟩
      · simp only [given]
        exact .value (levels_combined_le.mpr ⟨leftRoom, rightRoom⟩) (.combined first second gives)
      · simp only [failed]
        exact .divided ⟨left, right, .here, second⟩

theorem ends (whole : Arithmetic) (depth scope : Nat) (world : World) :
    Ends whole depth world ((Request.eval (.ofTree whole.tree) scope).perform depth world) := by
  induction whole generalizing depth with
  | numeral digits isNumeral =>
    rw [ofTree_numeral, Value.perform_of_constant rfl]
    split
    case isTrue room => exact .value room .numeral
    case isFalse short => exact .tooDeep (Nat.lt_of_not_le short)
  | negated operand ih =>
    cases depth with
    | zero => exact .tooDeep (levels_pos _)
    | succ depth => exact ofTree_negated operand ▸ (ih depth).negated
  | combined op left right ihLeft ihRight =>
    cases depth with
    | zero => exact .tooDeep (levels_pos _)
    | succ depth => exact ofTree_combined op left right ▸ (ihLeft depth).combined (ihRight depth)

end Arithmetic

/-- Evaluating an expression of numerals, negation and the four operators in any scope, with as much depth as it
has levels, gives an integer exactly if exact arithmetic does, and the same one, and leaves the world alone. It
gives the error of a division by zero exactly if some divisor in it has the value zero, and there is nothing
else that it can give. With less depth it gives that error only with the same reason, and no integer at all. -/
theorem integer_expressions_are_exact (whole : Arithmetic) (depth scope : Nat) (world : World) :
    let report := evaluateTo depth (.ofTree whole.tree) whole.tree.describe scope world
    let divided := (Except.ok (.error world.nextSerial .divisionByZero), world.takeSerial.2)
    let cut := world.log (.depthReached whole.tree.describe)
    (whole.tree.levels ≤ depth →
      (∀ n, report = (.ok (.int n), world) ↔ whole.Computes n) ∧ (report = divided ↔ whole.DividesByZero) ∧
        ((∃ n, report = (.ok (.int n), world)) ∨ report = divided)) ∧
    (depth < whole.tree.levels →
      report = (.ok (.error cut.nextSerial .tooDeep), cut.takeSerial.2) ∨
        report = divided ∧ whole.DividesByZero) ∧
    Failure.divisionByZero.message = "division by zero" := by
  intro report divided cut
  have ends := whole.ends depth scope world
  generalize isEnding : (Request.eval (.ofTree whole.tree) scope).perform depth world = ending at ends
  cases ends with
  | @value n room computes =>
    have gives : report = (.ok (.int n), world) := by
      dsimp only [report]
      rw [evaluateTo, isEnding]
      rfl
    refine ⟨fun _ => ⟨fun n' => ?_, ?_, .inl ⟨n, gives⟩⟩, fun short => absurd room (Nat.not_le.mpr short), rfl⟩
    · rw [gives]
      refine ⟨fun same => ?_, fun computes' => by rw [computes.unique computes']⟩
      cases same
      exact computes
    · rw [gives]
      exact iff_of_false (by simp [divided]) computes.not_dividesByZero
  | divided divides =>
    have fails : report = divided := by
      dsimp only [report]
      rw [evaluateTo, isEnding]
      rfl
    refine ⟨fun _ => ⟨fun n => ?_, iff_of_true fails divides, .inr fails⟩, fun _ => .inr ⟨fails, divides⟩, rfl⟩
    rw [fails]
    exact iff_of_false (by simp [divided]) fun computes => computes.not_dividesByZero divides
  | tooDeep short =>
    refine ⟨fun room => absurd room (Nat.not_le.mpr short), fun _ => .inl ?_, rfl⟩
    dsimp only [report]
    rw [evaluateTo, isEnding]
    rfl

/-- Seven below zero, divided by two, comes to three below zero. Divided by `2 - 2` it is an error, also where
the quotient is an operand of more arithmetic. -/
theorem integer_expressions_are_exact_of_negative_dividend :
    let numeral := fun c isDigit => Arithmetic.numeral [c] ⟨by simp, List.forall_mem_singleton.mpr isDigit⟩
    let two := numeral '2' rfl
    let below := Arithmetic.negated (numeral '7' rfl)
    let half := Arithmetic.combined .divide below two
    let undefined := Arithmetic.combined .plus two (.combined .divide below (.combined .minus two two))
    let world := World.start ""
    (half.tree.levels ≤ depthLimit ∧ half.Computes (-3) ∧
        evaluate half.tree 0 world = (.ok (.int (-3)), world)) ∧
      undefined.tree.levels ≤ depthLimit ∧ undefined.DividesByZero ∧
      evaluate undefined.tree 0 world = (.ok (.error 0 .divisionByZero), world.takeSerial.2) := by
  intro numeral two below half undefined world
  have halfLevels : half.tree.levels ≤ depthLimit := by decide
  have undefinedLevels : undefined.tree.levels ≤ depthLimit := by decide
  have quotient : Arithmetic.IsQuotient (-7) 2 (-3) := ⟨-1, by decide, by decide, .inr rfl⟩
  have computes : half.Computes (-3) := .combined (.negated .numeral) .numeral (.divide quotient)
  have divides : undefined.DividesByZero :=
    ⟨below, .combined .minus two two, .right .here, .combined .numeral .numeral .minus⟩
  have halfReport := (integer_expressions_are_exact half depthLimit 0 world).1 halfLevels
  have undefinedReport := (integer_expressions_are_exact undefined depthLimit 0 world).1 undefinedLevels
  exact ⟨⟨halfLevels, computes, (halfReport.1 (-3)).mpr computes⟩, undefinedLevels, divides,
    undefinedReport.2.1.mpr divides⟩

namespace Arithmetic

/-- One, negated so often. -/
def negations : Nat → Arithmetic
  | 0 => numeral ['1'] ⟨by simp, List.forall_mem_singleton.mpr rfl⟩
  | times + 1 => negated (negations times)

theorem levels_negations (times : Nat) : (negations times).tree.levels = times + 1 := by
  induction times with
  | zero => rfl
  | succ times ih =>
    simp only [negations, tree, Tree.levels, Tree.levelsOf, ih]
    omega

theorem computes_negations (times : Nat) : ∃ n, (negations times).Computes n := by
  induction times with
  | zero => exact ⟨_, .numeral⟩
  | succ times ih =>
    obtain ⟨n, computes⟩ := ih
    exact ⟨-n, .negated computes⟩

end Arithmetic

/-- One below as many minus signs as code may nest has a value, but its evaluation is cut off. -/
theorem integer_expressions_are_cut_off_when_deep :
    let whole := Arithmetic.negations depthLimit
    (∃ n, whole.Computes n) ∧ ¬ whole.DividesByZero ∧
      (evaluate whole.tree 0 (World.start "")).1 = .ok (.error 0 .tooDeep) := by
  intro whole
  obtain ⟨n, computes⟩ := Arithmetic.computes_negations depthLimit
  have short : depthLimit < whole.tree.levels := by
    rw [Arithmetic.levels_negations]
    exact Nat.lt_succ_self _
  refine ⟨⟨n, computes⟩, computes.not_dividesByZero, ?_⟩
  have ends := whole.ends depthLimit 0 (World.start "")
  rw [evaluate, evaluateTo]
  generalize Request.perform depthLimit _ (World.start "") = ending at ends
  cases ends with
  | value room => exact absurd room (Nat.not_le.mpr short)
  | divided divides => exact absurd divides computes.not_dividesByZero
  | tooDeep => rfl

end TreeWalk
