import TreeWalk.Proofs.Comparison
import TreeWalk.Proofs.FrontEnds
import TreeWalk.Proofs.Numerals
import TreeWalk.Proofs.SingleStatements
import TreeWalk.Value.Display

/-! Data that is printed is its own source text.

Integers, booleans and arrays are printed the way they are written in a program, to any depth, and so are
the strings in an array, as long as nothing in them would have to be escaped. What is printed splits into
the lexemes of an expression; the expression has one value, in every scope and every world, which is the
data that was printed. All that is in the way of this is the limit on the depth. -/
namespace TreeWalk

open Grammar

namespace Lexeme

/-- A text splits into lexemes with these contents, wherever it stands. -/
def Splits (cs : List Char) (contents : List (Terminal × String)) : Prop :=
  ∀ place, ∃ lexemes, scanFrom place cs = ⟨lexemes, none⟩ ∧ lexemes.map content = contents

namespace Splits

theorem nil : Splits [] [] := by
  intro place
  exact ⟨[], by rw [scanFrom], rfl⟩

theorem gap (isBlank : isGap g = true) (splits : Splits cs contents) : Splits (g :: cs) contents := by
  intro place
  rw [scanFrom_gap_cons isBlank]
  exact splits _

theorem cons (found : piece? (word ++ rest) = some (.lexeme t, word.length)) (splits : Splits rest contents) :
    Splits (word ++ rest) (Written.content (t, String.ofList word) :: contents) := by
  intro place
  have scanned := scanFrom_of_lexeme found place
  rw [List.take_left, List.drop_left] at scanned
  dsimp only at scanned
  obtain ⟨lexemes, isRest, same⟩ := splits (place.afterAll word)
  rw [isRest] at scanned
  exact ⟨_, scanned, by rw [List.map_cons, same]; rfl⟩

/-- A bracket or a comma is found whatever comes after it. -/
theorem mark (c : Char) (t : Terminal)
    (isMark : (c, t) ∈ [('[', Terminal.leftBracket), (']', .rightBracket), (',', .comma)])
    (splits : Splits rest contents) : Splits (c :: rest) ((t, t.spelling) :: contents) := by
  have found : piece? ([c] ++ rest) = some (.lexeme t, 1) ∧
      Written.content (t, String.ofList [c]) = (t, t.spelling) := by
    simp only [List.mem_cons, Prod.mk.injEq, List.not_mem_nil, or_false] at isMark
    rcases isMark with ⟨rfl, rfl⟩ | ⟨rfl, rfl⟩ | ⟨rfl, rfl⟩ <;> exact ⟨rfl, rfl⟩
  rw [← found.2]
  exact cons found.1 splits

end Splits

/-- A text in which nothing has to be escaped. -/
def Verbatim (cs : List Char) : Prop := ∀ c ∈ cs, c ∉ ['"', '\\', '\n']

theorem Verbatim.isStringTail (verbatim : Verbatim cs) : IsStringTail (cs ++ ['"']) := by
  induction cs with
  | nil => exact .close
  | cons c cs ih =>
    obtain ⟨first, others⟩ := List.forall_mem_cons.mp verbatim
    exact .plain first (ih others)

theorem Verbatim.unescape_eq (verbatim : Verbatim cs) : unescape cs = cs := by
  induction cs with
  | nil => rfl
  | cons c cs ih =>
    obtain ⟨first, others⟩ := List.forall_mem_cons.mp verbatim
    simp only [List.mem_cons, List.not_mem_nil, or_false, not_or] at first
    simp [unescape, ih others, first.2.1]

/-- Quotes around such a text make a string that denotes it. -/
theorem Verbatim.stringValue_eq (verbatim : Verbatim cs) :
    stringValue (String.ofList ('"' :: (cs ++ ['"']))) = String.ofList cs := by
  have inner : unquote ('"' :: (cs ++ ['"'])) = cs := by
    simp [unquote]
  rw [stringValue, String.toList_ofList, inner, verbatim.unescape_eq]

end Lexeme

namespace Tree

/-- The leaf of the shortest numeral for a number. -/
def numeral (n : Nat) : Tree := .leaf (.terminal .integer) (String.ofList (Decimal.digits n))

theorem numeral_isLeaf (n : Nat) : IsLeaf Terminal.Spells atoms (numeral n) := by
  refine ⟨.integer, by simp [atoms], _, ?_, rfl⟩
  rw [Terminal.Spells, String.toList_ofList]
  exact Decimal.isNumeral_digits n

theorem ofTree_numeral (n : Nat) : Code.ofTree (numeral n) = .int n := by
  simp [numeral, Code.ofTree, Code.ofLeaf, Decimal.read?_digits]

/-- The contents of the lexemes that a tree is written with. -/
def contents (tree : Tree) : List (Terminal × String) := tree.written.tokens.map Written.content

/-- A minus goes before a numeral without parentheses. -/
theorem contents_negated (n : Nat) :
    (node .unary [.leaf (.terminal .minus) "-", numeral n]).contents =
      Written.content (.minus, "-") :: (numeral n).contents := by
  simp [contents, written, writtenAll, numeral, Written.layout, Written.atLeast, Terminal.written, Terminal.rung]

end Tree

namespace Value

open Lexeme (Ended Verbatim Splits)
open Written (sign separated)

/-- Data that can be read back from how it is printed in an array: integers, booleans, strings in which
nothing has to be escaped, and arrays of such data. -/
inductive Readable : Value → Prop where
  | int (n : Int) : Readable (int n)
  | bool (b : Bool) : Readable (bool b)
  | str {text : String} (verbatim : Verbatim text.toList) : Readable (str text)
  | array {values : List Value} (items : ∀ item ∈ values, Readable item) : Readable (array values)

/-- How a value is printed as an element of an array. -/
def spelled : Value → String
  | str text => "\"" ++ text ++ "\""
  | value => value.render

theorem renderItems_eq_map (values : List Value) : renderItems values = values.map spelled := by
  induction values with
  | nil => rfl
  | cons value values ih => cases value <;> simp [renderItems, ih, spelled]

mutual

/-- The expression that data is printed as. Other values are printed as no expression. -/
def literal : Value → Tree
  | int n =>
    if n < 0 then .node .unary [.leaf (.terminal .minus) "-", Tree.numeral n.natAbs] else Tree.numeral n.natAbs
  | bool b => if b then .leaf (.terminal .trueWord) "true" else .leaf (.terminal .falseWord) "false"
  | str text => .leaf (.terminal .string) text
  | array values => .node .array (literals values)
  | _ => .absent

/-- The expressions that the elements of an array are printed as. -/
def literals : List Value → List Tree
  | [] => []
  | value :: values => literal value :: literals values

end

theorem literals_eq_map (values : List Value) : literals values = values.map literal := by
  induction values with
  | nil => rfl
  | cons value values ih => rw [literals, ih, List.map_cons]

/-- The expression is well formed. -/
theorem Readable.isExpression {value : Value} (readable : value.Readable) :
    value.literal.IsExpression Terminal.Spells := by
  induction readable with
  | int n =>
    unfold literal
    split
    · exact .unary ⟨.minus, by simp [Tree.unaryOperators], _, rfl, rfl⟩ (.atom (Tree.numeral_isLeaf _))
    · exact .atom (Tree.numeral_isLeaf _)
  | bool b =>
    cases b with
    | false => exact .atom ⟨.falseWord, by simp [Tree.atoms], _, rfl, rfl⟩
    | true => exact .atom ⟨.trueWord, by simp [Tree.atoms], _, rfl, rfl⟩
  | str => exact .atom ⟨.string, by simp [Tree.atoms], _, trivial, rfl⟩
  | array items ih =>
    rw [literal, literals_eq_map]
    exact .array (List.forall_mem_map.mpr ih)

/-- Where the text of a value stands, the lexemes of its expression are found, and then what follows. -/
def Found (value : Value) : Prop :=
  ∀ rest after, Ended rest → Splits rest after →
    Splits (value.spelled.toList ++ rest) (value.literal.contents ++ after)

theorem int_found (n : Int) : Found (int n) := by
  intro rest after ended splits
  have isNumeral : Splits (Decimal.digits n.natAbs ++ rest) ((Tree.numeral n.natAbs).contents ++ after) :=
    .cons (Lexeme.found_of_numeral (Decimal.isNumeral_digits n.natAbs) ended) splits
  have text : (int n).spelled.toList =
      if n < 0 then '-' :: Decimal.digits n.natAbs else Decimal.digits n.natAbs := by
    rw [spelled, render, Decimal.write_eq, Decimal.withSign, String.toList_ofList]
    exact fun _ isString => by cases isString
  rw [text, literal]
  split
  · have minus : Lexeme.piece? (['-'] ++ (Decimal.digits n.natAbs ++ rest)) = some (.lexeme .minus, 1) := rfl
    have negated := Splits.cons minus isNumeral
    rwa [Tree.contents_negated]
  · exact isNumeral

theorem bool_found (b : Bool) : Found (bool b) := by
  intro rest after ended splits
  cases b with
  | false => exact .cons (Lexeme.found_of_fixed (t := .falseWord) (by decide) (by decide) ended) splits
  | true => exact .cons (Lexeme.found_of_fixed (t := .trueWord) (by decide) (by decide) ended) splits

theorem str_found {text : String} (verbatim : Verbatim text.toList) : Found (str text) := by
  intro rest after _ splits
  have isString := Splits.cons (Lexeme.found_of_string verbatim.isStringTail rest) splits
  have written : (str text).spelled.toList = '"' :: (text.toList ++ ['"']) := by
    simp [spelled]
  have same : (str text).literal.contents =
      [Written.content (.string, String.ofList ('"' :: (text.toList ++ ['"'])))] := by
    rw [Written.content, if_pos rfl, verbatim.stringValue_eq, String.ofList_toList]
    simp [Tree.contents, literal, Tree.written, Terminal.written, Written.content, Lexeme.stringValue_quote]
  rw [written, same]
  exact isString

/-- What stands between the parts of a list can be put before each part but the first. -/
theorem intercalate_cons (separator first : List Char) (others : List (List Char)) :
    separator.intercalate (first :: others) = first ++ others.flatMap (separator ++ ·) := by
  induction others generalizing first with
  | nil => simp
  | cons second others ih => rw [List.intercalate_cons_cons, ih, List.flatMap_cons]; simp

/-- Elements after the first one: a comma and a space come before each. -/
theorem others_found {values : List Value} (found : ∀ value ∈ values, Found value) (ended : Ended rest)
    (splits : Splits rest after) :
    let text := values.flatMap fun value => [',', ' '] ++ value.spelled.toList
    let tokens := values.flatMap fun value => sign .comma ++ value.literal.written.tokens
    Ended (text ++ rest) ∧ Splits (text ++ rest) (tokens.map Written.content ++ after) := by
  induction values with
  | nil => exact ⟨ended, splits⟩
  | cons value values ih =>
    obtain ⟨isFirst, others⟩ := List.forall_mem_cons.mp found
    obtain ⟨endedOthers, splitsOthers⟩ := ih others
    refine ⟨⟨rfl, by simp⟩, ?_⟩
    have isSpace : Lexeme.isGap ' ' = true := by decide
    have element := Splits.mark ',' .comma (by simp) (.gap isSpace (isFirst _ _ endedOthers splitsOthers))
    simpa [Tree.contents, sign, Written.content] using element

theorem elements_found {values : List Value} (found : ∀ value ∈ values, Found value) (ended : Ended rest)
    (splits : Splits rest after) :
    Splits ([',', ' '].intercalate (values.map fun value => value.spelled.toList) ++ rest)
      ((separated (Tree.writtenAll (literals values))).map Written.content ++ after) := by
  cases values with
  | nil => exact splits
  | cons value values =>
    obtain ⟨isFirst, others⟩ := List.forall_mem_cons.mp found
    obtain ⟨endedOthers, splitsOthers⟩ := others_found others ended splits
    have elements := isFirst _ _ endedOthers splitsOthers
    rw [List.map_cons, intercalate_cons, literals, literals_eq_map, Tree.writtenAll, separated,
      Tree.writtenAll_eq_map]
    simpa [Tree.contents, List.flatMap_map] using elements

theorem array_found {values : List Value} (found : ∀ value ∈ values, Found value) : Found (array values) := by
  intro rest after _ splits
  have closing := Splits.mark ']' .rightBracket (by simp) splits
  have ended : Ended (']' :: rest) := ⟨rfl, by simp⟩
  have opening := Splits.mark '[' .leftBracket (by simp) (elements_found found ended closing)
  have text : (array values).spelled.toList =
      '[' :: ([',', ' '].intercalate (values.map fun value => value.spelled.toList) ++ [']']) := by
    simp [spelled, render, renderItems_eq_map, String.toList_intercalate, Function.comp_def]
  rw [text, literal]
  simpa [Tree.contents, Tree.written, Written.layout, Written.closed, sign, Written.content] using opening

theorem Readable.found {value : Value} (readable : value.Readable) : Found value := by
  induction readable with
  | int n => exact int_found n
  | bool b => exact bool_found b
  | str verbatim => exact str_found verbatim
  | array _ ih => exact array_found ih

mutual

/-- How deep the expression of data nests. -/
def levels : Value → Nat
  | int n => if n < 0 then 2 else 1
  | array values => levelsOf values + 1
  | _ => 1

/-- How deep the expressions of data in a row nest. -/
def levelsOf : List Value → Nat
  | [] => 0
  | value :: values => max (levels value) (levelsOf values)

end

/-- The expression of a value is evaluated to the value, and the world stays as it is, unless the expression
nests deeper than allowed. -/
def Evaluates (value : Value) : Prop :=
  ∀ depth scope world, (Request.eval (.ofTree value.literal) scope).perform depth world =
    (if value.levels ≤ depth then .ok value else .error .tooDeep, world)

theorem perform_of_constant {code : Code} {value : Value} (isPlan : (Request.eval code scope).plan = .done value)
    (depth : Nat) (world : World) : (Request.eval code scope).perform depth world =
      (if 1 ≤ depth then .ok value else .error .tooDeep, world) := by
  cases depth with
  | zero => rfl
  | succ depth =>
    rw [Request.perform, isPlan, if_pos (Nat.le_add_left 1 depth)]
    rfl

/-- The opposite of a numeral is one level above the numeral. -/
theorem perform_negated (n : Int) (depth scope : Nat) (world : World) :
    (Request.eval (.unary .negate (.int n)) scope).perform depth world =
      (if 2 ≤ depth then .ok (int (-n)) else .error .tooDeep, world) := by
  cases depth with
  | zero => rfl
  | succ depth =>
    have below : (Request.eval (.int n) scope).perform depth world = _ := perform_of_constant rfl depth world
    simp only [Request.perform, Request.plan, Plan.step, Plan.run, Plan.ask_bind, Plan.done_bind, Plan.carryOut,
      below, Nat.succ_le_succ_iff]
    by_cases enough : 1 ≤ depth
    · simp only [if_pos enough]
      rfl
    · simp only [if_neg enough]

theorem int_evaluates (n : Int) : Evaluates (int n) := by
  intro depth scope world
  by_cases negative : n < 0
  · have opposite : -(n.natAbs : Int) = n := by omega
    have minus : Unary.ofText (Tree.leaf (.terminal .minus) "-").operatorText = .negate := rfl
    have performed := perform_negated n.natAbs depth scope world
    rw [opposite] at performed
    simp only [literal, levels, if_pos negative, Code.ofTree, Tree.ofTree_numeral, minus]
    exact performed
  · have itself : (n.natAbs : Int) = n := by omega
    simp only [literal, levels, if_neg negative, Tree.ofTree_numeral, itself]
    exact perform_of_constant rfl depth world

/-- Elements are evaluated one after the other, each with the depth that all of them have. -/
theorem collect_elements {values : List Value} (evaluates : ∀ value ∈ values, Evaluates value)
    (depth scope : Nat) (before : List Value) (world : World) :
    (Plan.collectAfter scope before (Code.ofTrees (literals values))).carryOut (Request.perform depth) world =
      (if levelsOf values ≤ depth then .ok (before.reverse ++ values) else .error .tooDeep, world) := by
  induction values generalizing before with
  | nil => simp [literals, Code.ofTrees, Plan.collectAfter, Plan.carryOut, levelsOf]
  | cons value values ih =>
    obtain ⟨isFirst, others⟩ := List.forall_mem_cons.mp evaluates
    simp only [literals, Code.ofTrees, Plan.collectAfter, Plan.run, Plan.ask_bind, Plan.done_bind, Plan.carryOut,
      isFirst depth scope world, levelsOf, Nat.max_le]
    by_cases enough : value.levels ≤ depth
    · simp [enough, ih others]
    · simp [enough]

theorem array_evaluates {values : List Value} (evaluates : ∀ value ∈ values, Evaluates value) :
    Evaluates (array values) := by
  intro depth scope world
  cases depth with
  | zero => simp [Request.perform, levels]
  | succ depth =>
    have collected := collect_elements evaluates depth scope [] world
    simp only [literal, Code.ofTree, Request.perform, Request.plan, Plan.step, Plan.collect, bind_assoc,
      Plan.carryOut_bind, collected, levels, Nat.add_le_add_iff_right]
    by_cases enough : levelsOf values ≤ depth
    · simp [enough, Plan.settle, Plan.carryOut]
    · simp [enough]

theorem Readable.evaluates {value : Value} (readable : value.Readable) : Evaluates value := by
  induction readable with
  | int n => exact int_evaluates n
  | bool b =>
    intro depth scope world
    cases b <;> exact perform_of_constant rfl depth world
  | str =>
    intro depth scope world
    exact perform_of_constant rfl depth world
  | array _ ih => exact array_evaluates ih

mutual

/-- Every value is equal to itself. -/
theorem equal_self (value : Value) : equal value value = true := by
  cases value with
  | array values => rw [equal, equalAll_self values]
  | _ => simp [equal]

theorem equalAll_self (values : List Value) : equalAll values values = true := by
  cases values with
  | nil => rfl
  | cons value values => rw [equalAll, equal_self value, equalAll_self values, Bool.and_self]

end

mutual

/-- Data does not nest deeper than its expression. -/
theorem nesting_le_levels (value : Value) : value.nesting ≤ value.levels := by
  cases value with
  | array values =>
    rw [nesting, levels]
    exact Nat.succ_le_succ (nestingOf_le_levelsOf values)
  | _ => exact Nat.zero_le _

theorem nestingOf_le_levelsOf (values : List Value) : nestingOf values ≤ levelsOf values := by
  cases values with
  | nil => exact Nat.le_refl _
  | cons value values =>
    have first := nesting_le_levels value
    have rest := nestingOf_le_levelsOf values
    rw [nestingOf, levelsOf]
    omega

end

/-- Data whose printed text is a program. A string is printed without quotes, so only arrays may hold one. -/
def IsData (value : Value) : Prop := value.Readable ∧ value.kind ≠ .string

theorem spelled_of_ne {value : Value} (notString : value.kind ≠ .string) : value.spelled = value.render := by
  cases value with
  | str => exact absurd rfl notString
  | _ => rfl

theorem Readable.not_signal {value : Value} (readable : value.Readable) :
    value.isSignal = false ∧ value.unwrap = value := by
  cases readable <;> exact ⟨rfl, rfl⟩

theorem Readable.begins {value : Value} (readable : value.Readable) :
    value.literal.written.tokens.head?.map Prod.fst ≠ some .ifWord := by
  cases readable with
  | int n =>
    unfold literal
    split <;> simp [Tree.written, Tree.writtenAll, Written.layout, Tree.numeral]
  | bool b => cases b <;> simp [literal, Tree.written]
  | str => simp [literal, Tree.written]
  | array => simp [literal, Tree.written, Written.layout, Written.closed, sign]

end Value

variable {states : Array State} {value : Value}

/-- The text of data parses to its expression. -/
theorem derive_render (belongs : Belongs states) (data : value.IsData) :
    (derive states (Lexeme.scan value.render)).map Derivation.tree =
      .ok (.node .program [.node .evaluation [value.literal]]) := by
  obtain ⟨readable, notString⟩ := data
  obtain ⟨lexemes, scanned, same⟩ := readable.found [] [] trivial .nil .start
  rw [List.append_nil, Value.spelled_of_ne notString] at scanned
  rw [List.append_nil] at same
  have plain : Writes [.p .plainExpression] value.literal.written.tokens [value.literal] :=
    readable.isExpression.expressed.expression.plain readable.begins
  refine (derive_tree_iff_yields belongs _ _).mpr ?_
  rw [Lexeme.scan, scanned]
  exact ⟨rfl, _, (plain.yields same).evaluated, rfl⟩

namespace Value

end Value

end TreeWalk
