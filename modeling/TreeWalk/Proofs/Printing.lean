import TreeWalk.Proofs.ParserCorrectness
import TreeWalk.Proofs.Writing

/-! Parsing undoes writing.

Every well-formed expression is written on its rung, every well-formed statement so that another can
follow it. So every well-formed tree comes back from the text that is written for it, and the well-formed
trees are exactly those that the parser makes. Because lexemes come from an expression in one way only,
none of the parentheses can be left out. -/
namespace TreeWalk

open Grammar

/-- A tree as the parser makes them: statements and expressions where they belong, and leaves with texts
that lexemes of their kind can have. -/
def Tree.WellFormed (tree : Tree) : Prop := tree.IsProgram Terminal.Spells

open Written (sign separated)

namespace Tree

/-- What is written for a tree stands for it as an expression on its rung, by a rule of this rung. Below
the highest rung this is a rule that makes a node, and not one that passes a higher rung on. -/
structure Expressed (tree : Tree) : Prop where
  top : tree.written.rung ≤ 6
  own : ∃ body shape parts, ⟨.ladder tree.written.rung, body, shape⟩ ∈ rules ∧
    (tree.written.rung < 6 → shape ≠ .splice) ∧ Writes body tree.written.tokens parts ∧
    shape.build parts = [tree]

namespace Expressed

theorem of_rung (rung : Nat) (shape : Shape) (isRung : tree.written.rung = rung) (within : rung ≤ 6)
    (known : ⟨.ladder rung, body, shape⟩ ∈ rules) (proper : rung < 6 → shape ≠ .splice)
    (writes : Writes body tree.written.tokens parts) (built : shape.build parts = [tree]) :
    tree.Expressed := by
  subst isRung
  exact ⟨within, body, shape, parts, known, proper, writes, built⟩

/-- The highest rung only passes on what one of its rules takes. -/
theorem of_atom (phrase : Phrase) (known : ⟨.atom, [.p phrase], .splice⟩ ∈ rules)
    (isTop : tree.written.rung = 6) (writes : Writes [.p phrase] tree.written.tokens [tree]) :
    tree.Expressed :=
  .of_rung 6 .splice isTop (by decide) known (by decide) writes rfl

theorem writes (expressed : tree.Expressed) :
    Writes [.p (.ladder tree.written.rung)] tree.written.tokens [tree] := by
  obtain ⟨body, shape, parts, known, _, writes, built⟩ := expressed.own
  exact .of_rule shape known writes built

theorem expression (expressed : tree.Expressed) : Writes [.p .expression] tree.written.tokens [tree] :=
  .pass (by decide) (expressed.writes.descend (Nat.zero_le _) expressed.top)

/-- Where a rung is asked for, an expression is written with parentheses if it needs them. -/
theorem atLeast (expressed : tree.Expressed) (rung : Nat) (within : rung ≤ 6) :
    Writes [.p (.ladder rung)] (tree.written.atLeast rung) [tree] := by
  unfold Written.atLeast
  split
  · rename_i high
    exact expressed.writes.descend high expressed.top
  · exact expressed.expression.parenthesize.descend within (Nat.le_refl 6)

end Expressed

/-- A simple statement is a statement with a semicolon after it. -/
theorem writes_of_simple (phrase : Phrase) (known : ⟨.simple, [.p phrase], .splice⟩ ∈ rules)
    (writes : Writes [.p phrase] tokens trees) : Writes [.p .statement] (tokens ++ sign .semicolon) trees := by
  have ended := (Writes.pass known writes).cons (.of_sign .semicolon (by decide))
  rw [List.append_nil] at ended
  exact .pass (by decide) ended

theorem writes_evaluation (writes : Writes [.p .plainExpression] tokens [tree]) :
    Writes [.p .statement] (tokens ++ sign .semicolon) [.node .evaluation [tree]] :=
  writes_of_simple .evaluation (by decide) (.of_rule (.wrap .evaluation) (by decide) writes rfl)

/-- An expression as a statement. -/
theorem Expressed.asStatement (expressed : tree.Expressed) :
    Writes [.p .statement] tree.written.asStatement [.node .evaluation [tree]] := by
  unfold Written.asStatement
  split
  · rename_i plain
    exact writes_evaluation (expressed.expression.plain (by simpa [Written.beginsWithIf] using plain))
  rename_i begins
  split
  · rename_i isTop
    have atom := expressed.writes
    rw [isTop] at atom
    have branch := atom.branch (by simpa [Written.beginsWithIf] using begins)
    have conditional : Writes [.p .conditional] tree.written.tokens [.node .evaluation [tree]] :=
      .of_rule (.wrap .evaluation) (by decide) branch rfl
    exact .pass (by decide) conditional
  · have atom := expressed.expression.parenthesize.descend (Nat.zero_le 6) (Nat.le_refl 6)
    have inside : Writes [.p .expression] (Written.parenthesized tree.written.tokens) [tree] :=
      .pass (by decide) atom
    exact writes_evaluation (inside.plain (by simp [Written.parenthesized, sign]))

theorem IsName.writes (isName : IsName Terminal.Spells tree) :
    Writes [.t .identifier] tree.written.tokens [tree] := by
  obtain ⟨kind, isIdentifier, text, spells, rfl⟩ := isName
  rw [List.mem_singleton.mp isIdentifier] at spells ⊢
  exact .of_kept rfl spells

/-- Arguments, if there are any. -/
theorem writes_arguments (items : ∀ item ∈ trees, Expressed item) :
    trees = [] ∨ Writes [.p .arguments] (separated (writtenAll trees)) trees := by
  refine Writes.listed (.p .expression) .arguments .moreArguments ?_ ?_ ?_ ?_ fun item member => ?_
  iterate 4 decide
  exact (items item member).expression

/-- Parameters, if there are any. -/
theorem writes_parameters (names : ∀ name ∈ trees, IsName Terminal.Spells name) :
    trees = [] ∨ Writes [.p .parameters] (separated (writtenAll trees)) trees := by
  refine Writes.listed (.t .identifier) .parameters .moreParameters ?_ ?_ ?_ ?_ fun name member => ?_
  iterate 4 decide
  exact (names name member).writes

theorem writes_statements
    (steps : ∀ statement ∈ trees, Writes [.p .statement] statement.written.tokens [statement]) :
    Writes [.p .statements] ((writtenAll trees).flatMap Written.tokens) trees := by
  rw [writtenAll_eq_map, List.flatMap_map]
  cases trees with
  | nil => exact .pass (by decide) .nil
  | cons tree rest =>
    have several := Writes.repeated .someStatements [.p .statement] (by decide) (by decide) steps
    exact .pass (by decide) several

/-- What is written for a tree stands for it as a block. -/
def Blocked (tree : Tree) : Prop := Writes [.p .block] tree.written.tokens [tree]

namespace Expressed

theorem atom (isAtom : IsLeaf Terminal.Spells atoms tree) : tree.Expressed := by
  obtain ⟨kind, member, text, spells, rfl⟩ := isAtom
  have atomic : ∀ kind ∈ atoms,
      kind.rung = 6 ∧ kind.kept = true ∧ ⟨.plainAtom, [.t kind], .splice⟩ ∈ rules := by decide
  obtain ⟨isTop, kept, known⟩ := atomic kind member
  exact .of_atom .plainAtom (by decide) isTop (.pass known (.of_kept kept spells))

theorem array (items : ∀ item ∈ elements, Expressed item) : Expressed (.node .array elements) := by
  have opened := Writes.of_sign .leftBracket (by decide)
  have ended := Writes.of_sign .rightBracket (by decide)
  have writes : Writes [.p .array] (node .array elements).written.tokens [.node .array elements] := by
    rcases writes_arguments items with rfl | arguments
    · exact .of_rule (.wrap .array) (by decide) (opened.cons ended) rfl
    · refine .of_rule (.wrap .array) (by decide) (opened.cons (arguments.cons ended)) ?_
      simp [Shape.build]
  exact .of_atom .plainAtom (by decide) rfl (.pass (by decide) writes)

theorem function (names : ∀ param ∈ params, IsName Terminal.Spells param) (block : Blocked body) :
    Expressed (.node .function [.node .params params, body]) := by
  have word := Writes.of_sign .functionWord (by decide)
  have opened := Writes.of_sign .leftParen (by decide)
  have ended := Writes.of_sign .rightParen (by decide)
  have writes : Writes [.p .function] (node .function [.node .params params, body]).written.tokens
      [.node .function [.node .params params, body]] := by
    rcases writes_parameters names with rfl | parameters
    · exact .of_rule .function (by decide) (word.cons (opened.cons (ended.cons block))) rfl
    · refine .of_rule .function (by decide) (word.cons (opened.cons (parameters.cons (ended.cons block)))) ?_
      simp [Shape.build]
  exact .of_atom .plainAtom (by decide) rfl (.pass (by decide) writes)

theorem call (called : Expressed callee) (passed : ∀ arg ∈ args, Expressed arg) :
    Expressed (.node .call [callee, .node .args args]) := by
  have first := called.atLeast 5 (by decide)
  have opened := Writes.of_sign .leftParen (by decide)
  have ended := Writes.of_sign .rightParen (by decide)
  rcases writes_arguments passed with rfl | arguments
  · exact .of_rung 5 .call rfl (by decide) (by decide) (by decide) (first.cons (opened.cons ended)) rfl
  · have parts := first.cons (opened.cons (arguments.cons ended))
    refine .of_rung 5 .call rfl (by decide) (by decide) (by decide) parts ?_
    simp [Shape.build]

theorem index (left : Expressed whole) (right : Expressed place) :
    Expressed (.node .index [whole, place]) := by
  have first := left.atLeast 5 (by decide)
  have opened := Writes.of_sign .leftBracket (by decide)
  have ended := Writes.of_sign .rightBracket (by decide)
  have parts := first.cons (opened.cons (right.expression.cons ended))
  exact .of_rung 5 (.wrap .index) rfl (by decide) (by decide) (by decide) parts rfl

/-- The right operand of an operator stands one rung higher than the left one. -/
theorem binary (left : Expressed first) (between : IsLeaf Terminal.Spells binaryOperators op)
    (right : Expressed second) : Expressed (.node .binary [first, op, second]) := by
  obtain ⟨kind, member, text, spells, rfl⟩ := between
  have operators : ∀ kind ∈ binaryOperators, kind.rung < 6 ∧ kind.kept = true ∧
      ⟨.ladder kind.rung, [.p (.ladder kind.rung), .t kind, .p (.ladder (kind.rung + 1))], .wrap .binary⟩
        ∈ rules := by decide
  obtain ⟨low, kept, known⟩ := operators kind member
  have operands := (left.atLeast _ (Nat.le_of_lt low)).cons
    ((Writes.of_kept kept spells).cons (right.atLeast _ low))
  exact .of_rung _ (.wrap .binary) rfl (Nat.le_of_lt low) known nofun operands rfl

theorem unary (before : IsLeaf Terminal.Spells unaryOperators op) (right : Expressed operand) :
    Expressed (.node .unary [op, operand]) := by
  obtain ⟨kind, member, text, spells, rfl⟩ := before
  have operators : ∀ kind ∈ unaryOperators,
      kind.kept = true ∧ ⟨.unary, [.t kind, .p .unary], .wrap .unary⟩ ∈ rules := by decide
  obtain ⟨kept, known⟩ := operators kind member
  have only := right.atLeast 4 (by decide)
  have parts := (Writes.of_kept kept spells).cons only
  exact .of_rung 4 (.wrap .unary) rfl (by decide) known nofun parts rfl

theorem branch (tested : Expressed condition) (block : Blocked consequence) :
    Expressed (.node .branch [condition, consequence, .absent]) := by
  have word := Writes.of_sign .ifWord (by decide)
  have opened := Writes.of_sign .leftParen (by decide)
  have ended := Writes.of_sign .rightParen (by decide)
  have parts := word.cons (opened.cons (tested.expression.cons (ended.cons (block.cons .nil))))
  exact .of_atom .branch (by decide) rfl (.of_rule .branch (by decide) parts rfl)

theorem branchElse (tested : Expressed condition) (block : Blocked consequence)
    (other : Blocked alternative) (filled : alternative.written.tokens.isEmpty = false) :
    Expressed (.node .branch [condition, consequence, alternative]) := by
  have word := Writes.of_sign .ifWord (by decide)
  have opened := Writes.of_sign .leftParen (by decide)
  have ended := Writes.of_sign .rightParen (by decide)
  have otherwise := (Writes.of_sign .elseWord (by decide)).cons other
  have last : alternative.written.unlessEmpty .elseWord = sign .elseWord ++ alternative.written.tokens := by
    simp [Written.unlessEmpty, filled]
  rw [← last] at otherwise
  have parts := word.cons (opened.cons (tested.expression.cons (ended.cons (block.cons otherwise))))
  exact .of_atom .branch (by decide) rfl (.of_rule .branch (by decide) parts rfl)

end Expressed

/-- A loop, with or without a name for the index. -/
theorem writes_loop (origin : IsName Terminal.Spells source) (each : IsName Terminal.Spells element)
    (counted : index = .absent ∨ IsName Terminal.Spells index) (block : Blocked body) :
    Writes [.p .statement] (node .loop [source, element, index, body]).written.tokens
      [.node .loop [source, element, index, body]] := by
  have word := Writes.of_sign .forWord (by decide)
  have opened := Writes.of_sign .leftParen (by decide)
  have among := Writes.of_sign .inWord (by decide)
  have ended := Writes.of_sign .rightParen (by decide)
  have header := among.cons (origin.writes.cons (ended.cons block))
  have loop : Writes [.p .loop] (node .loop [source, element, index, body]).written.tokens
      [.node .loop [source, element, index, body]] := by
    rcases counted with rfl | isName
    · exact .of_rule .loop (by decide) (word.cons (opened.cons (each.writes.cons header))) rfl
    · have second := (Writes.of_sign .comma (by decide)).cons isName.writes
      obtain ⟨text, rfl⟩ := isName.text
      have parts := word.cons (opened.cons (each.writes.cons (second.append header)))
      exact .of_rule .loop (by decide) parts rfl
  exact .pass (by decide) loop

mutual

/-- Every expression is written on its rung. -/
theorem IsExpression.expressed {tree : Tree} : IsExpression Terminal.Spells tree → tree.Expressed
  | .atom isAtom => .atom isAtom
  | .array items => .array fun item member => (items item member).expressed
  | .function names isBlock => .function names isBlock.writes
  | .call called passed => .call called.expressed fun arg member => (passed arg member).expressed
  | .index left right => .index left.expressed right.expressed
  | .binary left between right => .binary left.expressed between right.expressed
  | .unary before right => .unary before right.expressed
  | .branch tested isBlock => .branch tested.expressed isBlock.writes
  | .branchElse tested isBlock other => by
    have alternative := other.writes
    cases other with
    | block => exact .branchElse tested.expressed isBlock.writes alternative rfl

/-- Every statement is written so that another can follow it. -/
theorem IsStatement.writes {tree : Tree} :
    IsStatement Terminal.Spells tree → Writes [.p .statement] tree.written.tokens [tree]
  | .evaluation value => value.expressed.asStatement
  | .declaration target value => by
    have equals := (Writes.of_sign .assign (by decide)).cons value.expressed.expression
    have parts := (Writes.of_sign .varWord (by decide)).cons (target.writes.cons equals)
    exact writes_of_simple .declaration (by decide) (.of_rule (.wrap .declaration) (by decide) parts rfl)
  | .assignment target value => by
    have equals := (Writes.of_sign .assign (by decide)).cons value.expressed.expression
    have parts := target.writes.cons equals
    exact writes_of_simple .assignment (by decide) (.of_rule (.wrap .assignment) (by decide) parts rfl)
  | .returning value => by
    have parts := (Writes.of_sign .returnWord (by decide)).cons value.expressed.expression
    exact writes_of_simple .returning (by decide) (.of_rule (.wrap .returning) (by decide) parts rfl)
  | .loop origin each counted isBlock => writes_loop origin each counted isBlock.writes

theorem IsBlock.writes {tree : Tree} : IsBlock Terminal.Spells tree → tree.Blocked
  | .block steps => by
    have statements := writes_statements fun statement member => (steps statement member).writes
    have ended := statements.cons (.of_sign .rightBrace (by decide))
    have parts := (Writes.of_sign .leftBrace (by decide)).cons ended
    exact .of_rule (.wrap .block) (by decide) parts (by simp [Shape.build])

end

end Tree

namespace Grammar

variable {states : Array State}

/-- Lexemes come from an expression by one derivation at most, since they do so after `return`. -/
theorem expression_unique (belongs : Belongs states) (first : Derives (.p .expression) lexemes derivation)
    (second : Derives (.p .expression) lexemes derivation') : derivation = derivation' := by
  let word : Lexeme := ⟨.returnWord, "return", .start, .start⟩
  have up : ∀ head part shape inner, ⟨head, [.p part], shape⟩ ∈ rules →
      Derives (.p part) ([word] ++ lexemes) inner →
      Derives (.p head) ([word] ++ lexemes) (.node ⟨head, [.p part], shape⟩ [inner]) :=
    fun head part shape inner known derives => .node known (.singleton derives)
  have isRule : ⟨.returning, [.t .returnWord, .p .expression], .wrap .returning⟩ ∈ rules := by decide
  have program := fun inner (derives : Derives (.p .expression) lexemes inner) =>
    up .start .statements (.wrap .program) _ (by decide) (up .statements .simple .splice _ (by decide)
      (up .simple .returning .splice _ (by decide) (.node isRule (.cons (.leaf word) (.singleton derives)))))
  have same := derivation_unique belongs (program _ first) (program _ second)
  simpa using same

theorem ladder_unique (belongs : Belongs states) (within : rung ≤ 6)
    (first : Derives (.p (.ladder rung)) lexemes derivation)
    (second : Derives (.p (.ladder rung)) lexemes derivation') : derivation = derivation' := by
  induction rung generalizing derivation derivation' with
  | zero =>
    have known : ⟨.expression, [.p (.ladder 0)], .splice⟩ ∈ rules := by decide
    simpa using expression_unique belongs (.node known (.singleton first)) (.node known (.singleton second))
  | succ rung ih =>
    have known := ladder_rules rung within
    simpa using ih (Nat.le_of_succ_le within) (.node known (.singleton first)) (.node known (.singleton second))

theorem Derives.descend (derives : Derives (.p (.ladder high)) lexemes derivation) (below : low ≤ high)
    (top : high ≤ 6) : ∃ derivation', Derives (.p (.ladder low)) lexemes derivation' := by
  induction below generalizing derivation with
  | refl => exact ⟨derivation, derives⟩
  | @step rung _ ih => exact ih (.node (ladder_rules rung top) (.singleton derives)) (Nat.le_of_succ_le top)

/-- Without parentheses, the lexemes of an expression do not come from a rung above its own: they would
come from its own rung in two ways. -/
theorem not_derives_above {tree : Tree} (belongs : Belongs states) (expressed : tree.Expressed)
    (above : tree.written.rung < rung) (within : rung ≤ 6)
    (same : lexemes.map Lexeme.token = tree.written.tokens) : ¬ Derives (.p (.ladder rung)) lexemes derivation := by
  intro derives
  obtain ⟨body, shape, parts, known, proper, writes, _⟩ := expressed.own
  obtain ⟨children, derivesOwn, _⟩ := writes.derived lexemes same
  have low : tree.written.rung < 6 := Nat.lt_of_lt_of_le above within
  obtain ⟨next, derivesNext⟩ := derives.descend above within
  have twice := ladder_unique belongs (Nat.le_of_lt low) (.node known derivesOwn)
    (.node (ladder_rules _ low) (.singleton derivesNext))
  simp only [Derivation.node.injEq, Rule.mk.injEq] at twice
  exact proper low twice.1.2.2

end Grammar

/-- A program that is written out comes back. -/
theorem derive_print (belongs : Belongs states) (wellFormed : tree.WellFormed) :
    (derive states (Lexeme.scan tree.print)).map Derivation.tree = .ok tree := by
  obtain ⟨statements, steps, rfl⟩ := wellFormed
  have body := Tree.writes_statements fun statement member => (steps statement member).writes
  have writes : Writes [.p .start] (Tree.node .program statements).written.tokens
      [.node .program statements] := .of_rule (.wrap .program) (by decide) body rfl
  obtain ⟨lexemes, scanned, same⟩ := Lexeme.scanFrom_spaced writes.stand .start
  have split : Lexeme.scan (Tree.node .program statements).print = ⟨lexemes, none⟩ := by
    rw [Lexeme.scan, Tree.print, String.toList_ofList, scanned]
  obtain ⟨derivations, derives, made⟩ := writes.derived lexemes same
  obtain ⟨derivation, derived, sameTrees⟩ := derives.passed
  refine (derive_tree_iff belongs _ _).mpr ⟨by rw [split], derivation, by rw [split]; exact derived, ?_⟩
  rw [Derivation.tree, sameTrees, made]
  rfl

/-- The trees of the parser are well formed. -/
theorem wellFormed_of_derive (belongs : Belongs states)
    (derived : (derive states (Lexeme.scan source)).map Derivation.tree = .ok tree) : tree.WellFormed := by
  obtain ⟨_, derivation, derives, rfl⟩ := (derive_tree_iff belongs _ tree).mp derived
  exact derives.isProgram (Lexeme.scan_spells source)

/-- The parser makes exactly the well-formed trees, and undoes the writing of each. Parentheses are written
only where they are needed: without them, the lexemes of an expression do not come from a higher rung than
its own, nor from a statement's expression if they begin with `if`. -/
theorem parse_inverts_print :
    (∀ tree, (∃ source, parse source = .ok tree) ↔ tree.WellFormed) ∧
    (∀ tree, tree.WellFormed → parse tree.print = .ok tree) ∧
    ∀ (tree : Tree) lexemes, tree.IsExpression Terminal.Spells → lexemes.map Lexeme.token = tree.written.tokens →
      (∀ rung ≤ 6, tree.written.rung < rung →
        ∀ derivation, ¬ Derives (.p (.ladder rung)) lexemes derivation) ∧
      (tree.written.beginsWithIf = true → ∀ derivation, ¬ Derives (.p .plainExpression) lexemes derivation) := by
  have printed : ∀ tree, tree.WellFormed → parse tree.print = .ok tree :=
    fun tree wellFormed => derive_print automaton_belongs wellFormed
  refine ⟨fun tree => ⟨?_, fun wellFormed => ⟨tree.print, printed tree wellFormed⟩⟩, printed, ?_⟩
  · rintro ⟨source, parsed⟩
    exact wellFormed_of_derive automaton_belongs parsed
  · intro tree lexemes isExpression same
    refine ⟨fun rung within above derivation => ?_, fun begins derivation derives => ?_⟩
    · exact not_derives_above automaton_belongs isExpression.expressed above within same
    · have notIf := (DerivesAll.singleton derives).not_beginWithIf (plain_openings _ (by decide))
      exact notIf ((beginWithIf_iff same).mpr (by simpa [Written.beginsWithIf] using begins))

/-- A call of a branch, as a statement, with a subtraction on the right of another and a text that has to
be escaped: each pair of parentheses and each backslash is needed. -/
theorem parse_inverts_print_of_called_branch :
    let name : String → Tree := .leaf (.terminal .identifier)
    let numeral : String → Tree := .leaf (.terminal .integer)
    let minus : Tree := .leaf (.terminal .minus) "-"
    let branch : Tree := .node .branch [name "a", .node .block [.node .evaluation [name "b"]], .absent]
    let right : Tree := .node .binary [numeral "2", minus, numeral "3"]
    let nested : Tree := .node .binary [numeral "1", minus, right]
    let call : Tree := .node .call [branch, .node .args [nested, .leaf (.terminal .string) "say \"hi\"\n"]]
    let program : Tree := .node .program [.node .evaluation [call]]
    program.WellFormed ∧
      (∀ lexemes derivation, lexemes.map Lexeme.token = right.written.tokens →
        ¬ Derives (.p .product) lexemes derivation) ∧
      parse "( if ( a ) \x7b b ; \x7d ( 1 - ( 2 - 3 ) , \"say \\\"hi\\\"\\n\" ) ) ; " = .ok program := by
  intro name numeral minus branch right nested call program
  have isName : ∀ c, Lexeme.startsWord c = true →
      Tree.IsExpression Terminal.Spells (name (String.ofList [c])) := fun c starts =>
    .atom ⟨.identifier, by decide, _, Lexeme.spells_letter starts, rfl⟩
  have isNumeral : ∀ c, c.isDigit = true →
      Tree.IsExpression Terminal.Spells (numeral (String.ofList [c])) := fun c digit =>
    .atom ⟨.integer, by decide, _, ⟨by simp, by simpa using digit⟩, rfl⟩
  have isMinus : Tree.IsLeaf Terminal.Spells Tree.binaryOperators minus := ⟨.minus, by decide, _, rfl, rfl⟩
  have isText : ∀ text, Tree.IsExpression Terminal.Spells (.leaf (.terminal .string) text) :=
    fun text => .atom ⟨.string, by decide, text, trivial, rfl⟩
  have isBlock : Tree.IsBlock Terminal.Spells (.node .block [.node .evaluation [name "b"]]) :=
    .block (List.forall_mem_singleton.mpr (.evaluation (isName 'b' rfl)))
  have isBranch : Tree.IsExpression Terminal.Spells branch :=
    .branch (isName 'a' rfl) isBlock
  have isRight : Tree.IsExpression Terminal.Spells right :=
    .binary (isNumeral '2' rfl) isMinus (isNumeral '3' rfl)
  have isNested : Tree.IsExpression Terminal.Spells nested := .binary (isNumeral '1' rfl) isMinus isRight
  have isCall : Tree.IsExpression Terminal.Spells call :=
    .call isBranch (List.forall_mem_cons.mpr ⟨isNested, List.forall_mem_singleton.mpr (isText _)⟩)
  have wellFormed : program.WellFormed := ⟨_, List.forall_mem_singleton.mpr (.evaluation isCall), rfl⟩
  have text : program.print =
      "( if ( a ) \x7b b ; \x7d ( 1 - ( 2 - 3 ) , \"say \\\"hi\\\"\\n\" ) ) ; " := by decide +kernel
  rw [← text]
  refine ⟨wellFormed, fun lexemes derivation same => ?_, parse_inverts_print.2.1 program wellFormed⟩
  exact (parse_inverts_print.2.2 right lexemes isRight same).1 3 (by decide) (by decide) derivation

end TreeWalk
