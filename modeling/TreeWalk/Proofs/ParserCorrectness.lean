import TreeWalk.Parse
import TreeWalk.Proofs.ReaderCompleteness
import TreeWalk.Proofs.TreeForm

/-! The parser accepts the language of the rules, with one meaning for each text.

The automaton that the parser uses passes its checks, so everything that is said of readers holds of the
parser: it succeeds on the lexemes of a program, with the derivation that they come by, and on nothing
else. As the parser has one answer, there is one derivation. -/
namespace TreeWalk

open Grammar

variable {states : Array State}

/-- A derivation is found for lexemes up to the end of the text if and only if they come by it. -/
theorem derive_eq_ok_iff (belongs : Belongs states) (scan : Lexeme.Scan) (derivation : Derivation) :
    derive states scan = .ok derivation ↔
      scan.bad = none ∧ Derives (.p .start) scan.lexemes derivation := by
  unfold derive
  constructor
  · intro derived
    cases taken : takeAll states [] scan.lexemes with
    | error refusal => simp [taken] at derived
    | ok stack =>
      cases bad : scan.bad with
      | some char => simp [taken, bad] at derived
      | none =>
        refine ⟨rfl, ?_⟩
        have holds := takeAll_holds belongs .nil taken
        cases ended : stack.take states (endLexeme scan.lexemes) with
        | error expected => simp [taken, bad, takeAll, ended] at derived
        | ok after =>
          obtain ⟨top, frame, rfl, derives⟩ := program_of_end belongs holds ended rfl
          simp only [taken, bad, takeAll, ended, program?, Except.ok.injEq] at derived
          rwa [← derived]
  · rintro ⟨bad, derives⟩
    have isEnd : (endLexeme scan.lexemes).kind = .endOfInput := rfl
    obtain ⟨middle, top, frame, taken, ended, rfl⟩ := end_of_program belongs derives isEnd
    simp [taken, bad, takeAll_singleton _ ended, program?]

/-- Lexemes come from a program by one derivation at most. -/
theorem derivation_unique (belongs : Belongs states) (first : Derives (.p .start) lexemes derivation)
    (second : Derives (.p .start) lexemes derivation') : derivation = derivation' := by
  have found := (derive_eq_ok_iff belongs ⟨lexemes, none⟩ derivation).mpr ⟨rfl, first⟩
  have foundAgain := (derive_eq_ok_iff belongs ⟨lexemes, none⟩ derivation').mpr ⟨rfl, second⟩
  exact Except.ok.inj (found.symm.trans foundAgain)

/-- The tree that is found is that of a derivation. -/
theorem derive_tree_iff (belongs : Belongs states) (scan : Lexeme.Scan) (tree : Tree) :
    (derive states scan).map Derivation.tree = .ok tree ↔
      scan.bad = none ∧
        ∃ derivation, Derives (.p .start) scan.lexemes derivation ∧ derivation.tree = tree := by
  have found := derive_eq_ok_iff belongs scan
  constructor
  · intro parsed
    cases derived : derive states scan with
    | error reason =>
      rw [derived] at parsed
      cases parsed
    | ok derivation =>
      rw [derived] at parsed
      obtain ⟨bad, derives⟩ := (found derivation).mp derived
      exact ⟨bad, derivation, derives, Except.ok.inj parsed⟩
  · rintro ⟨bad, derivation, derives, rfl⟩
    rw [(found derivation).mpr ⟨bad, derives⟩]
    rfl

/-- The tree of a text is well formed, and the texts of its leaves are those of lexemes of the text. -/
theorem parse_isProgram (parsed : parse source = .ok tree) :
    tree.IsProgram fun kind text =>
      ∃ lexeme ∈ (Lexeme.scan source).lexemes, lexeme.kind = kind ∧ lexeme.leafText = text := by
  obtain ⟨_, derivation, derives, rfl⟩ := (derive_tree_iff automaton_belongs _ tree).mp parsed
  exact derives.isProgram fun lexeme member => ⟨lexeme, member, rfl, rfl⟩

/-- A text that splits into lexemes parses to a tree if and only if the lexemes come from a program by a
derivation with this tree. All derivations of the lexemes are one and the same, and so are their trees. -/
theorem parse_iff_derives (source : String) (lexemes : List Lexeme)
    (split : Lexeme.scan source = ⟨lexemes, none⟩) :
    (∀ tree, parse source = .ok tree ↔
      ∃ derivation, Derives (.p .start) lexemes derivation ∧ derivation.tree = tree) ∧
    ∀ first second, Derives (.p .start) lexemes first → Derives (.p .start) lexemes second →
      first = second ∧ first.tree = second.tree := by
  constructor
  · intro tree
    have found := derive_tree_iff automaton_belongs ⟨lexemes, none⟩ tree
    rw [parse, split, found]
    exact and_iff_right rfl
  · intro first second derivesFirst derivesSecond
    have same := derivation_unique automaton_belongs derivesFirst derivesSecond
    exact ⟨same, congrArg Derivation.tree same⟩

/-- Goes up a ladder of phrases that pass their one part on. -/
theorem Grammar.Derives.rise (derives : Derives (.p low) lexemes derivation) (phrases : List Phrase)
    (passes : ∀ link ∈ (low :: phrases).zip phrases, (⟨link.2, [.p link.1], .splice⟩ : Rule) ∈ rules) :
    ∃ above, Derives (.p (phrases.getLastD low)) lexemes above ∧ above.forest = derivation.forest := by
  induction phrases generalizing low derivation with
  | nil => exact ⟨derivation, derives, rfl⟩
  | cons head phrases ih =>
    obtain ⟨known, others⟩ := List.forall_mem_cons.mp passes
    obtain ⟨above, derivesAbove, sameForest⟩ := ih (.node known (.singleton derives)) others
    refine ⟨above, ?_, ?_⟩
    · rwa [List.getLastD_cons]
    · rw [sameForest]
      simp [Derivation.forest, Derivation.forests, Shape.build]

/-- A statement that begins with `if`: its condition goes up one ladder of expressions, and what is evaluated in
its block goes up the other. -/
theorem parse_iff_derives_of_conditional :
    let name : String → Tree := .leaf (.terminal .identifier)
    let lexeme := fun kind text column => (⟨kind, text, ⟨1, column⟩, ⟨1, column + text.length⟩⟩ : Lexeme)
    let lexemes : List Lexeme := [lexeme .ifWord "if" 1, lexeme .leftParen "(" 4, lexeme .identifier "x" 5,
      lexeme .rightParen ")" 6, lexeme .leftBrace "\x7b" 8, lexeme .identifier "y" 10,
      lexeme .rightBrace "\x7d" 12]
    let block : Tree := .node .block [.node .evaluation [name "y"]]
    Lexeme.scan "if (x) \x7b y \x7d" = ⟨lexemes, none⟩ ∧
      parse "if (x) \x7b y \x7d" =
        .ok (.node .program [.node .evaluation [.node .branch [name "x", block, .absent]]]) := by
  intro name lexeme lexemes block
  have split : Lexeme.scan "if (x) \x7b y \x7d" = ⟨lexemes, none⟩ := by decide +kernel
  have identifier : (⟨.plainAtom, [.t .identifier], .splice⟩ : Rule) ∈ rules := by decide
  have atom : ∀ text column, Derives (.p .plainAtom) [lexeme .identifier text column] _ :=
    fun text column => .node identifier (.singleton (.leaf (lexeme .identifier text column)))
  obtain ⟨tested, condition, testedForest⟩ := (atom "x" 5).rise
    [.atom, .applied, .unary, .product, .sum, .comparison, .equality, .expression] (by decide)
  obtain ⟨evaluated, expression, evaluatedForest⟩ := (atom "y" 10).rise
    [.plainApplied, .plainUnary, .plainProduct, .plainSum, .plainComparison, .plainEquality, .plainExpression]
    (by decide)
  have evaluation : (⟨.evaluation, [.p .plainExpression], .wrap .evaluation⟩ : Rule) ∈ rules := by decide
  obtain ⟨body, statements, bodyForest⟩ := Derives.rise (.node evaluation (.singleton expression))
    [.simple, .statements] (by decide)
  have inBraces : (⟨.block, [.t .leftBrace, .p .statements, .t .rightBrace], .wrap .block⟩ : Rule) ∈ rules := by
    decide
  have braced : Derives (.p .block) _ _ := .node inBraces (.cons (.leaf (lexeme .leftBrace "\x7b" 8))
    (.cons statements (.singleton (.leaf (lexeme .rightBrace "\x7d" 12)))))
  have choice : (⟨.branch, [.t .ifWord, .t .leftParen, .p .expression, .t .rightParen, .p .block],
      .branch⟩ : Rule) ∈ rules := by decide
  have branch : Derives (.p .branch) lexemes _ := .node choice
    (.cons (.leaf (lexeme .ifWord "if" 1)) (.cons (.leaf (lexeme .leftParen "(" 4)) (.cons condition
      (.cons (.leaf (lexeme .rightParen ")" 6)) (.singleton braced)))))
  have conditional : (⟨.conditional, [.p .branch], .wrap .evaluation⟩ : Rule) ∈ rules := by decide
  obtain ⟨all, program, allForest⟩ := Derives.rise (.node conditional (.singleton branch))
    [.statement, .someStatements, .statements] (by decide)
  have whole : (⟨.start, [.p .statements], .wrap .program⟩ : Rule) ∈ rules := by decide
  refine ⟨split, ((parse_iff_derives _ lexemes split).1 _).mpr ⟨_, .node whole (.singleton program), ?_⟩⟩
  simp [Derivation.tree, Derivation.forest, Derivation.forests, Shape.build, testedForest, evaluatedForest,
    bodyForest, allForest, Lexeme.trees, Lexeme.leafText, Terminal.kept, lexeme, name, block]

end TreeWalk
