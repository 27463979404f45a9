import TreeWalk.Proofs.Joining

/-! Programs of one statement.

A program that makes a single tree and does not begin with a semicolon is one statement with semicolons after
it, since every statement but a lone semicolon makes a tree. An expression that stands as such a statement
comes from the plain ladder and one that is returned from the other, and the two ladders agree on what does
not begin with `if`: with the word `return` before it, the expression is returned. -/
namespace TreeWalk

open Grammar

namespace Grammar

/-- The phrases that are one statement, without a semicolon after it. -/
def statementPhrases : List Phrase :=
  [.declaration, .assignment, .returning, .evaluation, .conditional, .loop]

theorem simple_rules : ∀ rule ∈ rules, rule.head = .simple →
    rule.shape = .splice ∧ ∃ phrase ∈ statementPhrases, rule.body = [.p phrase] := by
  decide

theorem statement_rules : ∀ rule ∈ rules, rule.head = .statement →
    rule.shape = .splice ∧ (rule.body = [.p .simple, .t .semicolon] ∨ rule.body = [.t .semicolon] ∨
      ∃ phrase ∈ statementPhrases, rule.body = [.p phrase]) := by
  decide

/-- What becomes of the trees in a statement. -/
theorem statementPhrases_rules : ∀ rule ∈ rules, rule.head ∈ statementPhrases →
    rule.shape = .wrap .returning ∧ rule.body = [.t .returnWord, .p .expression] ∨
      rule.shape = .wrap .evaluation ∧ rule.body = [.p .plainExpression] ∨
        rule.shape = .wrap .evaluation ∧ rule.body = [.p .branch] ∨
          rule.shape = .wrap .declaration ∨ rule.shape = .wrap .assignment ∨ rule.shape = .loop := by
  decide

/-- A loop makes one tree, whatever its parts are. -/
theorem build_loop (parts : List Tree) : ∃ children, Shape.loop.build parts = [.node .loop children] := by
  rcases parts with _ | ⟨_, _ | ⟨_, _ | ⟨_, _ | ⟨_, _ | _⟩⟩⟩⟩ <;> exact ⟨_, rfl⟩

namespace Yields

/-- A terminal is one lexeme. -/
theorem lexeme (yields : Yields [.t t] lexemes trees) :
    ∃ lexeme, lexeme.kind = t ∧ lexemes = [lexeme] ∧ trees = lexeme.trees := by
  obtain ⟨derivations, derives, rfl⟩ := yields
  cases derives with
  | cons first others =>
    cases others
    cases first with
    | leaf lexeme => exact ⟨lexeme, rfl, rfl, List.append_nil _⟩

/-- What the lexemes of a statement are, by the label of its tree. One that returns begins with a word, and one
that is evaluated is a plain expression or begins with `if`. -/
def Origin (lexemes : List Lexeme) (parts : List Tree) : Label → Prop
  | .returning => ∃ word rest, lexemes = word :: rest ∧ Yields [.p .expression] rest parts
  | .evaluation => Yields [.p .plainExpression] lexemes parts ∨ Lexeme.BeginWithIf lexemes
  | _ => True

/-- A statement makes one tree. -/
theorem statement_tree (yields : Yields [.p phrase] lexemes trees) (isStatement : phrase ∈ statementPhrases) :
    ∃ label parts, trees = [.node label parts] ∧ Origin lexemes parts label := by
  obtain ⟨rule, known, rfl, parts, body, rfl⟩ := yields.rule
  rcases statementPhrases_rules rule known isStatement with
    ⟨isShape, isBody⟩ | ⟨isShape, isBody⟩ | ⟨isShape, isBody⟩ | isShape | isShape | isShape
  all_goals rw [isShape]
  · rw [isBody] at body
    obtain ⟨before, rest, forest, others, first, expression, rfl, rfl⟩ := body.parts
    obtain ⟨word, isWord, rfl, rfl⟩ := first.lexeme
    have dropped : word.trees = [] := by
      rw [Lexeme.trees, isWord]
      rfl
    rw [dropped]
    exact ⟨.returning, others, rfl, word, rest, rfl, expression⟩
  · rw [isBody] at body
    exact ⟨.evaluation, parts, rfl, .inl body⟩
  · rw [isBody] at body
    obtain ⟨derivations, derives, -⟩ := body
    exact ⟨.evaluation, parts, rfl, .inr derives.branch_begins⟩
  · exact ⟨.declaration, parts, rfl, trivial⟩
  · exact ⟨.assignment, parts, rfl, trivial⟩
  · obtain ⟨children, made⟩ := build_loop parts
    exact ⟨.loop, children, made, trivial⟩

end Yields

/-- Lexemes that are all semicolons. -/
def Semicolons (lexemes : List Lexeme) : Prop := ∀ lexeme ∈ lexemes, lexeme.kind = .semicolon

/-- Lexemes that are one statement with semicolons after it. -/
def IsSingle (lexemes : List Lexeme) (tree : Tree) : Prop :=
  ∃ phrase ∈ statementPhrases, ∃ own ends, lexemes = own ++ ends ∧ Semicolons ends ∧
    Yields [.p phrase] own [tree]

theorem IsSingle.append (single : IsSingle lexemes tree) (semicolons : Semicolons more) :
    IsSingle (lexemes ++ more) tree := by
  obtain ⟨phrase, isStatement, own, ends, rfl, isEnd, yields⟩ := single
  refine ⟨phrase, isStatement, own, ends ++ more, List.append_assoc own ends more, ?_, yields⟩
  exact List.forall_mem_append.mpr ⟨isEnd, semicolons⟩

/-- A row of statements, as far as it may be a single one: else it begins with a semicolon or makes several
trees. -/
def IsRow (lexemes : List Lexeme) (trees : List Tree) : Prop :=
  (∃ tree, trees = [tree] ∧ IsSingle lexemes tree) ∨
    lexemes.head?.map Lexeme.kind = some .semicolon ∨ 2 ≤ trees.length

namespace IsRow

theorem append_semicolons (row : IsRow lexemes trees) (semicolons : Semicolons more) :
    IsRow (lexemes ++ more) trees := by
  rcases row with ⟨tree, rfl, single⟩ | late | many
  · exact .inl ⟨tree, rfl, single.append semicolons⟩
  · exact .inr (.inl (Lexeme.head?_kind_append late more))
  · exact .inr (.inr many)

theorem append_single (row : IsRow lexemes trees) (single : ∃ tree, trees' = [tree] ∧ IsSingle more tree) :
    IsRow (lexemes ++ more) (trees ++ trees') := by
  obtain ⟨tree', rfl, -⟩ := single
  rcases row with ⟨tree, rfl, -⟩ | late | many
  · exact .inr (.inr (by simp))
  · exact .inr (.inl (Lexeme.head?_kind_append late more))
  · exact .inr (.inr (by simp only [List.length_append]; omega))

end IsRow

namespace Yields

theorem single (yields : Yields [.p phrase] lexemes trees) (isStatement : phrase ∈ statementPhrases) :
    ∃ tree, trees = [tree] ∧ IsSingle lexemes tree := by
  obtain ⟨label, parts, rfl, -⟩ := yields.statement_tree isStatement
  exact ⟨_, rfl, phrase, isStatement, lexemes, [], (List.append_nil lexemes).symm, List.forall_mem_nil _, yields⟩

theorem simple_single (yields : Yields [.p .simple] lexemes trees) :
    ∃ tree, trees = [tree] ∧ IsSingle lexemes tree := by
  obtain ⟨rule, known, isHead, parts, body, rfl⟩ := yields.rule
  obtain ⟨isSplice, phrase, isStatement, isBody⟩ := simple_rules rule known isHead
  rw [isBody] at body
  rw [isSplice]
  exact body.single isStatement

/-- An ended statement is a semicolon or makes one tree. -/
theorem statement_single (yields : Yields [.p .statement] lexemes trees) :
    trees = [] ∧ lexemes ≠ [] ∧ Semicolons lexemes ∨ ∃ tree, trees = [tree] ∧ IsSingle lexemes tree := by
  obtain ⟨rule, known, isHead, parts, body, rfl⟩ := yields.rule
  obtain ⟨isSplice, isBody⟩ := statement_rules rule known isHead
  rw [isSplice, Shape.build]
  have sign : ∀ {lexemes trees}, Yields [.t .semicolon] lexemes trees →
      trees = [] ∧ lexemes ≠ [] ∧ Semicolons lexemes := by
    intro lexemes trees yields
    obtain ⟨semicolon, isSemicolon, rfl, rfl⟩ := yields.lexeme
    refine ⟨?_, List.cons_ne_nil _ _, fun _ member => List.mem_singleton.mp member ▸ isSemicolon⟩
    rw [Lexeme.trees, isSemicolon]
    rfl
  rcases isBody with isBody | isBody | ⟨phrase, isStatement, isBody⟩
  all_goals rw [isBody] at body
  · obtain ⟨own, rest, forest, others, simple, last, rfl, rfl⟩ := body.parts
    obtain ⟨tree, rfl, single⟩ := simple.simple_single
    obtain ⟨rfl, -, semicolons⟩ := sign last
    exact .inr ⟨tree, rfl, single.append semicolons⟩
  · exact .inl (sign body)
  · exact .inr (body.single isStatement)

/-- A row of statements is a single one, begins with a semicolon, or makes several trees. -/
theorem someStatements_single (yields : Yields [.p .someStatements] lexemes trees) :
    IsRow lexemes trees := by
  refine someStatements_induction ?one ?more yields
  case one =>
    intro lexemes trees statement
    rcases statement.statement_single with ⟨rfl, notEmpty, semicolons⟩ | single
    · cases lexemes with
      | nil => exact absurd rfl notEmpty
      | cons first rest => exact .inr (.inl (congrArg some (semicolons first List.mem_cons_self)))
    · exact .inl single
  case more =>
    intro before trees after trees' row statement
    rcases statement.statement_single with ⟨rfl, -, semicolons⟩ | single
    · rw [List.append_nil]
      exact row.append_semicolons semicolons
    · exact row.append_single single

/-- A program that makes one tree and does not begin with a semicolon is a single statement. -/
theorem statements_single (yields : Yields [.p .statements] lexemes [tree])
    (begins : lexemes.head?.map Lexeme.kind ≠ some .semicolon) : IsSingle lexemes tree := by
  have row : IsRow lexemes [tree] := by
    obtain ⟨body, isBody, yields⟩ := yields.statements_cases
    simp only [List.mem_cons, List.not_mem_nil, or_false] at isBody
    rcases isBody with rfl | rfl | rfl | rfl
    · obtain ⟨before, after, forest, others, first, last, rfl, made⟩ := yields.parts
      rw [made]
      exact first.someStatements_single.append_single last.simple_single
    · exact yields.someStatements_single
    · exact .inl yields.simple_single
    · obtain ⟨derivations, derives, made⟩ := yields
      cases derives
      cases made
  rcases row with ⟨_, same, single⟩ | late | many
  · cases same
    exact single
  · exact absurd late begins
  · simp at many

/-- Semicolons may follow a row of statements. -/
theorem statements_semicolons (yields : Yields [.p .statements] lexemes trees) (semicolons : Semicolons ends) :
    Yields [.p .statements] (lexemes ++ ends) trees := by
  induction ends generalizing lexemes with
  | nil => rwa [List.append_nil]
  | cons semicolon ends ih =>
    obtain ⟨isSemicolon, others⟩ := List.forall_mem_cons.mp semicolons
    have ended : Yields [.p .statements] (lexemes ++ [semicolon]) trees :=
      (yields.closeOff isSemicolon).of_rule .splice (by decide)
    rw [List.append_cons]
    exact ih ended others

/-- An expression is evaluated, as the only statement of a program, if it comes from the plain ladder. -/
theorem evaluation_iff (notIf : ¬ Lexeme.BeginWithIf lexemes)
    (begins : lexemes.head?.map Lexeme.kind ≠ some .semicolon) :
    Yields [.p .statements] lexemes [.node .evaluation [tree]] ↔
      ∃ own ends, lexemes = own ++ ends ∧ Semicolons ends ∧ Yields [.p .plainExpression] own [tree] := by
  constructor
  · intro yields
    obtain ⟨phrase, isStatement, own, ends, rfl, semicolons, statement⟩ := yields.statements_single begins
    obtain ⟨label, parts, made, origin⟩ := statement.statement_tree isStatement
    cases made
    rcases origin with plain | isIf
    · exact ⟨own, ends, rfl, semicolons, plain⟩
    · exact absurd (isIf.append ends) notIf
  · rintro ⟨own, ends, rfl, semicolons, plain⟩
    exact plain.evaluated.statements_semicolons semicolons

/-- An expression is returned, as the only statement of a program, if it comes from the full ladder. -/
theorem returning_iff (isReturn : word.kind = .returnWord) :
    Yields [.p .statements] (word :: lexemes) [.node .returning [tree]] ↔
      ∃ own ends, lexemes = own ++ ends ∧ Semicolons ends ∧ Yields [.p .expression] own [tree] := by
  constructor
  · intro yields
    have begins : (word :: lexemes).head?.map Lexeme.kind ≠ some .semicolon := by
      simp [isReturn]
    obtain ⟨phrase, isStatement, whole, ends, same, semicolons, statement⟩ := yields.statements_single begins
    obtain ⟨label, parts, made, origin⟩ := statement.statement_tree isStatement
    cases made
    obtain ⟨first, own, rfl, expression⟩ := origin
    cases same
    exact ⟨own, ends, rfl, semicolons, expression⟩
  · rintro ⟨own, ends, rfl, semicolons, expression⟩
    have sign : Yields [.t .returnWord] [word] [] := by
      have itself := of_lexeme word
      rwa [Lexeme.trees, isReturn] at itself
    have returning : Yields [.p .returning] (word :: own) [.node .returning [tree]] :=
      (sign.append expression).of_rule (.wrap .returning) (by decide)
    have simple : Yields [.p .simple] (word :: own) [.node .returning [tree]] :=
      returning.of_rule .splice (by decide)
    have statements : Yields [.p .statements] (word :: own) [.node .returning [tree]] :=
      simple.of_rule .splice (by decide)
    exact statements.statements_semicolons semicolons

/-- The plain ladder is the other one without what begins with `if`. -/
theorem plainExpression_iff :
    Yields [.p .plainExpression] lexemes trees ↔
      Yields [.p .expression] lexemes trees ∧ ¬ Lexeme.BeginWithIf lexemes := by
  constructor
  · rintro ⟨derivations, derives, rfl⟩
    obtain ⟨derivation, derived, sameTrees⟩ := derives.passed
    have isCopy : Derives (Symbol.p .expression).plain lexemes derivation := derived
    obtain ⟨derivation', derived', sameTrees'⟩ := isCopy.of_plain
    rw [← sameTrees, ← sameTrees']
    exact ⟨derived'.yields, derives.not_beginWithIf (plain_openings .plainExpression (by decide))⟩
  · rintro ⟨⟨derivations, derives, rfl⟩, notIf⟩
    obtain ⟨derivation, derived, sameTrees⟩ := derives.passed
    obtain ⟨derivation', derived', sameTrees'⟩ := derived.plain notIf
    rw [← sameTrees, ← sameTrees']
    exact derived'.yields

end Yields

end Grammar

/-- The lexemes begin with neither `if` nor a semicolon. -/
def Lexeme.BeginFreely (lexemes : List Lexeme) : Prop :=
  lexemes.head?.map Lexeme.kind ≠ some .ifWord ∧ lexemes.head?.map Lexeme.kind ≠ some .semicolon

theorem derive_evaluation_iff_returning (belongs : Belongs states) (begins : Lexeme.BeginFreely lexemes)
    (isReturn : word.kind = .returnWord) (tokens : lexemes'.map Lexeme.token = lexemes.map Lexeme.token)
    (tree : Tree) :
    (derive states ⟨lexemes, none⟩).map Derivation.tree = .ok (.node .program [.node .evaluation [tree]]) ↔
      (derive states ⟨word :: lexemes', none⟩).map Derivation.tree =
        .ok (.node .program [.node .returning [tree]]) := by
  have program_iff : ∀ lexemes statement,
      (derive states ⟨lexemes, none⟩).map Derivation.tree = .ok (.node .program [statement]) ↔
        Yields [.p .statements] lexemes [statement] := by
    intro lexemes statement
    rw [derive_tree_iff_yields belongs]
    constructor
    · rintro ⟨-, statements, yields, same⟩
      cases same
      exact yields
    · exact fun yields => ⟨rfl, _, yields, rfl⟩
  have moved : Yields [.p .statements] (word :: lexemes') [.node .returning [tree]] ↔
      Yields [.p .statements] (word :: lexemes) [.node .returning [tree]] :=
    ⟨fun yields => yields.of_tokens (by rw [List.map_cons, List.map_cons, tokens]),
      fun yields => yields.of_tokens (by rw [List.map_cons, List.map_cons, tokens])⟩
  rw [program_iff, program_iff, moved, Yields.evaluation_iff begins.1 begins.2, Yields.returning_iff isReturn]
  constructor
  · rintro ⟨own, ends, rfl, semicolons, plain⟩
    exact ⟨own, ends, rfl, semicolons, (Yields.plainExpression_iff.mp plain).1⟩
  · rintro ⟨own, ends, rfl, semicolons, expression⟩
    exact ⟨own, ends, rfl, semicolons,
      Yields.plainExpression_iff.mpr ⟨expression, fun isIf => begins.1 (isIf.append ends)⟩⟩

/-- The two ladders of expressions agree on what does not begin with `if`, and make the same trees of it. So
lexemes that begin with neither `if` nor a semicolon are a program that evaluates an expression if and only
if, with `return` before them, they are a program that returns it. -/
theorem ladders_agree :
    (∀ lexemes tree, Yields [.p .plainExpression] lexemes [tree] ↔
      Yields [.p .expression] lexemes [tree] ∧ ¬ Lexeme.BeginWithIf lexemes) ∧
    ∀ source returned lexemes word lexemes', Lexeme.scan source = ⟨lexemes, none⟩ →
      Lexeme.scan returned = ⟨word :: lexemes', none⟩ → word.kind = .returnWord →
      lexemes'.map Lexeme.token = lexemes.map Lexeme.token → Lexeme.BeginFreely lexemes →
      ∀ tree, parse source = .ok (.node .program [.node .evaluation [tree]]) ↔
        parse returned = .ok (.node .program [.node .returning [tree]]) := by
  refine ⟨fun lexemes tree => Yields.plainExpression_iff, ?_⟩
  intro source returned lexemes word lexemes' split split' isReturn tokens begins tree
  rw [parse, parse, split, split']
  exact derive_evaluation_iff_returning automaton_belongs begins isReturn tokens tree

/-- An expression with `if` in it, but not at its beginning, is evaluated or returned. -/
theorem ladders_agree_of_added_branch :
    let branch : Tree := .node .branch [.leaf (.terminal .identifier) "b", .node .block [], .absent]
    let sum : Tree := .node .binary [.leaf (.terminal .identifier) "a", .leaf (.terminal .plus) "+", branch]
    parse "a + if ( b ) \x7b \x7d ; " = .ok (.node .program [.node .evaluation [sum]]) ∧
      parse "return a+if(b)\x7b\x7d;" = .ok (.node .program [.node .returning [sum]]) := by
  intro branch sum
  have isName : ∀ c, Lexeme.startsWord c = true →
      Tree.IsExpression Terminal.Spells (.leaf (.terminal .identifier) (String.ofList [c])) := fun c starts =>
    .atom ⟨.identifier, by decide, _, Lexeme.spells_letter starts, rfl⟩
  have isSum : Tree.IsExpression Terminal.Spells sum :=
    .binary (isName 'a' rfl) ⟨.plus, by decide, _, rfl, rfl⟩
      (.branch (isName 'b' rfl) (.block (List.forall_mem_nil _)))
  have text : (Tree.node .program [.node .evaluation [sum]]).print = "a + if ( b ) \x7b \x7d ; " := by
    decide +kernel
  have evaluated : parse "a + if ( b ) \x7b \x7d ; " = .ok (.node .program [.node .evaluation [sum]]) := by
    rw [← text]
    exact derive_print automaton_belongs ⟨_, List.forall_mem_singleton.mpr (.evaluation isSum), rfl⟩
  let word : Lexeme := ⟨.returnWord, "return", ⟨1, 1⟩, ⟨1, 7⟩⟩
  have split : Lexeme.scan "a + if ( b ) \x7b \x7d ; " =
      ⟨(Lexeme.scan "a + if ( b ) \x7b \x7d ; ").lexemes, none⟩ := by decide +kernel
  have split' : Lexeme.scan "return a+if(b)\x7b\x7d;" =
      ⟨word :: (Lexeme.scan "return a+if(b)\x7b\x7d;").lexemes.tail, none⟩ := by decide +kernel
  refine ⟨evaluated, (ladders_agree.2 _ _ _ _ _ split split' rfl ?_ ?_ sum).mp evaluated⟩
  · decide +kernel
  · exact ⟨by decide +kernel, by decide +kernel⟩

end TreeWalk
