import TreeWalk.Program
import TreeWalk.Proofs.Printing
import TreeWalk.Proofs.ReturnPlacement
import TreeWalk.Proofs.Splitting

/-! Programs that are put together.

Two source texts with a semicolon on a line of its own between them are one program, whose statements are
those of the first and then those of the second. The semicolon ends the last statement of the first one, if
it is still open, and is an empty statement otherwise. Running the whole is running the first and then, in
the world it leaves and unless one of its statements ended it early, the second. -/
namespace TreeWalk

open Grammar

namespace Grammar

namespace Yields

/-- The rule that a phrase comes by. -/
theorem rule (yields : Yields [.p phrase] lexemes trees) :
    ∃ rule ∈ rules, rule.head = phrase ∧
      ∃ parts, Yields rule.body lexemes parts ∧ rule.shape.build parts = trees := by
  obtain ⟨derivations, derives, rfl⟩ := yields
  obtain ⟨derivation, derived, sameTrees⟩ := derives.passed
  cases derived with
  | node known parts => exact ⟨_, known, rfl, _, parts.yields, sameTrees⟩

theorem parts (yields : Yields (symbol :: symbols) lexemes trees) :
    ∃ before after forest others, Yields [symbol] before forest ∧ Yields symbols after others ∧
      lexemes = before ++ after ∧ trees = forest ++ others := by
  obtain ⟨derivations, derives, rfl⟩ := yields
  cases derives with
  | cons first others => exact ⟨_, _, _, _, first.yields, others.yields, rfl, rfl⟩

end Yields

/-- The rules for rows of statements. -/
theorem statements_rules : ∀ rule ∈ rules, rule.head = .statements →
    rule.shape = .splice ∧
      rule.body ∈ [[.p .someStatements, .p .simple], [.p .someStatements], [.p .simple], []] := by
  decide

theorem someStatements_rules : ∀ rule ∈ rules, rule.head = .someStatements →
    rule.shape = .splice ∧ rule.body ∈ [[.p .statement], [.p .someStatements, .p .statement]] := by
  decide

theorem start_rules : ∀ rule ∈ rules, rule.head = .start →
    rule.shape = .wrap .program ∧ rule.body = [.p .statements] := by
  decide

namespace Yields

theorem statements_cases (yields : Yields [.p .statements] lexemes trees) :
    ∃ body ∈ [[.p .someStatements, .p .simple], [.p .someStatements], [.p .simple], []],
      Yields body lexemes trees := by
  obtain ⟨rule, known, isHead, parts, body, rfl⟩ := yields.rule
  obtain ⟨isSplice, isBody⟩ := statements_rules rule known isHead
  rw [isSplice]
  exact ⟨rule.body, isBody, body⟩

/-- A row of statements with a semicolon after it is a row of statements that are all ended. -/
theorem closeOff (yields : Yields [.p .statements] lexemes trees) (isSemicolon : semicolon.kind = .semicolon) :
    Yields [.p .someStatements] (lexemes ++ [semicolon]) trees := by
  have sign : Yields [.t .semicolon] [semicolon] [] := by
    have itself := of_lexeme semicolon
    rwa [Lexeme.trees, isSemicolon] at itself
  have nothing : Yields [.p .statement] [semicolon] [] := sign.of_rule .splice (by decide)
  have ended : ∀ {lexemes trees}, Yields [.p .simple] lexemes trees →
      Yields [.p .statement] (lexemes ++ [semicolon]) trees := by
    intro lexemes trees simple
    have whole := simple.append sign
    rw [List.append_nil] at whole
    exact whole.of_rule .splice (by decide)
  obtain ⟨body, isBody, yields⟩ := yields.statements_cases
  simp only [List.mem_cons, List.not_mem_nil, or_false] at isBody
  rcases isBody with rfl | rfl | rfl | rfl
  · obtain ⟨before, after, forest, others, first, last, rfl, rfl⟩ := yields.parts
    have whole := first.append (ended last)
    rw [← List.append_assoc] at whole
    exact whole.of_rule .splice (by decide)
  · have whole := yields.append nothing
    rw [List.append_nil] at whole
    exact whole.of_rule .splice (by decide)
  · exact (ended yields).of_rule .splice (by decide)
  · obtain ⟨derivations, derives, rfl⟩ := yields
    cases derives
    exact nothing.of_rule .splice (by decide)

/-- A row of ended statements is a first one with others after it, one at a time. -/
theorem someStatements_induction {motive : List Lexeme → List Tree → Prop}
    (one : ∀ lexemes trees, Yields [.p .statement] lexemes trees → motive lexemes trees)
    (more : ∀ lexemes trees lexemes' trees', motive lexemes trees →
      Yields [.p .statement] lexemes' trees' → motive (lexemes ++ lexemes') (trees ++ trees'))
    (yields : Yields [.p .someStatements] lexemes trees) : motive lexemes trees := by
  obtain ⟨derivations, derives, rfl⟩ := yields
  obtain ⟨derivation, derived, sameTrees⟩ := derives.passed
  rw [← sameTrees]
  -- In a rule for such rows a shorter row can only stand first, so the rows keep track of that one alone.
  have both := derives_induction
    (fun symbol lexemes derivation => symbol = .p .someStatements → motive lexemes derivation.forest)
    (fun symbols lexemes derivations => ∀ others, symbols = .p .someStatements :: others →
      ∃ before after trees trees', motive before trees ∧ Yields others after trees' ∧
        lexemes = before ++ after ∧ Derivation.forests derivations = trees ++ trees')
    (fun lexeme isPhrase => by cases isPhrase)
    (fun rule lexemes children known parts ih isPhrase => by
      obtain ⟨isSplice, isBody⟩ := someStatements_rules rule known (Symbol.p.inj isPhrase)
      rw [Derivation.forest, isSplice]
      simp only [List.mem_cons, List.not_mem_nil, or_false] at isBody
      rcases isBody with isBody | isBody
      · have yields := parts.yields
        rw [isBody] at yields
        exact one _ _ yields
      · obtain ⟨before, after, trees, trees', row, last, rfl, made⟩ := ih _ isBody
        rw [Shape.build, made]
        exact more _ _ _ _ row last)
    (fun others isRow => by cases isRow)
    (fun symbol lexemes derivation symbols rest derivations _ derives row _ others isRow => by
      cases isRow
      exact ⟨_, _, _, _, row rfl, derives.yields, rfl, rfl⟩)
  exact both.1 _ _ _ derived rfl

/-- Rows of ended statements can be put together. -/
theorem someStatements_append (first : Yields [.p .someStatements] lexemes trees)
    (second : Yields [.p .someStatements] lexemes' trees') :
    Yields [.p .someStatements] (lexemes ++ lexemes') (trees ++ trees') := by
  refine someStatements_induction (motive := fun lexemes' trees' =>
    Yields [.p .someStatements] (lexemes ++ lexemes') (trees ++ trees')) ?one ?more second
  case one =>
    intro lexemes' trees' statement
    exact (first.append statement).of_rule .splice (by decide)
  case more =>
    intro before trees' after trees'' row statement
    rw [← List.append_assoc, ← List.append_assoc]
    exact (row.append statement).of_rule .splice (by decide)

/-- A row of statements may come after ended ones. -/
theorem statements_append (first : Yields [.p .someStatements] lexemes trees)
    (second : Yields [.p .statements] lexemes' trees') :
    Yields [.p .statements] (lexemes ++ lexemes') (trees ++ trees') := by
  obtain ⟨body, isBody, second⟩ := second.statements_cases
  simp only [List.mem_cons, List.not_mem_nil, or_false] at isBody
  rcases isBody with rfl | rfl | rfl | rfl
  · obtain ⟨before, after, forest, others, middle, last, rfl, rfl⟩ := second.parts
    have whole := (first.someStatements_append middle).append last
    rw [List.append_assoc, List.append_assoc] at whole
    exact whole.of_rule .splice (by decide)
  · exact (first.someStatements_append second).of_rule .splice (by decide)
  · exact (first.append second).of_rule .splice (by decide)
  · obtain ⟨derivations, derives, rfl⟩ := second
    cases derives
    have whole : Yields [.p .statements] lexemes trees := first.of_rule .splice (by decide)
    simpa [Derivation.forests] using whole

/-- A program is a node over a row of statements. -/
theorem program_iff : Yields [.p .start] lexemes trees ↔
    ∃ statements, Yields [.p .statements] lexemes statements ∧ trees = [.node .program statements] := by
  constructor
  · intro yields
    obtain ⟨rule, known, isHead, parts, body, rfl⟩ := yields.rule
    obtain ⟨isWrap, isBody⟩ := start_rules rule known isHead
    rw [isBody] at body
    exact ⟨parts, body, by rw [isWrap]; rfl⟩
  · rintro ⟨statements, yields, rfl⟩
    exact yields.of_rule (.wrap .program) (by decide)

/-- A plain expression is a program by itself, which evaluates it. -/
theorem evaluated (plain : Yields [.p .plainExpression] lexemes [tree]) :
    Yields [.p .statements] lexemes [.node .evaluation [tree]] := by
  have evaluation : Yields [.p .evaluation] lexemes [.node .evaluation [tree]] :=
    plain.of_rule (.wrap .evaluation) (by decide)
  have simple : Yields [.p .simple] lexemes [.node .evaluation [tree]] := evaluation.of_rule .splice (by decide)
  exact simple.of_rule .splice (by decide)

end Yields

end Grammar

variable {states : Array State}

/-- A text parses to a tree if its lexemes come from a program with this tree. -/
theorem derive_tree_iff_yields (belongs : Belongs states) (scan : Lexeme.Scan) (tree : Tree) :
    (derive states scan).map Derivation.tree = .ok tree ↔
      scan.bad = none ∧ ∃ statements, Yields [.p .statements] scan.lexemes statements ∧
        tree = .node .program statements := by
  rw [derive_tree_iff belongs]
  refine and_congr_right fun _ => ⟨?_, ?_⟩
  · rintro ⟨derivation, derives, rfl⟩
    obtain ⟨statements, yields, made⟩ := Yields.program_iff.mp derives.yields
    exact ⟨statements, yields, by rw [Derivation.tree, made]; rfl⟩
  · rintro ⟨statements, yields, rfl⟩
    obtain ⟨derivations, derives, made⟩ := Yields.program_iff.mpr ⟨statements, yields, rfl⟩
    obtain ⟨derivation, derived, sameTrees⟩ := derives.passed
    exact ⟨derivation, derived, by rw [Derivation.tree, sameTrees, made]; rfl⟩

/-- Two source texts as one, with a semicolon on a line of its own between them. -/
def joined (first second : String) : String := first ++ "\n;\n" ++ second

/-- The lexemes of both texts are those of the whole, with the semicolon between them. -/
theorem scan_joined (first second : String) (whole : (Lexeme.scan first).bad = none)
    (whole' : (Lexeme.scan second).bad = none) :
    ∃ semicolon lexemes, Lexeme.scan (joined first second) =
        ⟨(Lexeme.scan first).lexemes ++ [semicolon] ++ lexemes, none⟩ ∧
      semicolon.kind = .semicolon ∧
      lexemes.map Lexeme.token = (Lexeme.scan second).lexemes.map Lexeme.token := by
  have text : (joined first second).toList = first.toList ++ '\n' :: ';' :: '\n' :: second.toList := by
    simp [joined]
  have lineFeed : Lexeme.isGap '\n' = true := by decide
  have sign : Lexeme.piece? (';' :: '\n' :: second.toList) = some (.lexeme .semicolon, 1) := rfl
  have scanned := Lexeme.scanFrom_append whole (';' :: '\n' :: second.toList)
  rw [Lexeme.scanFrom_of_lexeme sign, List.drop_one, List.tail_cons, Lexeme.scanFrom_gap_cons lineFeed]
    at scanned
  generalize Place.afterAll .start (first.toList ++ ['\n']) = here at scanned
  generalize there_eq : Place.after _ '\n' = there at scanned
  obtain ⟨tokens, bad⟩ := Lexeme.scanFrom_anywhere there .start second.toList
  have noBad : (Lexeme.scanFrom there second.toList).bad = none := by
    rw [Lexeme.scan] at whole'
    rw [whole', Option.map_none] at bad
    exact Option.map_eq_none_iff.mp bad
  refine ⟨⟨.semicolon, ";", here, here.afterAll [';']⟩, (Lexeme.scanFrom there second.toList).lexemes, ?_, rfl,
    tokens⟩
  rw [Lexeme.scan, text, scanned, noBad, List.append_assoc]
  rfl

/-- Two programs, put together, are the program of the statements of both. -/
theorem derive_joined (belongs : Belongs states)
    (parsed : (derive states (Lexeme.scan first)).map Derivation.tree = .ok tree)
    (parsed' : (derive states (Lexeme.scan second)).map Derivation.tree = .ok tree') :
    ∃ statements statements', tree = .node .program statements ∧ tree' = .node .program statements' ∧
      (derive states (Lexeme.scan (joined first second))).map Derivation.tree =
        .ok (.node .program (statements ++ statements')) := by
  obtain ⟨noBad, statements, yields, rfl⟩ := (derive_tree_iff_yields belongs _ _).mp parsed
  obtain ⟨noBad', statements', yields', rfl⟩ := (derive_tree_iff_yields belongs _ _).mp parsed'
  obtain ⟨semicolon, lexemes, scanned, isSemicolon, tokens⟩ := scan_joined first second noBad noBad'
  refine ⟨statements, statements', rfl, rfl, (derive_tree_iff_yields belongs _ _).mpr ?_⟩
  rw [scanned]
  exact ⟨rfl, _, (yields.closeOff isSemicolon).statements_append (yields'.of_tokens tokens), rfl⟩

namespace Plan

/-- Whether one of some statements ends them early, by an error, by a signal or for want of depth. -/
def interrupted (answer : Request → World → Ending Value) (scope : Nat) : List Code → World → Bool
  | [], _ => false
  | code :: rest, world =>
    match answer (.eval code scope) world with
    | (.ok value, world) => value.isSignal || interrupted answer scope rest world
    | (.error _, _) => true

variable {answer : Request → World → Ending Value}

theorem carryOut_sequence_cons (scope : Nat) (last : Value) (code : Code) (rest : List Code) (world : World) :
    (sequence scope last (code :: rest)).carryOut answer world =
      match answer (.eval code scope) world with
      | (.ok value, world) =>
        if value.isSignal then (.ok value, world) else (sequence scope value rest).carryOut answer world
      | (.error reason, world) => (.error reason, world) := by
  rw [sequence, run, ask_bind, carryOut]
  cases answer (.eval code scope) world with
  | mk result after =>
    cases result with
    | error reason => rfl
    | ok value =>
      simp only [done_bind]
      split <;> rfl

/-- Statements after those that end early do nothing. -/
theorem sequence_of_interrupted (early : interrupted answer scope codes world = true) (last : Value)
    (rest : List Code) :
    (sequence scope last (codes ++ rest)).carryOut answer world =
      (sequence scope last codes).carryOut answer world := by
  induction codes generalizing world last with
  | nil => cases early
  | cons code codes ih =>
    rw [List.cons_append, carryOut_sequence_cons, carryOut_sequence_cons]
    unfold interrupted at early
    split
    · rename_i value after met
      simp only [met, Bool.or_eq_true] at early
      split
      · rfl
      · rename_i notSignal
        exact ih (early.resolve_left notSignal) value
    · rfl

/-- Other statements are run to their end, and those after them go on from there. -/
theorem sequence_of_not_interrupted (late : interrupted answer scope codes world = false) (last : Value) :
    ∃ value after, (sequence scope last codes).carryOut answer world = (.ok value, after) ∧
      ∀ rest, (sequence scope last (codes ++ rest)).carryOut answer world =
        (sequence scope value rest).carryOut answer after := by
  induction codes generalizing world last with
  | nil => exact ⟨last, world, rfl, fun rest => rfl⟩
  | cons code codes ih =>
    unfold interrupted at late
    split at late
    · rename_i value after met
      obtain ⟨notSignal, later⟩ := Bool.or_eq_false_iff.mp late
      obtain ⟨final, left, ran, goesOn⟩ := ih later value
      refine ⟨final, left, ?_, fun rest => ?_⟩
      · rw [carryOut_sequence_cons, met]
        simpa [notSignal] using ran
      · rw [List.cons_append, carryOut_sequence_cons, met]
        simpa [notSignal] using goesOn rest
    · cases late

end Plan

/-- How a program ends, as its caller sees it, from how its statements end. -/
def conclude (what : String) : Ending Value → Except Fault Value × World
  | (.ok value, world) => (.ok value.unwrap.unwrap, world)
  | (.error .tooDeep, world) => outcome (.error .tooDeep, world.log (.depthReached what))
  | stopped => outcome stopped

theorem evaluateTo_program (depth : Nat) (body : List Code) (what : String) (scope : Nat) (world : World) :
    evaluateTo (depth + 1) (.program body) what scope world =
      conclude what ((Plan.sequence scope .null body).carryOut (Request.perform depth) world) := by
  have performed : (Request.eval (.program body) scope).perform (depth + 1) world =
      (Plan.sequence scope .null body >>= fun value => Plan.settle value.unwrap).carryOut
        (Request.perform depth) world := by
    simp [Request.perform, Request.plan, Plan.step]
  rw [evaluateTo, performed, Plan.carryOut_bind]
  generalize (Plan.sequence scope .null body).carryOut (Request.perform depth) world = ending
  obtain ⟨result, after⟩ := ending
  cases result with
  | error reason => cases reason <;> rfl
  | ok value =>
    dsimp only [conclude]
    generalize value.unwrap = given
    cases given <;> rfl

/-- Whether a program ends early: before it begins, where nothing may run, or by one of its statements. -/
def endsEarly (statements : List Tree) (scope : Nat) (world : World) : Nat → Bool
  | 0 => true
  | depth + 1 => Plan.interrupted (Request.perform depth) scope (Code.ofTrees statements) world

theorem evaluateTo_joined (statements statements' : List Tree) (depth : Nat) (what : String) (scope : Nat)
    (world : World) :
    let evaluated := fun trees world => evaluateTo depth (.ofTree (.node .program trees)) what scope world
    let before := evaluated statements world
    let after := evaluated statements' before.2
    evaluated (statements ++ statements') world =
      if endsEarly statements scope world depth then before
      else (if statements' = [] then before.1 else after.1, after.2) := by
  cases depth with
  | zero => rfl
  | succ depth =>
    simp only [Code.ofTree, evaluateTo_program, endsEarly, Code.ofTrees_eq_map, List.map_append]
    split
    · rename_i early
      rw [Plan.sequence_of_interrupted early]
    · rename_i late
      obtain ⟨value, left, ran, goesOn⟩ := Plan.sequence_of_not_interrupted (eq_false_of_ne_true late) .null
      rw [ran, goesOn]
      cases statements' with
      | nil => rfl
      | cons => rfl

/-- Running texts that are put together is running the first and then, unless it ends early, the second in
the world it leaves. The result is that of the last one that has a statement. -/
theorem joined_runs_in_order (parsed : parse first = .ok tree) (parsed' : parse second = .ok tree') :
    ∃ statements statements', tree = .node .program statements ∧ tree' = .node .program statements' ∧
      parse (joined first second) = .ok (.node .program (statements ++ statements')) ∧
      ∀ depth scope world,
        let before := runTo depth first scope world
        let after := runTo depth second scope before.2
        runTo depth (joined first second) scope world =
          if endsEarly statements scope world depth then before
          else (if statements' = [] then before.1 else after.1, after.2) := by
  obtain ⟨statements, statements', rfl, rfl, whole⟩ := derive_joined automaton_belongs parsed parsed'
  refine ⟨statements, statements', rfl, rfl, whole, fun depth scope world => ?_⟩
  have ran := evaluateTo_joined statements statements' depth Label.program.name scope world
  simp only [runTo, parsed, parsed', show parse (joined first second) = _ from whole, Tree.describe]
  dsimp only at ran
  rw [ran]
  split
  · rfl
  · split <;> rfl

/-- A text of one literal or name is a program, with or without white space and comments around it. -/
theorem derive_atom (belongs : Belongs states) (scanned : Lexeme.scan source = ⟨[lexeme], none⟩)
    (isAtom : lexeme.kind ∈ Tree.atoms) :
    (derive states (Lexeme.scan source)).map Derivation.tree =
      .ok (.node .program [.node .evaluation [.leaf (.terminal lexeme.kind) lexeme.leafText]]) := by
  have known : ∀ kind ∈ Tree.atoms, ⟨.plainAtom, [.t kind], .splice⟩ ∈ rules ∧ kind.kept = true := by decide
  obtain ⟨rule, kept⟩ := known _ isAtom
  have atom : Yields [.p .plainAtom] [lexeme] [.leaf (.terminal lexeme.kind) lexeme.leafText] := by
    have leaf := (Yields.of_lexeme lexeme).of_rule .splice rule
    rwa [Lexeme.trees, if_pos kept] at leaf
  have pass : ∀ head part {trees}, Yields [.p part] [lexeme] trees → ⟨head, [.p part], .splice⟩ ∈ rules →
      Yields [.p head] [lexeme] trees :=
    fun _ _ _ yields known => yields.of_rule .splice known
  have product := pass .plainProduct .plainUnary
    (pass .plainUnary .plainApplied (pass .plainApplied .plainAtom atom (by decide)) (by decide)) (by decide)
  have comparison := pass .plainComparison .plainSum
    (pass .plainSum .plainProduct product (by decide)) (by decide)
  have expression := pass .plainExpression .plainEquality
    (pass .plainEquality .plainComparison comparison (by decide)) (by decide)
  refine (derive_tree_iff_yields belongs _ _).mpr ?_
  rw [scanned]
  exact ⟨rfl, _, expression.evaluated, rfl⟩

/-- A comment at the end of the first text, which has no semicolon, does not reach into the second. -/
theorem joined_runs_in_order_of_comment :
    let one : Tree := .node .evaluation [.leaf (.terminal .integer) "1"]
    let name : Tree := .node .evaluation [.leaf (.terminal .identifier) "x"]
    parse "1 // one" = .ok (.node .program [one]) ∧ parse " x" = .ok (.node .program [name]) ∧
      parse "1 // one\n;\n x" = .ok (.node .program [one, name]) ∧
      ∀ depth scope world,
        let before := runTo depth "1 // one" scope world
        let after := runTo depth " x" scope before.2
        runTo depth "1 // one\n;\n x" scope world =
          if endsEarly [one] scope world depth then before else after := by
  intro one name
  have split : Lexeme.scan "1 // one" = ⟨[⟨.integer, "1", ⟨1, 1⟩, ⟨1, 2⟩⟩], none⟩ := by decide +kernel
  have split' : Lexeme.scan " x" = ⟨[⟨.identifier, "x", ⟨1, 2⟩, ⟨1, 3⟩⟩], none⟩ := by decide +kernel
  have first : parse "1 // one" = .ok (.node .program [one]) :=
    derive_atom automaton_belongs split (by decide)
  have second : parse " x" = .ok (.node .program [name]) := derive_atom automaton_belongs split' (by decide)
  have text : joined "1 // one" " x" = "1 // one\n;\n x" := by decide
  obtain ⟨_, _, sameFirst, sameSecond, whole, runs⟩ := joined_runs_in_order first second
  cases sameFirst
  cases sameSecond
  rw [text] at whole
  refine ⟨first, second, whole, fun depth scope world => ?_⟩
  have ran := runs depth scope world
  dsimp only at ran
  rwa [text, if_neg (List.cons_ne_nil _ _), Prod.eta] at ran

end TreeWalk
