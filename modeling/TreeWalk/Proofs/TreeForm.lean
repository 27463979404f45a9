import TreeWalk.Proofs.Language

/-! The form of parsed trees.

Trees put together by hand can have anything anywhere. Those that come from the rules have statements
where statements belong and expressions where expressions belong, with the children that their labels
ask for. Which texts the leaves of a kind may have is left open.

Each symbol has a role, which says what kind of trees it makes. That a rule makes trees of the right kind
depends only on its shape and the roles of its parts, so there are far fewer cases than rules. -/
namespace TreeWalk

namespace Tree

variable (spelled : Terminal → String → Prop)

/-- The kinds of leaves that are expressions. -/
def atoms : List Terminal := [.integer, .string, .trueWord, .falseWord, .identifier]

/-- The kinds of leaves that stand between two operands. -/
def binaryOperators : List Terminal :=
  [.equalTo, .notEqual, .less, .greater, .plus, .minus, .star, .slash]

/-- The kinds of leaves that stand before an operand. -/
def unaryOperators : List Terminal := [.bang, .minus]

/-- A leaf of one of some kinds, with a text that such a leaf may have. -/
def IsLeaf (kinds : List Terminal) (tree : Tree) : Prop :=
  ∃ kind ∈ kinds, ∃ text, spelled kind text ∧ tree = .leaf (.terminal kind) text

/-- A leaf that is a name. -/
def IsName (tree : Tree) : Prop := IsLeaf spelled [.identifier] tree

theorem IsName.mk {spelled : Terminal → String → Prop} (spells : spelled .identifier text) :
    IsName spelled (.leaf (.terminal .identifier) text) :=
  ⟨.identifier, List.mem_singleton_self _, text, spells, rfl⟩

theorem IsName.text {spelled : Terminal → String → Prop} (isName : IsName spelled tree) :
    ∃ text, tree = .leaf (.terminal .identifier) text := by
  obtain ⟨kind, isIdentifier, text, _, rfl⟩ := isName
  rw [List.mem_singleton.mp isIdentifier]
  exact ⟨text, rfl⟩

mutual

/-- Trees that stand for a value. -/
inductive IsExpression : Tree → Prop where
  | atom (isAtom : IsLeaf spelled atoms tree) : IsExpression tree
  | array (items : ∀ item ∈ elements, IsExpression item) : IsExpression (.node .array elements)
  | function (names : ∀ param ∈ params, IsName spelled param) (block : IsBlock body) :
      IsExpression (.node .function [.node .params params, body])
  | call (called : IsExpression callee) (passed : ∀ arg ∈ args, IsExpression arg) :
      IsExpression (.node .call [callee, .node .args args])
  | index (left : IsExpression whole) (right : IsExpression place) :
      IsExpression (.node .index [whole, place])
  | binary (left : IsExpression first) (between : IsLeaf spelled binaryOperators op)
      (right : IsExpression second) : IsExpression (.node .binary [first, op, second])
  | unary (before : IsLeaf spelled unaryOperators op) (right : IsExpression operand) :
      IsExpression (.node .unary [op, operand])
  | branch (tested : IsExpression condition) (block : IsBlock consequence) :
      IsExpression (.node .branch [condition, consequence, .absent])
  | branchElse (tested : IsExpression condition) (block : IsBlock consequence) (other : IsBlock alternative) :
      IsExpression (.node .branch [condition, consequence, alternative])

/-- Trees that stand for a step of a program. -/
inductive IsStatement : Tree → Prop where
  | evaluation (value : IsExpression expression) : IsStatement (.node .evaluation [expression])
  | declaration (target : IsName spelled name) (value : IsExpression expression) :
      IsStatement (.node .declaration [name, expression])
  | assignment (target : IsName spelled name) (value : IsExpression expression) :
      IsStatement (.node .assignment [name, expression])
  | returning (value : IsExpression expression) : IsStatement (.node .returning [expression])
  | loop (origin : IsName spelled source) (each : IsName spelled element)
      (counted : index = .absent ∨ IsName spelled index) (block : IsBlock body) :
      IsStatement (.node .loop [source, element, index, body])

/-- Statements in braces. -/
inductive IsBlock : Tree → Prop where
  | block (steps : ∀ statement ∈ statements, IsStatement statement) : IsBlock (.node .block statements)

end

/-- The tree of a whole program. -/
def IsProgram (tree : Tree) : Prop :=
  ∃ statements, (∀ statement ∈ statements, IsStatement spelled statement) ∧ tree = .node .program statements

end Tree

open TreeWalk.Tree

/-- What a symbol stands for in a tree. -/
inductive Role where
  /-- Nothing is left of it. -/
  | nothing
  | leaf (kind : Terminal)
  | names
  | expression
  | expressions
  | statements
  | block
  | program
  deriving DecidableEq, Repr

namespace Role

/-- The trees that a role asks for. -/
def Makes (spelled : Terminal → String → Prop) : Role → List Tree → Prop
  | nothing, trees => trees = []
  | leaf kind, trees => ∃ text, spelled kind text ∧ trees = [.leaf (.terminal kind) text]
  | names, trees => ∀ tree ∈ trees, IsName spelled tree
  | expression, trees => ∃ tree, IsExpression spelled tree ∧ trees = [tree]
  | expressions, trees => ∀ tree ∈ trees, IsExpression spelled tree
  | statements, trees => ∀ tree ∈ trees, IsStatement spelled tree
  | block, trees => ∃ tree, IsBlock spelled tree ∧ trees = [tree]
  | program, trees => ∃ tree, IsProgram spelled tree ∧ trees = [tree]

/-- The trees that roles in a row ask for. -/
inductive MakeAll (spelled : Terminal → String → Prop) : List Role → List Tree → Prop where
  | nil : MakeAll spelled [] []
  | cons (first : role.Makes spelled trees) (others : MakeAll spelled roles rest) :
      MakeAll spelled (role :: roles) (trees ++ rest)

end Role

/-- The role of a phrase. -/
def Phrase.role : Phrase → Role
  | root | start => .program
  | statements | someStatements | statement | simple | declaration | assignment | returning | evaluation
  | conditional | loop => .statements
  | block => .block
  | arguments | moreArguments => .expressions
  | parameters | moreParameters => .names
  | expression | equality | comparison | sum | product | unary | applied | atom | plainExpression
  | plainEquality | plainComparison | plainSum | plainProduct | plainUnary | plainApplied | plainAtom
  | array | function | branch => .expression

/-- The role of a symbol. -/
def Symbol.role : Symbol → Role
  | .t kind => if kind.kept then .leaf kind else .nothing
  | .p phrase => phrase.role

/-- Whether a shape makes what one role asks for out of what others ask for. -/
def Shape.fits : Shape → List Role → Role → Bool
  | .splice, parts, .statements => parts.all (· = .statements)
  | .splice, parts, .expressions => parts.all fun part => part = .expression || part = .expressions
  | .splice, parts, .names => parts.all fun part => part = .leaf .identifier || part = .names
  | .splice, [.leaf kind], .expression => atoms.contains kind
  | .splice, [part], role => part = role
  | .wrap .program, [.statements], .program => true
  | .wrap .block, [.statements], .block => true
  | .wrap .evaluation, [.expression], .statements => true
  | .wrap .returning, [.expression], .statements => true
  | .wrap .declaration, [.leaf .identifier, .expression], .statements => true
  | .wrap .assignment, [.leaf .identifier, .expression], .statements => true
  | .loop, [.leaf .identifier, .leaf .identifier, .block], .statements => true
  | .loop, [.leaf .identifier, .leaf .identifier, .leaf .identifier, .block], .statements => true
  | .wrap .array, [], .expression => true
  | .wrap .array, [.expressions], .expression => true
  | .wrap .index, [.expression, .expression], .expression => true
  | .wrap .binary, [.expression, .leaf kind, .expression], .expression => binaryOperators.contains kind
  | .wrap .unary, [.leaf kind, .expression], .expression => unaryOperators.contains kind
  | .call, [.expression], .expression => true
  | .call, [.expression, .expressions], .expression => true
  | .function, [.block], .expression => true
  | .function, [.names, .block], .expression => true
  | .branch, [.expression, .block], .expression => true
  | .branch, [.expression, .block, .block], .expression => true
  | _, _, _ => false

namespace Role

variable {spelled : Terminal → String → Prop}

/-- What holds of all trees that each role makes holds of all trees that they make in a row. -/
theorem MakeAll.forall {property : Tree → Prop} (made : MakeAll spelled roles trees)
    (each : ∀ role ∈ roles, ∀ trees, role.Makes spelled trees → ∀ tree ∈ trees, property tree) :
    ∀ tree ∈ trees, property tree := by
  induction made with
  | nil => exact fun tree member => absurd member List.not_mem_nil
  | @cons roles rest role trees first others ih =>
    have inFirst := each role List.mem_cons_self trees first
    have inRest := ih fun other member => each other (List.mem_cons_of_mem _ member)
    exact List.forall_mem_append.mpr ⟨inFirst, inRest⟩

/-- Parts of which nothing is left may be left out. -/
theorem MakeAll.kept (made : MakeAll spelled roles trees) :
    MakeAll spelled (roles.filter (· ≠ .nothing)) trees := by
  induction made with
  | nil => exact .nil
  | @cons roles rest role trees first others ih =>
    by_cases isNothing : role = .nothing
    · subst isNothing
      have none : trees = [] := first
      subst none
      simpa using ih
    · rw [List.filter_cons_of_pos (by simpa using isNothing)]
      exact .cons first ih

end Role

open Role

/-- A shape that fits makes what is asked for. -/
theorem Shape.fits_build {spelled : Terminal → String → Prop} {shape : Shape}
    (fits : shape.fits roles role = true) (made : MakeAll spelled roles trees) :
    role.Makes spelled (shape.build trees) := by
  revert fits
  fun_cases Shape.fits shape roles role <;> intro fits
  case case1 =>
    refine made.forall fun part member trees makes => ?_
    have isStatements : part = .statements := by simpa using List.all_eq_true.mp fits part member
    subst isStatements
    exact makes
  case case2 =>
    refine made.forall fun part member trees makes => ?_
    have isPart : part = .expression ∨ part = .expressions := by
      simpa using List.all_eq_true.mp fits part member
    rcases isPart with rfl | rfl
    · obtain ⟨tree, isExpression, rfl⟩ := makes
      simpa using isExpression
    · exact makes
  case case3 =>
    refine made.forall fun part member trees makes => ?_
    have isPart : part = .leaf .identifier ∨ part = .names := by
      simpa using List.all_eq_true.mp fits part member
    rcases isPart with rfl | rfl
    · obtain ⟨text, spells, rfl⟩ := makes
      simpa using IsName.mk spells
    · exact makes
  case case4 kind =>
    obtain _ | ⟨⟨text, spells, rfl⟩, _ | _⟩ := made
    exact ⟨_, .atom ⟨kind, by simpa using fits, text, spells, rfl⟩, rfl⟩
  case case5 part _ _ _ _ =>
    obtain _ | ⟨makes, _ | _⟩ := made
    have same : part = role := by simpa using fits
    subst same
    simpa [Shape.build] using makes
  case case6 =>
    obtain _ | ⟨steps, _ | _⟩ := made
    exact ⟨_, ⟨_, by simpa [Makes] using steps, rfl⟩, rfl⟩
  case case7 =>
    obtain _ | ⟨steps, _ | _⟩ := made
    exact ⟨_, .block (by simpa [Makes] using steps), rfl⟩
  case case8 =>
    obtain _ | ⟨⟨value, isValue, rfl⟩, _ | _⟩ := made
    exact List.forall_mem_singleton.mpr (.evaluation isValue)
  case case9 =>
    obtain _ | ⟨⟨value, isValue, rfl⟩, _ | _⟩ := made
    exact List.forall_mem_singleton.mpr (.returning isValue)
  case case10 =>
    obtain _ | ⟨⟨name, spells, rfl⟩, _ | ⟨⟨value, isValue, rfl⟩, _ | _⟩⟩ := made
    exact List.forall_mem_singleton.mpr (.declaration (.mk spells) isValue)
  case case11 =>
    obtain _ | ⟨⟨name, spells, rfl⟩, _ | ⟨⟨value, isValue, rfl⟩, _ | _⟩⟩ := made
    exact List.forall_mem_singleton.mpr (.assignment (.mk spells) isValue)
  case case12 =>
    obtain _ | ⟨⟨element, spellsElement, rfl⟩, _ | ⟨⟨source, spellsSource, rfl⟩,
      _ | ⟨⟨body, isBlock, rfl⟩, _ | _⟩⟩⟩ := made
    exact List.forall_mem_singleton.mpr (.loop (.mk spellsSource) (.mk spellsElement) (.inl rfl) isBlock)
  case case13 =>
    obtain _ | ⟨⟨element, spellsElement, rfl⟩, _ | ⟨⟨index, spellsIndex, rfl⟩,
      _ | ⟨⟨source, spellsSource, rfl⟩, _ | ⟨⟨body, isBlock, rfl⟩, _ | _⟩⟩⟩⟩ := made
    exact List.forall_mem_singleton.mpr
      (.loop (.mk spellsSource) (.mk spellsElement) (.inr (.mk spellsIndex)) isBlock)
  case case14 =>
    obtain _ | _ := made
    exact ⟨_, .array (by simp), rfl⟩
  case case15 =>
    obtain _ | ⟨items, _ | _⟩ := made
    exact ⟨_, .array (by simpa [Makes] using items), rfl⟩
  case case16 =>
    obtain _ | ⟨⟨whole, isWhole, rfl⟩, _ | ⟨⟨place, isPlace, rfl⟩, _ | _⟩⟩ := made
    exact ⟨_, .index isWhole isPlace, rfl⟩
  case case17 kind =>
    obtain _ | ⟨⟨left, isLeft, rfl⟩, _ | ⟨⟨text, spells, rfl⟩, made⟩⟩ := made
    obtain _ | ⟨⟨right, isRight, rfl⟩, _ | _⟩ := made
    exact ⟨_, .binary isLeft ⟨kind, by simpa using fits, text, spells, rfl⟩ isRight, rfl⟩
  case case18 kind =>
    obtain _ | ⟨⟨text, spells, rfl⟩, _ | ⟨⟨operand, isOperand, rfl⟩, _ | _⟩⟩ := made
    exact ⟨_, .unary ⟨kind, by simpa using fits, text, spells, rfl⟩ isOperand, rfl⟩
  case case19 =>
    obtain _ | ⟨⟨callee, isCallee, rfl⟩, _ | _⟩ := made
    exact ⟨_, .call isCallee (by simp), rfl⟩
  case case20 =>
    obtain _ | ⟨⟨callee, isCallee, rfl⟩, _ | ⟨args, _ | _⟩⟩ := made
    exact ⟨_, .call isCallee (by simpa [Makes] using args), rfl⟩
  case case21 =>
    obtain _ | ⟨⟨body, isBlock, rfl⟩, _ | _⟩ := made
    exact ⟨_, .function (by simp) isBlock, rfl⟩
  case case22 =>
    obtain _ | ⟨params, _ | ⟨⟨body, isBlock, rfl⟩, _ | _⟩⟩ := made
    refine ⟨_, .function params isBlock, ?_⟩
    simp [Shape.build]
  case case23 =>
    obtain _ | ⟨⟨condition, isCondition, rfl⟩, _ | ⟨⟨block, isBlock, rfl⟩, _ | _⟩⟩ := made
    exact ⟨_, .branch isCondition isBlock, rfl⟩
  case case24 =>
    obtain _ | ⟨⟨condition, isCondition, rfl⟩, _ | ⟨⟨block, isBlock, rfl⟩,
      _ | ⟨⟨other, isOther, rfl⟩, _ | _⟩⟩⟩ := made
    exact ⟨_, .branchElse isCondition isBlock isOther, rfl⟩
  case case25 => contradiction

namespace Grammar

theorem rules_fit : ∀ rule ∈ rules,
    rule.shape.fits ((rule.body.map Symbol.role).filter (· ≠ .nothing)) rule.head.role = true := by
  decide

/-- A derivation makes the trees that the role of its symbol asks for, with the texts of its lexemes. -/
theorem Derives.makes {spelled : Terminal → String → Prop} (derives : Derives symbol lexemes derivation)
    (spells : ∀ lexeme ∈ lexemes, spelled lexeme.kind lexeme.leafText) :
    symbol.role.Makes spelled derivation.forest := by
  refine (derives_induction
    (fun symbol lexemes derivation => (∀ lexeme ∈ lexemes, spelled lexeme.kind lexeme.leafText) →
      symbol.role.Makes spelled derivation.forest)
    (fun symbols lexemes derivations => (∀ lexeme ∈ lexemes, spelled lexeme.kind lexeme.leafText) →
      MakeAll spelled (symbols.map Symbol.role) (Derivation.forests derivations))
    ?leaf ?node ?nil ?cons).1 symbol lexemes derivation derives spells
  case leaf =>
    intro lexeme spells
    have spelt := spells lexeme List.mem_cons_self
    rw [Derivation.forest, Lexeme.trees, Symbol.role]
    split
    · exact ⟨_, spelt, rfl⟩
    · rfl
  case node =>
    intro rule lexemes children known _ makes spells
    exact Shape.fits_build (rules_fit rule known) (makes spells).kept
  case nil => exact fun _ => .nil
  case cons =>
    intro symbol lexemes derivation symbols rest derivations _ _ first others spells
    obtain ⟨inFirst, inRest⟩ := List.forall_mem_append.mp spells
    exact .cons (first inFirst) (others inRest)

/-- The tree of a program is well formed, with the texts of the lexemes that it comes from. -/
theorem Derives.isProgram {spelled : Terminal → String → Prop}
    (derives : Derives (.p .start) lexemes derivation)
    (spells : ∀ lexeme ∈ lexemes, spelled lexeme.kind lexeme.leafText) :
    IsProgram spelled derivation.tree := by
  obtain ⟨tree, isProgram, made⟩ := derives.makes spells
  rw [Derivation.tree, made]
  exact isProgram

end Grammar

end TreeWalk
