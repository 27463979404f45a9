import TreeWalk.Tree

/-! The rules of the language and the trees they make.

An expression that stands as a statement may not begin with `if`, so the ladder from equality down to
atoms exists twice: the plain phrases are those whose first lexeme is not `if`. Each rule says how the
trees of its parts become the trees of the whole. -/
namespace TreeWalk

/-- The phrases of the language. -/
inductive Phrase where
  | root
  | start
  | statements
  | statement
  | simple
  | declaration
  | assignment
  | returning
  | evaluation
  | conditional
  | loop
  | block
  | expression
  | equality
  | comparison
  | sum
  | product
  | unary
  | applied
  | atom
  | plainExpression
  | plainEquality
  | plainComparison
  | plainSum
  | plainProduct
  | plainUnary
  | plainApplied
  | plainAtom
  | array
  | arguments
  | function
  | parameters
  | branch
  | someStatements
  | moreArguments
  | moreParameters
  deriving DecidableEq, Repr

namespace Phrase

/-- Every phrase, in the order of declaration. -/
def all : List Phrase :=
  [root, start, statements, statement, simple, declaration, assignment, returning, evaluation,
    conditional, loop, block, expression, equality, comparison, sum, product, unary, applied, atom,
    plainExpression, plainEquality, plainComparison, plainSum, plainProduct, plainUnary, plainApplied,
    plainAtom, array, arguments, function, parameters, branch, someStatements, moreArguments,
    moreParameters]

theorem mem_all (p : Phrase) : p ∈ all := by cases p <;> decide

end Phrase

/-- A part of a rule: a terminal or a phrase. -/
inductive Symbol where
  | t (terminal : Terminal)
  | p (phrase : Phrase)
  deriving DecidableEq, Repr

/-- What a rule makes of the trees of its parts. -/
inductive Shape where
  /-- The trees of the parts stand in the parent themselves. -/
  | splice
  /-- One node over the trees of the parts. -/
  | wrap (label : Label)
  /-- The first tree is called with the others as arguments. -/
  | call
  /-- The last tree is the body of a function, the others are its parameters. -/
  | function
  /-- Condition, consequence and perhaps an alternative. -/
  | branch
  /-- Element, perhaps index, source and body of a loop. -/
  | loop
  deriving DecidableEq, Repr

namespace Shape

/-- The trees of the whole from those of the parts. -/
def build : Shape → List Tree → List Tree
  | splice, parts => parts
  | wrap label, parts => [.node label parts]
  | call, callee :: args => [.node .call [callee, .node .args args]]
  | call, [] => []
  | function, parts =>
    match parts.getLast? with
    | some body => [.node .function [.node .params parts.dropLast, body]]
    | none => []
  | branch, [condition, consequence] => [.node .branch [condition, consequence, .absent]]
  | branch, parts => [.node .branch parts]
  | loop, [element, source, body] => [.node .loop [source, element, .absent, body]]
  | loop, [element, index, source, body] => [.node .loop [source, element, index, body]]
  | loop, parts => [.node .loop parts]

end Shape

/-- A rule: the phrase it explains, the parts in order, and what becomes of their trees. -/
structure Rule where
  head : Phrase
  body : List Symbol
  shape : Shape
  deriving DecidableEq, Repr

namespace Grammar

/-- The rules of the language. The first one is the whole input. -/
def rules : List Rule := [
  ⟨.root, [.p .start, .t .endOfInput], .splice⟩,
  ⟨.start, [.p .statements], .wrap .program⟩,
  ⟨.statements, [.p .someStatements, .p .simple], .splice⟩,
  ⟨.statements, [.p .someStatements], .splice⟩,
  ⟨.statements, [.p .simple], .splice⟩,
  ⟨.statements, [], .splice⟩,
  ⟨.statement, [.p .simple, .t .semicolon], .splice⟩,
  ⟨.statement, [.p .loop], .splice⟩,
  ⟨.statement, [.p .conditional], .splice⟩,
  ⟨.statement, [.t .semicolon], .splice⟩,
  ⟨.simple, [.p .declaration], .splice⟩,
  ⟨.simple, [.p .assignment], .splice⟩,
  ⟨.simple, [.p .returning], .splice⟩,
  ⟨.simple, [.p .evaluation], .splice⟩,
  ⟨.declaration, [.t .varWord, .t .identifier, .t .assign, .p .expression], .wrap .declaration⟩,
  ⟨.assignment, [.t .identifier, .t .assign, .p .expression], .wrap .assignment⟩,
  ⟨.returning, [.t .returnWord, .p .expression], .wrap .returning⟩,
  ⟨.evaluation, [.p .plainExpression], .wrap .evaluation⟩,
  ⟨.conditional, [.p .branch], .wrap .evaluation⟩,
  ⟨.loop, [.t .forWord, .t .leftParen, .t .identifier, .t .comma, .t .identifier, .t .inWord,
    .t .identifier, .t .rightParen, .p .block], .loop⟩,
  ⟨.loop, [.t .forWord, .t .leftParen, .t .identifier, .t .inWord, .t .identifier, .t .rightParen,
    .p .block], .loop⟩,
  ⟨.block, [.t .leftBrace, .p .statements, .t .rightBrace], .wrap .block⟩,
  ⟨.expression, [.p .equality], .splice⟩,
  ⟨.equality, [.p .equality, .t .equalTo, .p .comparison], .wrap .binary⟩,
  ⟨.equality, [.p .equality, .t .notEqual, .p .comparison], .wrap .binary⟩,
  ⟨.equality, [.p .comparison], .splice⟩,
  ⟨.comparison, [.p .comparison, .t .less, .p .sum], .wrap .binary⟩,
  ⟨.comparison, [.p .comparison, .t .greater, .p .sum], .wrap .binary⟩,
  ⟨.comparison, [.p .sum], .splice⟩,
  ⟨.sum, [.p .sum, .t .plus, .p .product], .wrap .binary⟩,
  ⟨.sum, [.p .sum, .t .minus, .p .product], .wrap .binary⟩,
  ⟨.sum, [.p .product], .splice⟩,
  ⟨.product, [.p .product, .t .star, .p .unary], .wrap .binary⟩,
  ⟨.product, [.p .product, .t .slash, .p .unary], .wrap .binary⟩,
  ⟨.product, [.p .unary], .splice⟩,
  ⟨.unary, [.t .bang, .p .unary], .wrap .unary⟩,
  ⟨.unary, [.t .minus, .p .unary], .wrap .unary⟩,
  ⟨.unary, [.p .applied], .splice⟩,
  ⟨.applied, [.p .applied, .t .leftParen, .p .arguments, .t .rightParen], .call⟩,
  ⟨.applied, [.p .applied, .t .leftParen, .t .rightParen], .call⟩,
  ⟨.applied, [.p .applied, .t .leftBracket, .p .expression, .t .rightBracket], .wrap .index⟩,
  ⟨.applied, [.p .atom], .splice⟩,
  ⟨.atom, [.p .plainAtom], .splice⟩,
  ⟨.atom, [.p .branch], .splice⟩,
  ⟨.plainExpression, [.p .plainEquality], .splice⟩,
  ⟨.plainEquality, [.p .plainEquality, .t .equalTo, .p .comparison], .wrap .binary⟩,
  ⟨.plainEquality, [.p .plainEquality, .t .notEqual, .p .comparison], .wrap .binary⟩,
  ⟨.plainEquality, [.p .plainComparison], .splice⟩,
  ⟨.plainComparison, [.p .plainComparison, .t .less, .p .sum], .wrap .binary⟩,
  ⟨.plainComparison, [.p .plainComparison, .t .greater, .p .sum], .wrap .binary⟩,
  ⟨.plainComparison, [.p .plainSum], .splice⟩,
  ⟨.plainSum, [.p .plainSum, .t .plus, .p .product], .wrap .binary⟩,
  ⟨.plainSum, [.p .plainSum, .t .minus, .p .product], .wrap .binary⟩,
  ⟨.plainSum, [.p .plainProduct], .splice⟩,
  ⟨.plainProduct, [.p .plainProduct, .t .star, .p .unary], .wrap .binary⟩,
  ⟨.plainProduct, [.p .plainProduct, .t .slash, .p .unary], .wrap .binary⟩,
  ⟨.plainProduct, [.p .plainUnary], .splice⟩,
  ⟨.plainUnary, [.t .bang, .p .unary], .wrap .unary⟩,
  ⟨.plainUnary, [.t .minus, .p .unary], .wrap .unary⟩,
  ⟨.plainUnary, [.p .plainApplied], .splice⟩,
  ⟨.plainApplied, [.p .plainApplied, .t .leftParen, .p .arguments, .t .rightParen], .call⟩,
  ⟨.plainApplied, [.p .plainApplied, .t .leftParen, .t .rightParen], .call⟩,
  ⟨.plainApplied, [.p .plainApplied, .t .leftBracket, .p .expression, .t .rightBracket],
    .wrap .index⟩,
  ⟨.plainApplied, [.p .plainAtom], .splice⟩,
  ⟨.plainAtom, [.t .integer], .splice⟩,
  ⟨.plainAtom, [.t .string], .splice⟩,
  ⟨.plainAtom, [.t .trueWord], .splice⟩,
  ⟨.plainAtom, [.t .falseWord], .splice⟩,
  ⟨.plainAtom, [.t .identifier], .splice⟩,
  ⟨.plainAtom, [.p .array], .splice⟩,
  ⟨.plainAtom, [.p .function], .splice⟩,
  ⟨.plainAtom, [.t .leftParen, .p .expression, .t .rightParen], .splice⟩,
  ⟨.array, [.t .leftBracket, .p .arguments, .t .rightBracket], .wrap .array⟩,
  ⟨.array, [.t .leftBracket, .t .rightBracket], .wrap .array⟩,
  ⟨.arguments, [.p .expression, .p .moreArguments], .splice⟩,
  ⟨.arguments, [.p .expression], .splice⟩,
  ⟨.function, [.t .functionWord, .t .leftParen, .p .parameters, .t .rightParen, .p .block],
    .function⟩,
  ⟨.function, [.t .functionWord, .t .leftParen, .t .rightParen, .p .block], .function⟩,
  ⟨.parameters, [.t .identifier, .p .moreParameters], .splice⟩,
  ⟨.parameters, [.t .identifier], .splice⟩,
  ⟨.branch, [.t .ifWord, .t .leftParen, .p .expression, .t .rightParen, .p .block, .t .elseWord,
    .p .block], .branch⟩,
  ⟨.branch, [.t .ifWord, .t .leftParen, .p .expression, .t .rightParen, .p .block], .branch⟩,
  ⟨.someStatements, [.p .statement], .splice⟩,
  ⟨.someStatements, [.p .someStatements, .p .statement], .splice⟩,
  ⟨.moreArguments, [.t .comma, .p .expression], .splice⟩,
  ⟨.moreArguments, [.p .moreArguments, .t .comma, .p .expression], .splice⟩,
  ⟨.moreParameters, [.t .comma, .t .identifier], .splice⟩,
  ⟨.moreParameters, [.p .moreParameters, .t .comma, .t .identifier], .splice⟩]

end Grammar

end TreeWalk
