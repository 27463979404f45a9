import TreeWalk.Proofs.Language

/-! The two ladders of expressions.

The plain phrases are a copy of the ladder without the expressions that begin with `if`. What comes from a
phrase of the ladder and does not begin with `if` comes from its plain copy too, and makes the same trees;
what comes from the copy comes from the phrase. An atom that does begin with `if` is a branch. So whether an
expression may stand as a statement is a matter of its first lexeme alone. -/
namespace TreeWalk

/-- The plain copy of a phrase of the ladder; other phrases have none and stay as they are. -/
def Phrase.plain : Phrase → Phrase
  | expression => plainExpression
  | equality => plainEquality
  | comparison => plainComparison
  | sum => plainSum
  | product => plainProduct
  | unary => plainUnary
  | applied => plainApplied
  | atom => plainAtom
  | phrase => phrase

namespace Symbol

/-- The plain copy of a symbol. -/
def plain : Symbol → Symbol
  | .t terminal => .t terminal
  | .p phrase => .p phrase.plain

/-- Only what stands first decides how a row begins. -/
def plainFirst : List Symbol → List Symbol
  | [] => []
  | symbol :: symbols => symbol.plain :: symbols

end Symbol

namespace Lexeme

/-- The first lexeme is `if`. -/
def BeginWithIf (lexemes : List Lexeme) : Prop := lexemes.head?.map kind = some .ifWord

theorem head?_kind_append (begins : lexemes.head?.map kind = some t) (rest : List Lexeme) :
    (lexemes ++ rest).head?.map kind = some t := by
  cases lexemes with
  | nil => cases begins
  | cons => exact begins

theorem BeginWithIf.append (begins : BeginWithIf lexemes) (rest : List Lexeme) :
    BeginWithIf (lexemes ++ rest) :=
  head?_kind_append begins rest

end Lexeme

namespace Grammar

open Lexeme

/-- A rule has a plain copy, or is about something else than the ladder, or is one of the two for atoms. -/
theorem plain_rules : ∀ rule ∈ rules,
    rule.head.plain = rule.head ∨ ⟨rule.head.plain, Symbol.plainFirst rule.body, rule.shape⟩ ∈ rules ∨
      rule.body = [.p rule.head.plain] ∧ rule.shape = .splice ∨ rule.body = [.p .branch] := by
  decide

set_option maxRecDepth 100000 in
/-- A rule for a plain phrase is the copy of one for the phrase itself, unless the phrase takes all that
its copy does as it is. -/
theorem copied_rules : ∀ rule ∈ rules, ∀ phrase ∈ Phrase.all, phrase.plain = rule.head →
    phrase = rule.head ∨ ⟨phrase, [.p rule.head], .splice⟩ ∈ rules ∨
      ∃ original ∈ rules, original.head = phrase ∧ Symbol.plainFirst original.body = rule.body ∧
        original.shape = rule.shape := by
  decide

/-- An atom is plain or a branch. -/
theorem atom_rules : ∀ rule ∈ rules, rule.head = .atom →
    rule.shape = .splice ∧ (rule.body = [.p .plainAtom] ∨ rule.body = [.p .branch]) := by
  decide

set_option maxRecDepth 100000 in
theorem DerivesAll.branch_begins (derives : DerivesAll [.p .branch] lexemes derivations) :
    BeginWithIf lexemes := by
  have only : (Opening.ofSymbols Opening.table [.p .branch]).vanishes = false ∧ ∀ t ∈ Terminal.all,
      (Opening.ofSymbols Opening.table [.p .branch]).first.contains t = true → t = .ifWord := by
    decide +kernel
  have allowed := derives.allowed
  cases lexemes with
  | nil => exact absurd allowed (by simp [Opening.Allows, only.1])
  | cons lexeme rest => exact congrArg some (only.2 _ (Terminal.mem_all _) allowed)

/-- What a phrase does not open with does not begin its lexemes. -/
theorem DerivesAll.not_beginWithIf (derives : DerivesAll symbols lexemes derivations)
    (never : (Opening.ofSymbols Opening.table symbols).first.contains .ifWord = false) :
    ¬ BeginWithIf lexemes := by
  have allowed := derives.allowed
  intro begins
  cases lexemes with
  | nil => cases begins
  | cons lexeme rest =>
    have isIf : lexeme.kind = .ifWord := Option.some.inj begins
    rw [Opening.Allows, isIf, never] at allowed
    cases allowed

set_option maxRecDepth 100000 in
/-- No plain expression, and so no plain atom, begins with `if`. -/
theorem plain_openings : ∀ phrase ∈ [Phrase.plainExpression, .plainAtom],
    (Opening.ofSymbols Opening.table [.p phrase]).first.contains .ifWord = false := by
  decide +kernel

/-- A phrase that is passed on by a rule makes the trees that it makes itself. -/
theorem DerivesAll.passed (derives : DerivesAll [.p phrase] lexemes derivations) :
    ∃ derivation, Derives (.p phrase) lexemes derivation ∧
      derivation.forest = Derivation.forests derivations := by
  cases derives with
  | cons first others =>
    cases others with
    | nil =>
      refine ⟨_, ?_, (List.append_nil _).symm⟩
      rwa [List.append_nil]

/-- What does not begin with `if` comes from the plain copy as well. -/
theorem Derives.plain (derives : Derives symbol lexemes derivation) (notIf : ¬ BeginWithIf lexemes) :
    ∃ derivation', Derives symbol.plain lexemes derivation' ∧ derivation'.forest = derivation.forest := by
  refine (derives_induction
    (fun symbol lexemes derivation => ¬ BeginWithIf lexemes →
      ∃ derivation', Derives symbol.plain lexemes derivation' ∧ derivation'.forest = derivation.forest)
    (fun symbols lexemes derivations => ¬ BeginWithIf lexemes →
      ∃ derivations', DerivesAll (Symbol.plainFirst symbols) lexemes derivations' ∧
        Derivation.forests derivations' = Derivation.forests derivations)
    ?leaf ?node ?nil ?cons).1 symbol lexemes derivation derives notIf
  case leaf => exact fun lexeme _ => ⟨.leaf lexeme, .leaf lexeme, rfl⟩
  case node =>
    intro rule lexemes children known parts ih notIf
    rcases plain_rules rule known with same | copied | ⟨isPlain, spliced⟩ | isBranch
    · refine ⟨.node rule children, ?_, rfl⟩
      rw [Symbol.plain, same]
      exact .node known parts
    · obtain ⟨children', derived, sameTrees⟩ := ih notIf
      exact ⟨_, .node copied derived, by rw [Derivation.forest, Derivation.forest, sameTrees]⟩
    · rw [isPlain] at parts
      obtain ⟨derivation, derived, sameTrees⟩ := parts.passed
      refine ⟨derivation, derived, ?_⟩
      rw [Derivation.forest, spliced, Shape.build, sameTrees]
    · rw [isBranch] at parts
      exact absurd parts.branch_begins notIf
  case nil => exact fun _ => ⟨[], .nil, rfl⟩
  case cons =>
    intro symbol lexemes derivation symbols rest derivations _ others ih _ notIf
    obtain ⟨derivation', derived, sameTrees⟩ := ih fun begins => notIf (begins.append rest)
    refine ⟨derivation' :: derivations, .cons derived others, ?_⟩
    rw [Derivation.forests, Derivation.forests, sameTrees]

/-- What comes from the plain copy of a symbol comes from the symbol itself. -/
theorem Derives.of_plain (derives : Derives symbol.plain lexemes derivation) :
    ∃ derivation', Derives symbol lexemes derivation' ∧ derivation'.forest = derivation.forest := by
  refine (derives_induction
    (fun copy lexemes derivation => ∀ symbol : Symbol, symbol.plain = copy →
      ∃ derivation', Derives symbol lexemes derivation' ∧ derivation'.forest = derivation.forest)
    (fun copies lexemes derivations => ∀ symbols, Symbol.plainFirst symbols = copies →
      ∃ derivations', DerivesAll symbols lexemes derivations' ∧
        Derivation.forests derivations' = Derivation.forests derivations)
    ?leaf ?node ?nil ?cons).1 symbol.plain lexemes derivation derives symbol rfl
  case leaf =>
    intro lexeme symbol isCopy
    cases symbol with
    | p => cases isCopy
    | t terminal =>
      cases isCopy
      exact ⟨.leaf lexeme, .leaf lexeme, rfl⟩
  case node =>
    intro rule lexemes children known parts ih symbol isCopy
    cases symbol with
    | t => cases isCopy
    | p phrase =>
      have ofRule := copied_rules rule known phrase (Phrase.mem_all phrase) (Symbol.p.inj isCopy)
      rcases ofRule with rfl | passed | ⟨original, known', rfl, isBody, isShape⟩
      · exact ⟨.node rule children, .node known parts, rfl⟩
      · exact ⟨_, .node passed (.singleton (.node known parts)), List.append_nil _⟩
      · obtain ⟨children', derived, sameTrees⟩ := ih original.body isBody
        exact ⟨.node original children', .node known' derived,
          by rw [Derivation.forest, Derivation.forest, sameTrees, isShape]⟩
  case nil =>
    intro symbols isCopy
    cases symbols with
    | nil => exact ⟨[], .nil, rfl⟩
    | cons => cases isCopy
  case cons =>
    intro copy lexemes derivation others rest derivations _ derives ih _ symbols isCopy
    cases symbols with
    | nil => cases isCopy
    | cons symbol symbols =>
      cases isCopy
      obtain ⟨derivation', derived, sameTrees⟩ := ih symbol rfl
      refine ⟨derivation' :: derivations, .cons derived derives, ?_⟩
      rw [Derivation.forests, Derivation.forests, sameTrees]

/-- An atom that begins with `if` is a branch. -/
theorem Derives.branch_of_atom (derives : Derives symbol lexemes derivation) (isAtom : symbol = .p .atom)
    (begins : BeginWithIf lexemes) :
    ∃ derivation', Derives (.p .branch) lexemes derivation' ∧ derivation'.forest = derivation.forest := by
  cases derives with
  | leaf => cases isAtom
  | @node rule _ children known parts =>
    obtain ⟨spliced, isPlain | isBranch⟩ := atom_rules rule known (Symbol.p.inj isAtom)
    · rw [isPlain] at parts
      exact absurd begins (parts.not_beginWithIf (plain_openings .plainAtom (by decide)))
    · rw [isBranch] at parts
      obtain ⟨derivation', derived, sameTrees⟩ := parts.passed
      refine ⟨derivation', derived, ?_⟩
      rw [Derivation.forest, spliced, Shape.build, sameTrees]

end Grammar

end TreeWalk
