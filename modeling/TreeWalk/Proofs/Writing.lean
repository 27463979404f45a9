import TreeWalk.Proofs.Ladders
import TreeWalk.Proofs.Spelling

/-! Writing trees as source text.

A tree is written from the leaves up. Each expression has a rung on the ladder of the rules, from equality
up to atoms, and is put in parentheses only where a higher rung is asked for: as an operand of an operator
that binds tighter, as the right operand of one that binds as tightly, as what is called or indexed. One
more pair is needed for an expression statement that would begin with `if` without being a branch.

Rows of lexemes are judged by what they stand for: they are found again in a text, and come from given
symbols with given trees. The rules of the language combine such rows. -/
namespace TreeWalk

open Grammar

namespace Terminal

/-- The rung on which an operator takes its operands; what is no operator stands on the highest. -/
def rung : Terminal → Nat
  | equalTo | notEqual => 0
  | less | greater => 1
  | plus | minus => 2
  | star | slash => 3
  | _ => 6

/-- The spelling of a leaf. -/
def written (t : Terminal) (text : String) : String := if t = .string then Lexeme.quote text else text

end Terminal

/-- The phrase on a rung of the ladder. -/
def Phrase.ladder : Nat → Phrase
  | 0 => equality
  | 1 => comparison
  | 2 => sum
  | 3 => product
  | 4 => unary
  | 5 => applied
  | _ => atom

/-- A tree written out: its rung on the ladder and its lexemes. -/
structure Written where
  rung : Nat
  tokens : List (Terminal × String)
  deriving DecidableEq, Repr

namespace Written

/-- A lexeme with one spelling. -/
def sign (t : Terminal) : List (Terminal × String) := [(t, t.spelling)]

/-- Lexemes in parentheses. -/
def parenthesized (tokens : List (Terminal × String)) : List (Terminal × String) :=
  sign .leftParen ++ (tokens ++ sign .rightParen)

/-- Something that needs no parentheses around it. -/
def closed (tokens : List (Terminal × String)) : Written := ⟨6, tokens⟩

/-- An expression where a rung is asked for, in parentheses if it stands below. -/
def atLeast (rung : Nat) (part : Written) : List (Terminal × String) :=
  if rung ≤ part.rung then part.tokens else parenthesized part.tokens

/-- Parts with commas between them. -/
def separated : List Written → List (Terminal × String)
  | [] => []
  | first :: rest => first.tokens ++ rest.flatMap fun part => sign .comma ++ part.tokens

/-- The first lexeme is `if`. -/
def beginsWithIf (part : Written) : Bool := part.tokens.head?.map Prod.fst = some .ifWord

/-- An expression as a statement. A branch needs no semicolon after it, and anything else that begins
with `if` needs parentheses. -/
def asStatement (part : Written) : List (Terminal × String) :=
  if !part.beginsWithIf then part.tokens ++ sign .semicolon
  else if part.rung = 6 then part.tokens
  else parenthesized part.tokens ++ sign .semicolon

/-- Lexemes after a word or sign, unless there are none. -/
def unlessEmpty (t : Terminal) (part : Written) : List (Terminal × String) :=
  if part.tokens.isEmpty then [] else sign t ++ part.tokens

/-- How a node is written, from how its children are. -/
def layout : Label → List Written → Written
  | .program, statements => closed (statements.flatMap tokens)
  | .block, statements =>
    closed (sign .leftBrace ++ (statements.flatMap tokens ++ sign .rightBrace))
  | .evaluation, [value] => closed value.asStatement
  | .declaration, [name, value] =>
    closed (sign .varWord ++ (name.tokens ++ (sign .assign ++ value.tokens)) ++ sign .semicolon)
  | .assignment, [name, value] =>
    closed (name.tokens ++ (sign .assign ++ value.tokens) ++ sign .semicolon)
  | .returning, [value] => closed (sign .returnWord ++ value.tokens ++ sign .semicolon)
  | .loop, [source, element, index, body] =>
    closed (sign .forWord ++ (sign .leftParen ++ (element.tokens ++ (unlessEmpty .comma index ++
      (sign .inWord ++ (source.tokens ++ (sign .rightParen ++ body.tokens)))))))
  | .branch, [condition, consequence, alternative] =>
    closed (sign .ifWord ++ (sign .leftParen ++ (condition.tokens ++ (sign .rightParen ++
      (consequence.tokens ++ unlessEmpty .elseWord alternative)))))
  | .function, [params, body] =>
    closed (sign .functionWord ++ (sign .leftParen ++ (params.tokens ++ (sign .rightParen ++ body.tokens))))
  | .array, items => closed (sign .leftBracket ++ (separated items ++ sign .rightBracket))
  | .call, [callee, args] =>
    ⟨5, callee.atLeast 5 ++ (sign .leftParen ++ (args.tokens ++ sign .rightParen))⟩
  | .index, [whole, place] =>
    ⟨5, whole.atLeast 5 ++ (sign .leftBracket ++ (place.tokens ++ sign .rightBracket))⟩
  | .binary, [left, op, right] =>
    ⟨op.rung, left.atLeast op.rung ++ (op.tokens ++ right.atLeast (op.rung + 1))⟩
  | .unary, [op, operand] => ⟨4, op.tokens ++ operand.atLeast 4⟩
  | _, parts => closed (separated parts)

end Written

open Written (sign closed separated)

namespace Tree

mutual

/-- How a tree is written. -/
def written : Tree → Written
  | node label children => Written.layout label (writtenAll children)
  | leaf (.terminal t) text => ⟨t.rung, [(t, t.written text)]⟩
  | leaf (.other _) _ => closed []
  | absent => closed []

/-- How the trees of a list are written. -/
def writtenAll : List Tree → List Written
  | [] => []
  | tree :: trees => written tree :: writtenAll trees

end

/-- The source text of a tree, with a space after each lexeme. -/
def print (tree : Tree) : String := String.ofList (Lexeme.spaced tree.written.tokens)

theorem writtenAll_eq_map (trees : List Tree) : writtenAll trees = trees.map written := by
  induction trees with
  | nil => rfl
  | cons tree trees ih => rw [writtenAll, ih, List.map_cons]

end Tree

/-- What a lexeme adds to a tree: its kind and the text of its leaf. -/
def Lexeme.content (lexeme : Lexeme) : Terminal × String := (lexeme.kind, lexeme.leafText)

/-- What a lexeme of a kind and spelling adds to a tree. -/
def Written.content (token : Terminal × String) : Terminal × String :=
  (token.1, if token.1 = .string then Lexeme.stringValue token.2 else token.2)

theorem contents_eq (lexemes : List Lexeme) :
    lexemes.map Lexeme.content = (lexemes.map Lexeme.token).map Written.content := by
  rw [List.map_map]
  rfl

namespace Grammar

theorem forests_append (first second : List Derivation) :
    Derivation.forests (first ++ second) = Derivation.forests first ++ Derivation.forests second := by
  induction first with
  | nil => rfl
  | cons derivation first ih => rw [List.cons_append, Derivation.forests, Derivation.forests, ih,
      List.append_assoc]

/-- The lexemes come from the symbols, by derivations that make these trees. -/
def Yields (symbols : List Symbol) (lexemes : List Lexeme) (trees : List Tree) : Prop :=
  ∃ derivations, DerivesAll symbols lexemes derivations ∧ Derivation.forests derivations = trees

namespace Yields

theorem nil : Yields [] [] [] := ⟨[], .nil, rfl⟩

theorem append (first : Yields symbols lexemes trees) (second : Yields symbols' lexemes' trees') :
    Yields (symbols ++ symbols') (lexemes ++ lexemes') (trees ++ trees') := by
  obtain ⟨derivations, derives, rfl⟩ := first
  obtain ⟨derivations', derives', rfl⟩ := second
  exact ⟨derivations ++ derivations', derives.append derives', forests_append _ _⟩

/-- A rule makes a phrase of its parts. -/
theorem of_rule (shape : Shape) (known : ⟨head, body, shape⟩ ∈ rules) (parts : Yields body lexemes trees) :
    Yields [.p head] lexemes (shape.build trees) := by
  obtain ⟨children, derives, rfl⟩ := parts
  refine ⟨[.node ⟨head, body, shape⟩ children], .singleton (.node known derives), ?_⟩
  rw [Derivation.forests, Derivation.forests, List.append_nil, Derivation.forest]

/-- A lexeme by itself. -/
theorem of_lexeme (lexeme : Lexeme) : Yields [.t lexeme.kind] [lexeme] lexeme.trees := by
  refine ⟨_, .singleton (.leaf lexeme), ?_⟩
  rw [Derivation.forests, Derivation.forests, List.append_nil, Derivation.forest]

end Yields

theorem DerivesAll.yields (derives : DerivesAll symbols lexemes derivations) :
    Yields symbols lexemes (Derivation.forests derivations) :=
  ⟨derivations, derives, rfl⟩

theorem Derives.yields (derives : Derives symbol lexemes derivation) :
    Yields [symbol] lexemes derivation.forest :=
  ⟨[derivation], .singleton derives, List.append_nil _⟩

/-- Lexemes of the same kinds come from the same symbols, and if their leaves have the same texts too, with
the same trees. -/
theorem DerivesAll.relabel (derives : DerivesAll symbols lexemes derivations)
    (same : lexemes'.map Lexeme.kind = lexemes.map Lexeme.kind) :
    ∃ trees, Yields symbols lexemes' trees ∧
      (lexemes'.map Lexeme.content = lexemes.map Lexeme.content → trees = Derivation.forests derivations) := by
  have both := derives_induction
    (fun symbol lexemes derivation => ∀ lexemes', lexemes'.map Lexeme.kind = lexemes.map Lexeme.kind →
      ∃ trees, Yields [symbol] lexemes' trees ∧
        (lexemes'.map Lexeme.content = lexemes.map Lexeme.content → trees = derivation.forest))
    (fun symbols lexemes derivations => ∀ lexemes', lexemes'.map Lexeme.kind = lexemes.map Lexeme.kind →
      ∃ trees, Yields symbols lexemes' trees ∧
        (lexemes'.map Lexeme.content = lexemes.map Lexeme.content → trees = Derivation.forests derivations))
    (fun lexeme lexemes' same => by
      obtain ⟨lexeme', rfl, sameKind⟩ := List.map_eq_singleton_iff.mp same
      refine ⟨lexeme'.trees, sameKind ▸ .of_lexeme lexeme', fun sameContents => ?_⟩
      obtain ⟨_, sameText⟩ := Prod.mk.inj (List.cons.inj sameContents).1
      simp only [Derivation.forest, Lexeme.trees, sameKind, sameText])
    (fun rule lexemes children known _ parts lexemes' same => by
      obtain ⟨trees, yields, sameTrees⟩ := parts lexemes' same
      refine ⟨rule.shape.build trees, yields.of_rule rule.shape known, fun sameContents => ?_⟩
      rw [Derivation.forest, sameTrees sameContents])
    (fun lexemes' same => by
      rw [List.map_eq_nil_iff.mp same]
      exact ⟨[], .nil, fun _ => rfl⟩)
    (fun symbol lexemes derivation symbols rest derivations _ _ first others lexemes' same => by
      rw [List.map_append] at same
      obtain ⟨before, after, rfl, isFirst, isRest⟩ := List.map_eq_append_iff.mp same
      obtain ⟨trees, yields, sameTrees⟩ := first before isFirst
      obtain ⟨trees', yields', sameTrees'⟩ := others after isRest
      refine ⟨trees ++ trees', yields.append yields', fun sameContents => ?_⟩
      have counted : (before.map Lexeme.content).length = (lexemes.map Lexeme.content).length := by
        simpa using congrArg List.length isFirst
      rw [List.map_append, List.map_append] at sameContents
      obtain ⟨contentsBefore, contentsAfter⟩ := List.append_inj sameContents counted
      rw [Derivation.forests, sameTrees contentsBefore, sameTrees' contentsAfter])
  exact both.2 symbols lexemes derivations derives lexemes' same

theorem kinds_eq_of_tokens {lexemes lexemes' : List Lexeme}
    (same : lexemes'.map Lexeme.token = lexemes.map Lexeme.token) :
    lexemes'.map Lexeme.kind = lexemes.map Lexeme.kind := by
  simpa [Lexeme.token, Function.comp_def] using congrArg (List.map Prod.fst) same

/-- What comes from a phrase is a matter of kinds alone. -/
theorem Derives.of_kinds (derives : Derives (.p phrase) lexemes derivation)
    (same : lexemes'.map Lexeme.kind = lexemes.map Lexeme.kind) :
    ∃ derivation', Derives (.p phrase) lexemes' derivation' := by
  obtain ⟨_, ⟨_, again, _⟩, _⟩ := (DerivesAll.singleton derives).relabel same
  obtain ⟨derivation', derived, _⟩ := again.passed
  exact ⟨derivation', derived⟩

/-- Lexemes with the same contents come from the same symbols, with the same trees. -/
theorem Yields.of_contents (yields : Yields symbols lexemes trees)
    (same : lexemes'.map Lexeme.content = lexemes.map Lexeme.content) : Yields symbols lexemes' trees := by
  have sameKinds : lexemes'.map Lexeme.kind = lexemes.map Lexeme.kind := by
    simpa [Lexeme.content, Function.comp_def] using congrArg (List.map Prod.fst) same
  obtain ⟨derivations, derives, rfl⟩ := yields
  obtain ⟨trees, yields, sameTrees⟩ := derives.relabel sameKinds
  rwa [sameTrees same] at yields

/-- Lexemes with the same kinds and spellings come from the same symbols, with the same trees. -/
theorem Yields.of_tokens (yields : Yields symbols lexemes trees)
    (same : lexemes'.map Lexeme.token = lexemes.map Lexeme.token) : Yields symbols lexemes' trees :=
  yields.of_contents (by rw [contents_eq, contents_eq, same])

/-- Lexemes that are written like this are found again, and come from the symbols with these trees. -/
structure Writes (symbols : List Symbol) (tokens : List (Terminal × String)) (trees : List Tree) : Prop where
  stand : ∀ token ∈ tokens, Lexeme.Stands token.1 token.2
  derived : ∀ lexemes, lexemes.map Lexeme.token = tokens → Yields symbols lexemes trees

/-- It is only the contents of the lexemes that matter for where they come from. -/
theorem Writes.yields (writes : Writes symbols tokens trees)
    (same : lexemes.map Lexeme.content = tokens.map Written.content) : Yields symbols lexemes trees := by
  let copies := tokens.map fun token => Lexeme.mk token.1 token.2 .start .start
  have written : copies.map Lexeme.token = tokens := by
    simp [copies, Lexeme.token, Function.comp_def]
  exact (writes.derived copies written).of_contents (by rw [contents_eq copies, written, same])

/-- Whether lexemes begin with `if` can be read off what is written. -/
theorem beginWithIf_iff (same : lexemes.map Lexeme.token = tokens) :
    Lexeme.BeginWithIf lexemes ↔ tokens.head?.map Prod.fst = some .ifWord := by
  rw [← same, List.head?_map, Option.map_map]
  exact Iff.rfl

/-- Each rung passes the next one on. -/
theorem ladder_rules : ∀ rung < 6, ⟨.ladder rung, [.p (.ladder (rung + 1))], .splice⟩ ∈ rules := by
  decide

namespace Writes

theorem nil : Writes [] [] [] where
  stand := by simp
  derived lexemes same := by
    rw [List.map_eq_nil_iff.mp same]
    exact .nil

theorem append (first : Writes symbols tokens trees) (second : Writes symbols' tokens' trees') :
    Writes (symbols ++ symbols') (tokens ++ tokens') (trees ++ trees') where
  stand := List.forall_mem_append.mpr ⟨first.stand, second.stand⟩
  derived lexemes same := by
    obtain ⟨before, after, rfl, isFirst, isSecond⟩ := List.map_eq_append_iff.mp same
    exact (first.derived before isFirst).append (second.derived after isSecond)

theorem cons (first : Writes [symbol] tokens trees) (others : Writes symbols tokens' trees') :
    Writes (symbol :: symbols) (tokens ++ tokens') (trees ++ trees') :=
  first.append others

/-- A rule makes a phrase of its parts. -/
theorem of_rule (shape : Shape) (known : ⟨head, body, shape⟩ ∈ rules) (parts : Writes body tokens trees)
    (built : shape.build trees = trees') : Writes [.p head] tokens trees' where
  stand := parts.stand
  derived lexemes same := built ▸ (parts.derived lexemes same).of_rule shape known

/-- A rule that passes its parts on. -/
theorem pass (known : ⟨head, body, .splice⟩ ∈ rules) (parts : Writes body tokens trees) :
    Writes [.p head] tokens trees :=
  of_rule .splice known parts rfl

/-- A lexeme by itself. -/
theorem of_leaf (stands : Lexeme.Stands t word)
    (made : ∀ here next, Lexeme.trees ⟨t, word, here, next⟩ = forest) :
    Writes [.t t] [(t, word)] forest where
  stand := List.forall_mem_singleton.mpr stands
  derived lexemes same := by
    obtain ⟨⟨kind, text, here, next⟩, rfl, sameToken⟩ := List.map_eq_singleton_iff.mp same
    cases sameToken
    rw [← made here next]
    exact .of_lexeme _

/-- A lexeme that leaves nothing in the tree. -/
theorem of_sign (t : Terminal) (silent : t.kept = false ∧ t.Fixed ∧ t ≠ .endOfInput) :
    Writes [.t t] (sign t) [] := by
  obtain ⟨dropped, fixed, notEnd⟩ := silent
  exact of_leaf (Lexeme.stands_of_fixed fixed notEnd) fun here next => by simp [Lexeme.trees, dropped]

/-- A lexeme that becomes a leaf is found again where the leaf is written. -/
theorem of_kept {t : Terminal} (kept : t.kept = true) (spells : t.Spells text) :
    Writes [.t t] [(t, t.written text)] [.leaf (.terminal t) text] := by
  by_cases isString : t = .string
  · subst isString
    refine of_leaf (Lexeme.stands_of_quote text) fun here next => ?_
    simp [Lexeme.trees, kept, Lexeme.leafText, Terminal.written, Lexeme.stringValue_quote]
  · have stands : Lexeme.Stands t text := by
      by_cases isInteger : t = .integer
      · subst isInteger
        exact Lexeme.stands_of_numeral spells
      by_cases isIdentifier : t = .identifier
      · subst isIdentifier
        exact Lexeme.stands_of_identifier spells
      · have fixed : t.Fixed := by simp [Terminal.Fixed, isString, isInteger, isIdentifier]
        rw [fixed.spells_iff.mp spells]
        exact Lexeme.stands_of_fixed fixed fun isEnd => by rw [isEnd] at kept; cases kept
    rw [Terminal.written, if_neg isString]
    refine of_leaf stands fun here next => ?_
    simp [Lexeme.trees, kept, Lexeme.leafText, isString]

/-- Items one after the other, by a rule that adds one on the right. -/
theorem extend (again : ⟨more, .p more :: link, .splice⟩ ∈ rules) {write : Tree → List (Terminal × String)}
    (items : ∀ tree ∈ rest, Writes link (write tree) [tree]) (begun : Writes [.p more] tokens trees) :
    Writes [.p more] (tokens ++ rest.flatMap write) (trees ++ rest) := by
  induction rest generalizing tokens trees with
  | nil => simpa using begun
  | cons tree rest ih =>
    obtain ⟨first, others⟩ := List.forall_mem_cons.mp items
    have longer := ih others (pass again (begun.cons first))
    rwa [List.append_assoc, List.append_assoc] at longer

/-- Items in a row, at least one, by the two rules of a left recursion. -/
theorem repeated (more : Phrase) (link : List Symbol) (once : ⟨more, link, .splice⟩ ∈ rules)
    (again : ⟨more, .p more :: link, .splice⟩ ∈ rules) {write : Tree → List (Terminal × String)}
    (items : ∀ item ∈ tree :: rest, Writes link (write item) [item]) :
    Writes [.p more] ((tree :: rest).flatMap write) (tree :: rest) := by
  obtain ⟨first, others⟩ := List.forall_mem_cons.mp items
  exact extend again others (pass once first)

/-- Items with commas between them, if there are any, by the rules for a list. -/
theorem listed (item : Symbol) (many more : Phrase) (alone : ⟨many, [item], .splice⟩ ∈ rules)
    (several : ⟨many, [item, .p more], .splice⟩ ∈ rules)
    (once : ⟨more, [.t .comma, item], .splice⟩ ∈ rules)
    (again : ⟨more, [.p more, .t .comma, item], .splice⟩ ∈ rules)
    (items : ∀ part ∈ trees, Writes [item] part.written.tokens [part]) :
    trees = [] ∨ Writes [.p many] (separated (Tree.writtenAll trees)) trees := by
  cases trees with
  | nil => exact .inl rfl
  | cons tree rest =>
    right
    obtain ⟨first, others⟩ := List.forall_mem_cons.mp items
    rw [Tree.writtenAll, separated, Tree.writtenAll_eq_map, List.flatMap_map]
    cases rest with
    | nil => simpa using pass alone first
    | cons second rest =>
      refine pass several (first.cons (repeated more _ once again fun part member => ?_))
      exact (of_sign .comma (by decide)).cons (others part member)

/-- What comes from one phrase comes from another, with the same trees. -/
theorem convert (writes : Writes [.p phrase] tokens trees)
    (converts : ∀ lexemes derivation, lexemes.map Lexeme.token = tokens →
      Derives (.p phrase) lexemes derivation →
      ∃ derivation', Derives (.p phrase') lexemes derivation' ∧ derivation'.forest = derivation.forest) :
    Writes [.p phrase'] tokens trees where
  stand := writes.stand
  derived lexemes same := by
    obtain ⟨derivations, derives, rfl⟩ := writes.derived lexemes same
    obtain ⟨derivation, derived, sameTrees⟩ := derives.passed
    obtain ⟨derivation', derived', sameTrees'⟩ := converts lexemes derivation same derived
    refine ⟨[derivation'], .singleton derived', ?_⟩
    rw [Derivation.forests, Derivation.forests, List.append_nil, sameTrees', sameTrees]

/-- What does not begin with `if` is plain. -/
theorem plain (writes : Writes [.p phrase] tokens trees)
    (notIf : tokens.head?.map Prod.fst ≠ some .ifWord) : Writes [.p phrase.plain] tokens trees :=
  writes.convert fun _ _ same derives => derives.plain (mt (beginWithIf_iff same).mp notIf)

/-- An atom that begins with `if` is a branch. -/
theorem branch (writes : Writes [.p .atom] tokens trees)
    (begins : tokens.head?.map Prod.fst = some .ifWord) : Writes [.p .branch] tokens trees :=
  writes.convert fun _ _ same derives => derives.branch_of_atom rfl ((beginWithIf_iff same).mpr begins)

/-- A higher rung may stand where a lower one is asked for. -/
theorem descend (writes : Writes [.p (.ladder high)] tokens trees) (below : low ≤ high) (top : high ≤ 6) :
    Writes [.p (.ladder low)] tokens trees := by
  induction below with
  | refl => exact writes
  | @step rung _ ih => exact ih (pass (ladder_rules rung top) writes) (Nat.le_of_succ_le top)

/-- Parentheses make an atom of an expression. -/
theorem parenthesize (writes : Writes [.p .expression] tokens trees) :
    Writes [.p (.ladder 6)] (Written.parenthesized tokens) trees := by
  have inside := (of_sign .leftParen (by decide)).cons (writes.cons (of_sign .rightParen (by decide)))
  rw [List.nil_append, List.append_nil] at inside
  have atom : Writes [.p .plainAtom] (Written.parenthesized tokens) trees := pass (by decide) inside
  exact pass (by decide) atom

end Writes

end Grammar

end TreeWalk
