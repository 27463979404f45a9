import TreeWalk.Proofs.ReaderPatience
import TreeWalk.Proofs.Spelling

/-! Whatever the reader has taken goes on to a program.

Every phrase stands for some lexemes, so an item can be read to its end. Its rule has begun in a state
further down the stack, because the mark of another item stands before its head there, and this item can be
read to its end in turn. Along the way either the stack gets shorter or the head ranks higher, so this ends,
and it can only end with the whole input. -/
namespace TreeWalk

/-- A text that stands for a terminal. -/
def Terminal.sample : Terminal → String
  | integer => "0"
  | string => Lexeme.quote ""
  | identifier => "x"
  | t => t.spelling

theorem Terminal.sample_stands (t : Terminal) (notEnd : t ≠ .endOfInput) : Lexeme.Stands t t.sample := by
  have digits : "0".toList.all Char.isDigit = true := by decide
  cases t with
  | endOfInput => exact absurd rfl notEnd
  | integer => exact Lexeme.stands_of_numeral ⟨by decide, List.all_eq_true.mp digits⟩
  | string => exact Lexeme.stands_of_quote ""
  | identifier => exact Lexeme.stands_of_identifier (Lexeme.spells_letter (by decide))
  | _ => exact Lexeme.stands_of_fixed (by decide) (by decide)

/-- How many rules on top of each other it takes to come from a phrase to lexemes. -/
def Phrase.height : Phrase → Nat
  | statements | statement | plainAtom | array | parameters | moreParameters => 1
  | start | block | someStatements | plainApplied | atom => 2
  | root | loop | function | plainUnary | applied => 3
  | plainProduct | unary => 4
  | plainSum | product => 5
  | plainComparison | sum => 6
  | plainEquality | comparison => 7
  | plainExpression | equality => 8
  | evaluation | expression => 9
  | simple | declaration | assignment | returning | arguments | moreArguments | branch => 10
  | conditional => 11

namespace Symbol

/-- How many rules on top of each other it takes to come from a symbol to lexemes. -/
def height : Symbol → Nat
  | t _ => 0
  | p phrase => phrase.height

/-- A symbol that can stand inside a program. -/
def Inner (symbol : Symbol) : Prop := symbol ≠ .t .endOfInput ∧ symbol ≠ .p .root

instance (symbol : Symbol) : Decidable symbol.Inner := inferInstanceAs (Decidable (_ ∧ _))

end Symbol

namespace Grammar

open Stack

/-- Only the rule of the whole input has the end of the input in it. -/
theorem inner_of_rule : ∀ rule ∈ rules, rule = rootRule ∨
    rule.head ≠ .root ∧ ∀ symbol ∈ rule.body, symbol.Inner := by
  decide

/-- Every phrase has a rule with parts of less height. -/
theorem lower_rule : ∀ phrase, ∃ rule ∈ rules, rule.head = phrase ∧
    ∀ symbol ∈ rule.body, symbol.height < phrase.height := by
  have checked : ∀ phrase ∈ Phrase.all, ∃ rule ∈ rules, rule.head = phrase ∧
      ∀ symbol ∈ rule.body, symbol.height < phrase.height := by decide +kernel
  exact fun phrase => checked phrase phrase.mem_all

/-- Lexemes that are found as such wherever a space follows them. -/
def Stand (lexemes : List Lexeme) : Prop := ∀ lexeme ∈ lexemes, Lexeme.Stands lexeme.kind lexeme.text

theorem Stand.append (first : Stand lexemes) (second : Stand lexemes') : Stand (lexemes ++ lexemes') :=
  List.forall_mem_append.mpr ⟨first, second⟩

/-- Symbols in a row stand for some lexemes if each of them does. -/
theorem produces_of_each (each : ∀ symbol ∈ symbols, ∃ lexemes derivation,
      Stand lexemes ∧ Derives symbol lexemes derivation) :
    ∃ lexemes derivations, Stand lexemes ∧ DerivesAll symbols lexemes derivations := by
  induction symbols with
  | nil => exact ⟨[], [], List.forall_mem_nil _, .nil⟩
  | cons symbol symbols ih =>
    obtain ⟨first, others⟩ := List.forall_mem_cons.mp each
    obtain ⟨lexemes, derivation, stand, derives⟩ := first
    obtain ⟨rest, derivations, standRest, derivesRest⟩ := ih others
    exact ⟨lexemes ++ rest, derivation :: derivations, stand.append standRest, .cons derives derivesRest⟩

/-- Every symbol inside a program stands for some lexemes. -/
theorem produces (inner : symbol.Inner) :
    ∃ lexemes derivation, Stand lexemes ∧ Derives symbol lexemes derivation := by
  induction height : symbol.height using Nat.strongRecOn generalizing symbol with
  | ind n ih =>
    cases symbol with
    | t terminal =>
      have stands := terminal.sample_stands fun isEnd => inner.1 (congrArg Symbol.t isEnd)
      let lexeme : Lexeme := ⟨terminal, terminal.sample, .start, .start⟩
      exact ⟨[lexeme], .leaf lexeme, List.forall_mem_singleton.mpr stands, .leaf lexeme⟩
    | p phrase =>
      obtain ⟨rule, known, rfl, lower⟩ := lower_rule phrase
      have parts : ∀ symbol ∈ rule.body, symbol.Inner := by
        rcases inner_of_rule rule known with rfl | ⟨_, inside⟩
        · exact absurd rfl inner.2
        · exact inside
      obtain ⟨lexemes, children, stand, derives⟩ := produces_of_each fun symbol member =>
        ih symbol.height (height ▸ lower symbol member) (parts symbol member) rfl
      exact ⟨lexemes, .node rule children, stand, .node known derives⟩

variable {states : Array State} {stack : Stack}

/-- The rule of the whole input has the mark before a phrase only where nothing of it has been read. -/
theorem Item.Proper.start_of_root {item : Item} (proper : item.Proper) (isRoot : item.rule = rootRule)
    (next : item.rest = .p phrase :: symbols) : item.done = 0 ∧ phrase = .start := by
  have isRest : rootRule.body.drop item.done = .p phrase :: symbols := by rw [← next, proper.rest_eq, isRoot]
  match marked : item.done with
  | 0 =>
    rw [marked] at isRest
    exact ⟨rfl, (Symbol.p.inj (List.cons.inj isRest).1).symm⟩
  | 1 =>
    rw [marked] at isRest
    cases isRest
  | done + 2 =>
    rw [marked] at isRest
    simp [rootRule] at isRest

/-- What stands after the mark of any other rule can stand inside a program. -/
theorem Item.Proper.inner_rest {item : Item} (proper : item.Proper) (inside : item.rule ≠ rootRule) :
    ∀ symbol ∈ item.rest, symbol.Inner := by
  intro symbol isPart
  rw [proper.rest_eq] at isPart
  exact ((inner_of_rule _ proper.known).resolve_left inside).2 symbol (List.mem_of_mem_drop isPart)

/-- The whole input begins at the bottom of the stack only. -/
theorem Stack.Holds.eq_nil_of_root (belongs : Belongs states) (holds : Holds states stack lexemes)
    (begun : (stack.state states).Has rootRule 0 .empty) : stack = [] ∧ lexemes = [] := by
  cases holds with
  | nil => exact ⟨rfl, rfl⟩
  | cons _ moved _ => exact absurd rfl (belongs.begun_after_move moved begun).1

/-- What stands before a mark is on the stack. -/
theorem Stack.Holds.done_le (belongs : Belongs states) (holds : Holds states stack lexemes)
    (member : item ∈ (stack.state states).items) : item.done ≤ stack.length := by
  obtain ⟨frames, below, _, _, rfl, counted, _⟩ :=
    holds.split belongs ⟨item, member, rfl, rfl, fun _ => id⟩
  rw [← counted, List.length_append]
  exact Nat.le_add_right ..

/-- The lexemes taken so far, with any that come from what stands after the mark of an item, go on to a
program. -/
theorem Stack.Holds.goesOn (belongs : Belongs states) (holds : Holds states stack lexemes)
    (member : item ∈ (stack.state states).items) (inside : item.rule ≠ rootRule)
    (derives : DerivesAll item.rest more derivations) :
    ∃ rest derivation, Stand rest ∧ Derives (.p .start) (lexemes ++ more ++ rest) derivation := by
  -- Each step goes to an item further down, or to one in the same state whose head ranks higher.
  induction measure : 16 * (stack.length - item.done) + item.rule.head.rank using Nat.strongRecOn
    generalizing stack lexemes item more derivations with
  | ind n ih =>
    have proper : item.Proper := belongs.proper member
    obtain ⟨frames, below, before, taken, rfl, counted, holdsBelow, begun, rfl, derivesTaken⟩ :=
      holds.split belongs ⟨item, member, rfl, rfl, fun _ => id⟩
    have whole := derivesTaken.append derives
    rw [proper.rest_eq, List.take_append_drop] at whole
    have phrase : Derives (.p item.rule.head) (taken ++ more) _ := .node proper.known whole
    have notRoot := ((inner_of_rule _ proper.known).resolve_left inside).1
    obtain ⟨fresh, freshMember, sameRule, unread, _⟩ := begun
    obtain ⟨other, otherMember, rest, next, lower⟩ :=
      belongs.asked_of_begun freshMember unread (sameRule ▸ notRoot)
    rw [sameRule] at next lower
    have otherProper : other.Proper := belongs.proper otherMember
    by_cases isRoot : other.rule = rootRule
    · obtain ⟨rootUnread, isStart⟩ := otherProper.start_of_root isRoot next
      have bottom : (state states below).Has rootRule 0 .empty :=
        State.Has.weaken ⟨other, otherMember, isRoot, rootUnread, fun _ => id⟩
      obtain ⟨_, rfl⟩ := holdsBelow.eq_nil_of_root belongs bottom
      rw [isStart] at phrase
      exact ⟨[], _, List.forall_mem_nil _, by simpa using phrase⟩
    · have inner := otherProper.inner_rest isRoot
      rw [next] at inner
      obtain ⟨sample, _, standSample, derivesSample⟩ :=
        produces_of_each fun symbol isPart => produces (inner symbol (List.mem_cons_of_mem _ isPart))
      have derivesOther := DerivesAll.cons phrase derivesSample
      rw [← next] at derivesOther
      have enough := holdsBelow.done_le belongs otherMember
      have ranked : other.rule.head.rank ≤ 14 := (Symbol.p other.rule.head).rank_le
      have smaller : 16 * (below.length - other.done) + other.rule.head.rank < n := by
        rw [← measure, List.length_append, counted]
        omega
      obtain ⟨end', derivation, standEnd, program⟩ :=
        ih _ smaller holdsBelow otherMember isRoot derivesOther rfl
      refine ⟨sample ++ end', derivation, standSample.append standEnd, ?_⟩
      simpa [List.append_assoc] using program

/-- What has been read of the whole input, short of its end, goes on to a program. -/
theorem viable_of_root (unended : ∀ lexeme ∈ lexemes, lexeme.kind ≠ .endOfInput)
    (derives : DerivesAll (rootRule.body.take done) lexemes derivations) :
    ∃ rest derivation, Stand rest ∧ Derives (.p .start) (lexemes ++ rest) derivation := by
  match done with
  | 0 =>
    cases derives
    have inner : Symbol.Inner (.p .start) := by decide
    exact produces inner
  | 1 =>
    cases derives with
    | cons first none =>
      cases none
      exact ⟨[], _, List.forall_mem_nil _, by simpa using first⟩
  | done + 2 =>
    cases derives with
    | cons _ others =>
      cases others with
      | cons ended _ =>
        obtain ⟨lexeme, rfl, isEnd, _⟩ := ended.terminal rfl
        exact absurd isEnd (unended lexeme (by simp))

/-- The lexemes taken so far go on to a program, unless the end of the input is among them. -/
theorem Stack.Holds.viable (belongs : Belongs states) (holds : Holds states stack lexemes)
    (unended : ∀ lexeme ∈ lexemes, lexeme.kind ≠ .endOfInput) :
    ∃ rest derivation, Stand rest ∧ Derives (.p .start) (lexemes ++ rest) derivation := by
  have filled : (stack.state states).items ≠ [] := by
    cases holds with
    | nil =>
      obtain ⟨item, member, _⟩ := belongs.start_has_root
      exact List.ne_nil_of_mem member
    | cons _ moved _ => exact belongs.items_of_move moved
  obtain ⟨item, member⟩ := List.exists_mem_of_ne_nil _ filled
  have proper : item.Proper := belongs.proper member
  by_cases isRoot : item.rule = rootRule
  · obtain ⟨frames, below, before, taken, rfl, counted, holdsBelow, begun, rfl, derivesTaken⟩ :=
      holds.split belongs ⟨item, member, isRoot, rfl, fun _ => id⟩
    obtain ⟨rfl, rfl⟩ := holdsBelow.eq_nil_of_root belongs begun
    rw [List.nil_append] at unended ⊢
    exact viable_of_root unended derivesTaken
  · obtain ⟨sample, _, standSample, derivesSample⟩ := produces_of_each fun symbol isPart =>
      produces (proper.inner_rest isRoot symbol isPart)
    obtain ⟨rest, derivation, standRest, program⟩ := holds.goesOn belongs member isRoot derivesSample
    rw [List.append_assoc] at program
    exact ⟨sample ++ rest, derivation, standSample.append standRest, program⟩

end Grammar

end TreeWalk
