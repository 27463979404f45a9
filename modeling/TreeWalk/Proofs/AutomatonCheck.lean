import TreeWalk.Grammar.Reader
import TreeWalk.Proofs.Language

/-! The automaton belongs to the rules.

What reading relies on is said here of any automaton, and so that it can be checked, state by state; how
the states were found does not matter. Every item is a rule with a mark in it. Where a symbol comes after
the mark there is a move, to a state in which the mark stands after the symbol, and where a phrase comes
after the mark all its rules have begun. What comes next decides between taking a lexeme and applying a
rule, and between rules. In the other direction, a move reads only what its source had the mark before, and
a rule has begun only where the mark of another item stands before its head. The automaton of the language
passes these checks. -/
namespace TreeWalk

/-- How far up the ladders of statements and expressions a phrase is, counted from above. -/
def Phrase.rank : Phrase → Nat
  | root => 0
  | start | arguments | parameters | block | moreArguments | moreParameters => 1
  | statements | expression => 2
  | someStatements | simple | equality => 3
  | statement | declaration | assignment | returning | evaluation | comparison => 4
  | loop | conditional | plainExpression | sum => 5
  | plainEquality | product => 6
  | plainComparison | unary => 7
  | plainSum | applied => 8
  | plainProduct | atom => 9
  | plainUnary | branch => 10
  | plainApplied => 11
  | plainAtom => 12
  | array | function => 13

namespace Grammar

/-- The rule of the whole input. -/
def rootRule : Rule := ⟨.root, [.p .start, .t .endOfInput], .splice⟩

/-- What may follow the first of some symbols, given the rest of them and what may come after it. -/
def follow (rest : List Symbol) (ahead : TerminalSet) : TerminalSet :=
  let opening := Opening.ofSymbols Opening.table rest
  if opening.vanishes then opening.first.union ahead else opening.first

/-- An item is a rule of the language with a mark in it. -/
structure Item.Proper (item : Item) : Prop where
  numbered : rules[item.number]? = some item.rule
  rest_eq : item.rest = item.rule.body.drop item.done
  bounded : item.done ≤ item.rule.body.length

theorem Item.Proper.known {item : Item} (proper : item.Proper) : item.rule ∈ rules :=
  List.mem_of_getElem? proper.numbered

/-- A state has an item of a rule with a given mark that may be followed at least by given terminals. -/
def State.Has (state : State) (rule : Rule) (done : Nat) (ahead : TerminalSet) : Prop :=
  ∃ item ∈ state.items, item.rule = rule ∧ item.done = done ∧
    ∀ t, ahead.contains t = true → item.ahead.contains t = true

theorem State.Has.weaken {state : State} (has : state.Has rule done ahead) : state.Has rule done .empty := by
  obtain ⟨item, member, sameRule, marked, _⟩ := has
  exact ⟨item, member, sameRule, marked, by simp [TerminalSet.contains, TerminalSet.empty]⟩

/-- The state with a given number; there is nothing to do in a state that does not exist. -/
def stateAt (states : Array State) (n : Nat) : State := states[n]?.getD ⟨[], []⟩

/-- What reading relies on. -/
structure Belongs (states : Array State) : Prop where
  proper : item ∈ (stateAt states n).items → item.Proper
  /-- Where a symbol comes after the mark there is a move that takes the mark over it. -/
  move_of_next : item ∈ (stateAt states n).items → item.rest = symbol :: rest →
    ∃ target, (stateAt states n).move? symbol = some target ∧
      (stateAt states target).Has item.rule (item.done + 1) item.ahead
  /-- Where a phrase comes after the mark all its rules have begun. -/
  begun_of_next : item ∈ (stateAt states n).items → item.rest = .p rule.head :: rest → rule ∈ rules →
    (stateAt states n).Has rule 0 (follow rest item.ahead)
  /-- A complete rule is applied if what comes next may follow it. -/
  reduction_of_complete : item ∈ (stateAt states n).items → item.rest = [] →
    item.ahead.contains t = true → (stateAt states n).reduction? t = some item.rule
  /-- No rule is applied where the lexeme that comes next can be taken. -/
  no_reduction_of_next : item ∈ (stateAt states n).items → item.rest = .t t :: rest →
    (stateAt states n).reduction? t = none
  /-- What stands before a mark was read by the move that led there. -/
  before_of_move : (stateAt states n).move? symbol = some target →
    (stateAt states target).Has rule (done + 1) ahead →
    rule.body[done]? = some symbol ∧ (stateAt states n).Has rule done .empty
  /-- No move leads to where the whole input begins, and after a phrase no empty rule is complete. -/
  begun_after_move : (stateAt states n).move? symbol = some target →
    (stateAt states target).Has rule 0 ahead →
    rule ≠ rootRule ∧ ∀ phrase, symbol = .p phrase → rule.body ≠ []
  /-- Every move leads on to something. -/
  items_of_move : (stateAt states n).move? symbol = some target → (stateAt states target).items ≠ []
  /-- A rule has begun because an item asks for it that is under way, or whose head ranks higher. -/
  asked_of_begun : item ∈ (stateAt states n).items → item.done = 0 → item.rule.head ≠ .root →
    ∃ other ∈ (stateAt states n).items, ∃ rest, other.rest = .p item.rule.head :: rest ∧
      (other.done ≠ 0 ∨ other.rule.head.rank < item.rule.head.rank)
  /-- The end of the input is taken only after a whole program. -/
  end_of_move : (stateAt states n).move? (.t .endOfInput) = some target →
    (stateAt states target).Has rootRule 2 .empty
  /-- Reading starts with the whole input. -/
  start_has_root : (stateAt states 0).Has rootRule 0 .empty
  /-- Where reading starts nothing has been read. -/
  start_unread : (stateAt states 0).Has rule done ahead → done = 0

namespace TerminalSet

/-- Whether two sets have nothing in common. -/
def apart (a b : TerminalSet) : Bool := a.bits &&& b.bits == 0

theorem not_contains_of_apart {a b : TerminalSet} (apart : a.apart b = true) (inFirst : a.contains t = true) :
    b.contains t = false := by
  have bits : a.bits &&& b.bits = 0 := by simpa [TerminalSet.apart] using apart
  have shared : (a.bits &&& b.bits).testBit t.ctorIdx = (a.contains t && b.contains t) := Nat.testBit_and ..
  simpa [bits, inFirst] using shared

end TerminalSet

/-- Whether an item is a rule of the language with a mark in it. -/
def Item.isProper (item : Item) : Bool :=
  rules[item.number]? == some item.rule && item.rest == item.rule.body.drop item.done &&
    decide (item.done ≤ item.rule.body.length)

namespace State

/-- Whether a state has an item with a given mark that may be followed at least by given terminals. -/
def has (state : State) (number done : Nat) (ahead : TerminalSet) : Bool :=
  state.items.any fun item => item.number == number && item.done == done && ahead.within item.ahead

/-- Whether a state goes on as one of its items asks for. -/
def pursues (states : Array State) (state : State) (item : Item) : Bool :=
  match item.rest with
  | [] => state.items.all fun other =>
    !other.rest.isEmpty || other.number == item.number || item.ahead.apart other.ahead
  | symbol :: rest =>
    ((state.move? symbol).any fun target =>
      (stateAt states target).has item.number (item.done + 1) item.ahead) &&
      match symbol with
      | .t t => state.items.all fun other => !(other.rest.isEmpty && other.ahead.contains t)
      | .p phrase => rules.zipIdx.all fun (rule, number) =>
        rule.head != phrase || state.has number 0 (follow rest item.ahead)

/-- Whether there is a reason for an item to be in a state. -/
def asksFor (state : State) (item : Item) : Bool :=
  item.done != 0 || item.rule.head == .root || state.items.any fun other =>
    match other.rest with
    | .p phrase :: _ =>
      phrase == item.rule.head && (other.done != 0 || decide (other.rule.head.rank < item.rule.head.rank))
    | _ => false

/-- Whether a state can have been reached by a symbol from another one. -/
def comesFrom (target : State) (symbol : Symbol) (source : State) : Bool :=
  target.items.all fun item =>
    if item.done = 0 then
      item.rule.head != .root && (!item.rest.isEmpty || match symbol with | .t _ => true | .p _ => false)
    else item.rule.body[item.done - 1]? == some symbol && source.has item.number (item.done - 1) .empty

/-- Whether all that is asked of a state holds. -/
def isSound (states : Array State) (state : State) : Bool :=
  (state.items.all fun item => item.isProper && state.pursues states item && state.asksFor item) &&
    state.moves.all fun (symbol, target) =>
      (stateAt states target).comesFrom symbol state && !(stateAt states target).items.isEmpty &&
        (symbol != .t .endOfInput || (stateAt states target).has 0 2 .empty)

end State

/-- Whether all that is asked of an automaton holds. -/
def isSound (states : Array State) : Bool :=
  ((stateAt states 0).has 0 0 .empty && (stateAt states 0).items.all fun item => item.done == 0) &&
    states.toList.all (State.isSound states)

section Meaning

variable {states : Array State}

private theorem state_sound (sound : isSound states = true) (n : Nat) :
    (stateAt states n).isSound states = true := by
  rw [isSound, Bool.and_eq_true] at sound
  unfold stateAt
  cases found : states[n]? with
  | none => rfl
  | some state =>
    have member : state ∈ states.toList := Array.mem_toList_iff.mpr (Array.mem_of_getElem? found)
    exact List.all_eq_true.mp sound.2 state member

private theorem item_sound (sound : isSound states = true) (member : item ∈ (stateAt states n).items) :
    item.isProper = true ∧ (stateAt states n).pursues states item = true ∧
      (stateAt states n).asksFor item = true := by
  have stateSound := state_sound sound n
  rw [State.isSound, Bool.and_eq_true] at stateSound
  have checked := List.all_eq_true.mp stateSound.1 item member
  rwa [Bool.and_eq_true, Bool.and_eq_true, and_assoc] at checked

private theorem item_proper (sound : isSound states = true) (member : item ∈ (stateAt states n).items) :
    item.Proper := by
  have proper := (item_sound sound member).1
  simp only [Item.isProper, Bool.and_eq_true, beq_iff_eq, decide_eq_true_eq] at proper
  exact ⟨proper.1.1, proper.1.2, proper.2⟩

private theorem has_of_checked (sound : isSound states = true)
    (checked : (stateAt states n).has number done ahead = true) (numbered : rules[number]? = some rule) :
    (stateAt states n).Has rule done ahead := by
  obtain ⟨item, member, same⟩ := List.any_eq_true.mp checked
  simp only [Bool.and_eq_true, beq_iff_eq] at same
  obtain ⟨⟨rfl, marked⟩, within⟩ := same
  have sameRule : some item.rule = some rule := (item_proper sound member).numbered.symm.trans numbered
  cases sameRule
  exact ⟨item, member, rfl, marked, fun t => TerminalSet.contains_of_within within⟩

private theorem checked_move_of_next (sound : isSound states = true)
    (member : item ∈ (stateAt states n).items)
    (next : item.rest = symbol :: rest) :
    ∃ target, (stateAt states n).move? symbol = some target ∧
      (stateAt states target).Has item.rule (item.done + 1) item.ahead := by
  have pursued := (item_sound sound member).2.1
  simp only [State.pursues, next, Bool.and_eq_true, Option.any_eq_true] at pursued
  obtain ⟨⟨target, moved, has⟩, _⟩ := pursued
  exact ⟨target, moved, has_of_checked sound has (item_proper sound member).numbered⟩

private theorem checked_begun_of_next (sound : isSound states = true)
    (member : item ∈ (stateAt states n).items)
    (next : item.rest = .p rule.head :: rest) (known : rule ∈ rules) :
    (stateAt states n).Has rule 0 (follow rest item.ahead) := by
  have pursued := (item_sound sound member).2.1
  simp only [State.pursues, next, Bool.and_eq_true] at pursued
  obtain ⟨number, numbered⟩ := List.mem_iff_getElem?.mp known
  have begun := List.all_eq_true.mp pursued.2 (rule, number) (List.mk_mem_zipIdx_iff_getElem?.mpr numbered)
  simp only [bne_self_eq_false, Bool.false_or] at begun
  exact has_of_checked sound begun numbered

/-- Of two complete rules, only one may be followed by what comes next. -/
private theorem checked_reduction (sound : isSound states = true) (member : item ∈ (stateAt states n).items)
    (complete : item.rest = []) (ahead : item.ahead.contains t = true) :
    (stateAt states n).reduction? t = some item.rule := by
  have pursued := (item_sound sound member).2.1
  simp only [State.pursues, complete] at pursued
  have found : ((stateAt states n).items.find? fun other =>
      other.rest.isEmpty && other.ahead.contains t).isSome :=
    List.find?_isSome.mpr ⟨item, member, by simp [complete, ahead]⟩
  obtain ⟨other, isOther⟩ := Option.isSome_iff_exists.mp found
  have otherMember := List.mem_of_find?_eq_some isOther
  have otherComplete := List.find?_some isOther
  rw [Bool.and_eq_true] at otherComplete
  have agreed := List.all_eq_true.mp pursued other otherMember
  simp only [otherComplete.1, Bool.not_true, Bool.false_or, Bool.or_eq_true, beq_iff_eq] at agreed
  rcases agreed with sameNumber | apart
  · have sameRule := (item_proper sound otherMember).numbered
    rw [sameNumber, (item_proper sound member).numbered] at sameRule
    rw [State.reduction?, isOther, sameRule]
    rfl
  · have missing := TerminalSet.not_contains_of_apart apart ahead
    rw [missing] at otherComplete
    cases otherComplete.2

private theorem checked_no_reduction (sound : isSound states = true)
    (member : item ∈ (stateAt states n).items)
    (next : item.rest = .t t :: rest) : (stateAt states n).reduction? t = none := by
  have pursued := (item_sound sound member).2.1
  simp only [State.pursues, next, Bool.and_eq_true] at pursued
  rw [State.reduction?, Option.map_eq_none_iff, List.find?_eq_none]
  intro other otherMember
  have refused := List.all_eq_true.mp pursued.2 other otherMember
  rw [Bool.not_eq_true'] at refused
  rw [refused]
  exact Bool.false_ne_true

private theorem move_sound (sound : isSound states = true)
    (moved : (stateAt states n).move? symbol = some target) :
    (stateAt states target).comesFrom symbol (stateAt states n) = true ∧
      (stateAt states target).items ≠ [] ∧
      (symbol = .t .endOfInput → (stateAt states target).has 0 2 .empty = true) := by
  have stateSound := state_sound sound n
  rw [State.isSound, Bool.and_eq_true] at stateSound
  obtain ⟨before, after, split, _⟩ := List.lookup_eq_some_iff.mp moved
  have member : (symbol, target) ∈ (stateAt states n).moves := by simp [split]
  have checked := List.all_eq_true.mp stateSound.2 (symbol, target) member
  simp only [Bool.and_eq_true, Bool.not_eq_true', List.isEmpty_eq_false_iff] at checked
  refine ⟨checked.1.1, checked.1.2, fun isEnd => ?_⟩
  simpa [isEnd] using checked.2

private theorem checked_before_of_move (sound : isSound states = true)
    (moved : (stateAt states n).move? symbol = some target)
    (has : (stateAt states target).Has rule (done + 1) ahead) :
    rule.body[done]? = some symbol ∧ (stateAt states n).Has rule done .empty := by
  obtain ⟨item, member, rfl, marked, _⟩ := has
  have checked := List.all_eq_true.mp (move_sound sound moved).1 item member
  simp only [marked, Nat.add_one_ne_zero, if_false, Nat.add_sub_cancel, Bool.and_eq_true,
    beq_iff_eq] at checked
  exact ⟨checked.1, has_of_checked sound checked.2 (item_proper sound member).numbered⟩

private theorem checked_begun_after_move (sound : isSound states = true)
    (moved : (stateAt states n).move? symbol = some target) (has : (stateAt states target).Has rule 0 ahead) :
    rule ≠ rootRule ∧ ∀ phrase, symbol = .p phrase → rule.body ≠ [] := by
  obtain ⟨item, member, rfl, marked, _⟩ := has
  have checked := List.all_eq_true.mp (move_sound sound moved).1 item member
  simp only [marked, if_true, Bool.and_eq_true, bne_iff_ne, ne_eq] at checked
  constructor
  · intro isRoot
    exact checked.1 (by rw [isRoot]; rfl)
  · intro phrase isPhrase empty
    subst isPhrase
    have complete : item.rest = [] := by simp [(item_proper sound member).rest_eq, empty]
    simp [complete] at checked

private theorem checked_asked_of_begun (sound : isSound states = true)
    (member : item ∈ (stateAt states n).items) (unread : item.done = 0) (notRoot : item.rule.head ≠ .root) :
    ∃ other ∈ (stateAt states n).items, ∃ rest, other.rest = .p item.rule.head :: rest ∧
      (other.done ≠ 0 ∨ other.rule.head.rank < item.rule.head.rank) := by
  have asked := (item_sound sound member).2.2
  simp only [State.asksFor, unread, bne_self_eq_false, Bool.false_or, Bool.or_eq_true, beq_iff_eq, notRoot,
    false_or, List.any_eq_true] at asked
  obtain ⟨other, otherMember, asks⟩ := asked
  refine ⟨other, otherMember, ?_⟩
  split at asks
  · rename_i phrase rest next
    simp only [Bool.and_eq_true, beq_iff_eq, Bool.or_eq_true, bne_iff_ne, ne_eq, decide_eq_true_eq] at asks
    exact ⟨rest, by rw [next, asks.1], asks.2⟩
  · cases asks

/-- The checks mean what they were made for. -/
theorem belongs_of_sound (sound : isSound states = true) : Belongs states := by
  have rootNumbered : rules[0]? = some rootRule := rfl
  have start := sound
  simp only [isSound, Bool.and_eq_true] at start
  constructor
  case proper => exact item_proper sound
  case move_of_next => exact checked_move_of_next sound
  case begun_of_next => exact checked_begun_of_next sound
  case reduction_of_complete => exact checked_reduction sound
  case no_reduction_of_next => exact checked_no_reduction sound
  case before_of_move => exact checked_before_of_move sound
  case begun_after_move => exact checked_begun_after_move sound
  case items_of_move => exact fun moved => (move_sound sound moved).2.1
  case asked_of_begun => exact checked_asked_of_begun sound
  case end_of_move => exact fun moved => has_of_checked sound ((move_sound sound moved).2.2 rfl) rootNumbered
  case start_has_root => exact has_of_checked sound start.1.1 rootNumbered
  case start_unread =>
    rintro rule done ahead ⟨item, member, _, rfl, _⟩
    simpa using List.all_eq_true.mp start.1.2 item member

end Meaning

/-- The places of the rules of a phrase in the list of rules. -/
def numbersOf (phrase : Phrase) : List Nat :=
  (rules.zipIdx.filter fun (rule, _) => rule.head == phrase).map Prod.snd

namespace State

/-- The items of a state whose rules have been read to their end. -/
def complete (state : State) : List Item := state.items.filter (·.rest.isEmpty)

/-- The same check as `pursues`, which looks only at the rules and the items that matter for an item. -/
def pursuesBriefly (states : Array State) (state : State) (item : Item) : Bool :=
  match item.rest with
  | [] => state.complete.all fun other => other.number == item.number || item.ahead.apart other.ahead
  | symbol :: rest =>
    ((state.move? symbol).any fun target =>
      (stateAt states target).has item.number (item.done + 1) item.ahead) &&
      match symbol with
      | .t t => state.complete.all fun other => !other.ahead.contains t
      | .p phrase => (numbersOf phrase).all fun number => state.has number 0 (follow rest item.ahead)

theorem pursues_eq (states : Array State) (state : State) (item : Item) :
    state.pursues states item = state.pursuesBriefly states item := by
  unfold pursues pursuesBriefly
  split
  · simp only [complete, List.all_filter, Bool.or_assoc]
  · rename_i symbol rest _
    cases symbol with
    | t => simp only [complete, List.all_filter, Bool.not_and]
    | p => simp only [numbersOf, List.all_map, List.all_filter, Function.comp_def, bne]

/-- A state can be checked the brief way. -/
theorem isSound_eq (states : Array State) : isSound states = fun state =>
    (state.items.all fun item => item.isProper && state.pursuesBriefly states item && state.asksFor item) &&
      state.moves.all fun (symbol, target) =>
        (stateAt states target).comesFrom symbol state && !(stateAt states target).items.isEmpty &&
          (symbol != .t .endOfInput || (stateAt states target).has 0 2 .empty) := by
  funext state
  simp only [isSound, pursues_eq]

end State

end Grammar

set_option maxRecDepth 100000 in
/-- The automaton of the language passes its checks. -/
theorem automaton_sound : Grammar.isSound Grammar.automaton = true := by
  rw [Grammar.isSound, Grammar.State.isSound_eq]
  decide +kernel

theorem automaton_belongs : Grammar.Belongs Grammar.automaton := Grammar.belongs_of_sound automaton_sound

end TreeWalk
