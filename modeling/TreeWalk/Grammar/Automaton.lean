import TreeWalk.Grammar.Opening

/-! The automaton that recognises the language with one lexeme of look-ahead.

A state is a set of rules with a mark that says how far each has been read. States are told apart by
those items that have something before their mark, the kernel; look-aheads of states with equal
kernels are merged. First all states are found without look-aheads, then look-aheads are passed on
along the moves until nothing changes. -/
namespace TreeWalk.Grammar

/-- A rule that has been read up to a mark, and what may follow once it has been read to its end. -/
structure Item where
  rule : Rule
  /-- The place of the rule in the list of rules. -/
  number : Nat
  /-- How many parts stand before the mark. -/
  done : Nat
  /-- The parts after the mark. -/
  rest : List Symbol
  ahead : TerminalSet
  deriving DecidableEq, Repr

namespace Item

/-- The items with nothing read yet, one for each rule. -/
def fresh : List Item :=
  rules.zipIdx.map fun (rule, number) => ⟨rule, number, 0, rule.body, .empty⟩

/-- The items with nothing read yet of each phrase, in the order of `Phrase.all`. -/
def freshOf : List (List Item) :=
  Phrase.all.map fun phrase => fresh.filter (·.rule.head = phrase)

/-- A number that tells items apart, look-aheads aside. -/
def key (item : Item) : Nat := 16 * item.number + item.done

/-- The item with one more part before the mark. -/
def advance (item : Item) : Item :=
  { item with done := item.done + 1, rest := item.rest.drop 1 }

/-- Inserts an item by its key. -/
def insert (item : Item) : List Item → List Item
  | [] => [item]
  | other :: items => if item.key ≤ other.key then item :: other :: items else other :: insert item items

end Item

/-- A state: its kernel, and where each symbol leads. -/
structure Row where
  kernel : List Item
  moves : List (Symbol × Nat)
  deriving DecidableEq, Repr

namespace Row

/-- For each phrase the terminals that may follow it where the items of a kernel ask for it, and
whether they do. -/
def wanted (kernel : List Item) : List Entry :=
  kernel.foldl (fun known item =>
    match item.rest with
    | .p phrase :: rest =>
      let opening := Opening.ofSymbols Opening.table rest
      let follow := if opening.vanishes then opening.first.union item.ahead else opening.first
      List.zipWith (fun entry begins =>
        if begins.reached then
          entry.either ⟨true, if begins.final then begins.after.union follow else begins.after, false⟩
        else entry) known (Entry.table.getD phrase.ctorIdx [])
    | _ => known) (Phrase.all.map fun _ => .none)

/-- All items of a state: the kernel and the fresh items of the phrases it asks for. -/
def closure (kernel : List Item) : List Item :=
  kernel ++ (List.zipWith (fun entry items =>
    if entry.reached then items.map fun item => { item with ahead := entry.after } else [])
    (wanted kernel) Item.freshOf).flatten

/-- Adds an item, read one part further, to the kernel that its next symbol leads to. -/
def addMove (moves : List (Symbol × List Item)) (item : Item) : List (Symbol × List Item) :=
  match item.rest with
  | [] => moves
  | symbol :: _ => place symbol moves
where
  place (symbol : Symbol) : List (Symbol × List Item) → List (Symbol × List Item)
    | [] => [(symbol, [item.advance])]
    | (other, kernel) :: moves =>
      if other = symbol then (other, item.advance.insert kernel) :: moves
      else (other, kernel) :: place symbol moves

/-- The kernels that the symbols after the marks lead to. -/
def targets (kernel : List Item) : List (Symbol × List Item) :=
  (closure kernel).foldl addMove []

/-- Adds the look-ahead of an item to the kernel item that has read one part more. -/
def absorb (row : Row) (item : Item) : Row :=
  let key := item.advance.key
  { row with kernel := row.kernel.map fun other =>
      if other.key = key then { other with ahead := other.ahead.union item.ahead } else other }

end Row

namespace Automaton

/-- Looks kernels up by their keys, giving new numbers to those not met before. -/
def number (known : List (List Nat)) : List (Symbol × List Item) →
    List (List Nat) × List (List Item) × List (Symbol × Nat)
  | [] => (known, [], [])
  | (symbol, kernel) :: rest =>
    let keys := kernel.map Item.key
    match known.idxOf? keys with
    | some target =>
      let (known, fresh, moves) := number known rest
      (known, fresh, (symbol, target) :: moves)
    | none =>
      let (all, fresh, moves) := number (known ++ [keys]) rest
      (all, kernel :: fresh, (symbol, known.length) :: moves)

/-- Explores the kernels that wait for it; each one found is explored once. -/
def explore : Nat → List (List Nat) → List (List Item) → List Row
  | fuel + 1, known, kernel :: waiting =>
    let (known, fresh, moves) := number known (Row.targets kernel)
    ⟨kernel, moves⟩ :: explore fuel known (waiting ++ fresh)
  | _, _, _ => []

/-- The kernel that reading starts with: nothing of the whole input has been read. -/
def initial : List Item := Item.fresh.take 1

/-- The states and their moves, without look-aheads. -/
def skeleton : List Row := explore 1000 [initial.map Item.key] [initial]

/-- Passes the look-aheads of one state on along its moves. -/
def spreadFrom (rows : List Row) (state : Nat) : List Row :=
  match rows[state]? with
  | none => rows
  | some row =>
    (Row.closure row.kernel).foldl (fun rows item =>
      match item.rest.head?.bind fun symbol => row.moves.lookup symbol with
      | some target => rows.modify target (·.absorb item)
      | none => rows) rows

/-- Passes the look-aheads of every state on, one state after the other. -/
def spread (rows : List Row) : List Row := (List.range rows.length).foldl spreadFrom rows

/-- The states with their look-aheads. -/
def rows : List Row := settle spread rounds skeleton

end Automaton

/-- A finished state: all its items, and where each symbol leads. -/
structure State where
  items : List Item
  moves : List (Symbol × Nat)
  deriving Repr

namespace State

/-- Where a symbol leads from here. -/
def move? (state : State) (symbol : Symbol) : Option Nat := state.moves.lookup symbol

/-- The rule that has been read to its end here, if a given terminal may follow it. -/
def reduction? (state : State) (t : Terminal) : Option Rule :=
  (state.items.find? fun item => item.rest.isEmpty && item.ahead.contains t).map Item.rule

/-- The terminals that can be taken here, or that can follow a rule read to its end. -/
def expected (state : State) : List Terminal :=
  Terminal.all.filter fun t => (state.move? (.t t)).isSome || (state.reduction? t).isSome

end State

/-- The automaton of the language; reading starts in its first state. -/
def automaton : Array State :=
  (Automaton.rows.map fun row => ⟨Row.closure row.kernel, row.moves⟩).toArray

end TreeWalk.Grammar
