import TreeWalk.Grammar

/-! What a row of symbols can begin with, and which phrases can begin another.

All three tables are least fixed points over the rules, reached by repeating one step until nothing
changes. Tables have one entry for each phrase, in the order of `Phrase.all`. -/
namespace TreeWalk.Grammar

/-- A set of terminals, one bit for each. -/
structure TerminalSet where
  bits : Nat
  deriving DecidableEq, Repr

namespace TerminalSet

def empty : TerminalSet := ⟨0⟩

def single (t : Terminal) : TerminalSet := ⟨1 <<< t.ctorIdx⟩

def union (a b : TerminalSet) : TerminalSet := ⟨a.bits ||| b.bits⟩

def contains (s : TerminalSet) (t : Terminal) : Bool := s.bits.testBit t.ctorIdx

end TerminalSet

/-- Repeats a step until it changes nothing, a given number of times at most. -/
def settle {α : Type} [DecidableEq α] (step : α → α) : Nat → α → α
  | 0, a => a
  | n + 1, a =>
    let b := step a
    if b = a then a else settle step n b

/-- More steps than any of the tables here needs. -/
def rounds : Nat := 100

/-- What symbols can begin with, and whether they can stand for nothing at all. -/
structure Opening where
  first : TerminalSet
  vanishes : Bool
  deriving DecidableEq, Repr

namespace Opening

/-- No beginning known yet. -/
def none : Opening := ⟨.empty, false⟩

/-- Either of two. -/
def either (a b : Opening) : Opening := ⟨a.first.union b.first, a.vanishes || b.vanishes⟩

/-- One after the other. -/
def andThen (a b : Opening) : Opening :=
  if a.vanishes then ⟨a.first.union b.first, b.vanishes⟩ else a

/-- The opening of a row of symbols, given that of every phrase. -/
def ofSymbols (table : List Opening) : List Symbol → Opening
  | [] => ⟨.empty, true⟩
  | .t t :: _ => ⟨.single t, false⟩
  | .p p :: rest => (table.getD p.ctorIdx none).andThen (ofSymbols table rest)

/-- Adds what the rules, the last one first, say of their heads, given what is known so far. -/
def improve (table : List Opening) : List Opening :=
  rules.foldr (fun rule known =>
    known.modify rule.head.ctorIdx (·.either (ofSymbols known rule.body))) table

/-- The opening of every phrase. -/
def table : List Opening := settle improve rounds (Phrase.all.map fun _ => none)

end Opening

/-- How one phrase can begin another: whether it can, what may follow it inside, and whether it can
also end there. -/
structure Entry where
  reached : Bool
  after : TerminalSet
  final : Bool
  deriving DecidableEq, Repr

namespace Entry

/-- A phrase that is not known to begin the other. -/
def none : Entry := ⟨false, .empty, false⟩

/-- Either of two. -/
def either (a b : Entry) : Entry :=
  ⟨a.reached || b.reached, a.after.union b.after, a.final || b.final⟩

/-- The entry of a phrase in the head of a rule, from its entry in the first part and the opening of
the rest. -/
def extend (rest : Opening) (entry : Entry) : Entry :=
  ⟨entry.reached, if entry.final then entry.after.union rest.first else entry.after,
    entry.final && rest.vanishes⟩

/-- Adds to the entries of the heads of the rules, the last one first, those of their first parts. -/
def improve (table : List (List Entry)) : List (List Entry) :=
  rules.foldr (fun rule known =>
    match rule.body with
    | .p part :: rest =>
      let opening := Opening.ofSymbols Opening.table rest
      known.modify rule.head.ctorIdx fun entries =>
        List.zipWith (fun a b => a.either (b.extend opening)) entries (known.getD part.ctorIdx [])
    | _ => known) table

/-- How every phrase can begin every other: row by row for the phrase that is begun. Each phrase
begins itself. -/
def table : List (List Entry) :=
  settle improve rounds (Phrase.all.map fun whole =>
    Phrase.all.map fun part => if part = whole then ⟨true, .empty, true⟩ else none)

end Entry

end TreeWalk.Grammar
