import TreeWalk.Derivation
import TreeWalk.Grammar.Opening

/-! The language of the rules.

Lexemes come from a symbol by a derivation: a terminal stands for one lexeme of its kind, and a phrase
for whatever the parts of one of its rules stand for, in order. This is said of the rules alone; no
automaton and no way to find a derivation takes part in it. What lexemes of a phrase can begin with, and
whether there can be none, is bounded by the table of openings. -/
namespace TreeWalk.Grammar

mutual

/-- The lexemes come from the symbol, by the derivation. -/
inductive Derives : Symbol → List Lexeme → Derivation → Prop where
  | leaf (lexeme : Lexeme) : Derives (.t lexeme.kind) [lexeme] (.leaf lexeme)
  | node (known : rule ∈ rules) (parts : DerivesAll rule.body lexemes children) :
      Derives (.p rule.head) lexemes (.node rule children)

/-- The lexemes come from the symbols, one after the other, by the derivations. -/
inductive DerivesAll : List Symbol → List Lexeme → List Derivation → Prop where
  | nil : DerivesAll [] [] []
  | cons (first : Derives symbol lexemes derivation) (others : DerivesAll symbols rest derivations) :
      DerivesAll (symbol :: symbols) (lexemes ++ rest) (derivation :: derivations)

end

/-- What holds of leaves, of nodes whenever it holds of their children, and of rows whenever it holds of
their members, holds of all derivations. -/
theorem derives_induction (one : Symbol → List Lexeme → Derivation → Prop)
    (many : List Symbol → List Lexeme → List Derivation → Prop)
    (leaf : ∀ lexeme, one (.t lexeme.kind) [lexeme] (.leaf lexeme))
    (node : ∀ rule lexemes children, rule ∈ rules → DerivesAll rule.body lexemes children →
      many rule.body lexemes children → one (.p rule.head) lexemes (.node rule children))
    (nil : many [] [] [])
    (cons : ∀ symbol lexemes derivation symbols rest derivations, Derives symbol lexemes derivation →
      DerivesAll symbols rest derivations → one symbol lexemes derivation → many symbols rest derivations →
      many (symbol :: symbols) (lexemes ++ rest) (derivation :: derivations)) :
    (∀ symbol lexemes derivation, Derives symbol lexemes derivation → one symbol lexemes derivation) ∧
      ∀ symbols lexemes derivations, DerivesAll symbols lexemes derivations →
        many symbols lexemes derivations := by
  constructor
  · intro symbol lexemes derivation derives
    exact @Derives.rec (fun symbol lexemes derivation _ => one symbol lexemes derivation)
      (fun symbols lexemes derivations _ => many symbols lexemes derivations) leaf
      (fun known parts ih => node _ _ _ known parts ih) nil
      (fun first others ih ihs => cons _ _ _ _ _ _ first others ih ihs) _ _ _ derives
  · intro symbols lexemes derivations derives
    exact @DerivesAll.rec (fun symbol lexemes derivation _ => one symbol lexemes derivation)
      (fun symbols lexemes derivations _ => many symbols lexemes derivations) leaf
      (fun known parts ih => node _ _ _ known parts ih) nil
      (fun first others ih ihs => cons _ _ _ _ _ _ first others ih ihs) _ _ _ derives

theorem Derives.symbol_eq (derives : Derives symbol lexemes derivation) : derivation.symbol = symbol := by
  cases derives with
  | leaf | node => rfl

/-- A terminal stands for one lexeme. -/
theorem Derives.terminal (derives : Derives symbol lexemes derivation) (isTerminal : symbol = .t t) :
    ∃ lexeme, lexemes = [lexeme] ∧ lexeme.kind = t ∧ derivation = .leaf lexeme := by
  cases derives with
  | leaf lexeme => exact ⟨lexeme, rfl, Symbol.t.inj isTerminal, rfl⟩
  | node => cases isTerminal

namespace DerivesAll

theorem singleton (derives : Derives symbol lexemes derivation) :
    DerivesAll [symbol] lexemes [derivation] := by
  have both := DerivesAll.cons derives .nil
  rwa [List.append_nil] at both

theorem append (first : DerivesAll symbols lexemes derivations)
    (second : DerivesAll symbols' lexemes' derivations') :
    DerivesAll (symbols ++ symbols') (lexemes ++ lexemes') (derivations ++ derivations') := by
  induction symbols generalizing lexemes derivations with
  | nil =>
    cases first
    exact second
  | cons symbol symbols ih =>
    cases first with
    | cons head others =>
      rw [List.append_assoc]
      exact .cons head (ih others)

end DerivesAll

namespace TerminalSet

theorem contains_union (a b : TerminalSet) (t : Terminal) :
    (a.union b).contains t = (a.contains t || b.contains t) := by
  simp [union, contains]

theorem contains_single (t : Terminal) : (single t).contains t = true := by
  simp [single, contains, Nat.testBit_shiftLeft]

/-- Whether one set is a part of another. -/
def within (a b : TerminalSet) : Bool := a.bits &&& b.bits == a.bits

theorem contains_of_within {a b : TerminalSet} (part : a.within b = true) (member : a.contains t = true) :
    b.contains t = true := by
  have bits : a.bits &&& b.bits = a.bits := by simpa [within] using part
  have shared : (a.bits &&& b.bits).testBit t.ctorIdx = true := by rw [bits]; exact member
  rw [Nat.testBit_and, Bool.and_eq_true] at shared
  exact shared.2

end TerminalSet

namespace Opening

/-- One opening allows for all that another does. -/
def Covers (a b : Opening) : Prop :=
  (∀ t, b.first.contains t = true → a.first.contains t = true) ∧ (b.vanishes = true → a.vanishes = true)

/-- The opening of a phrase. -/
def of (phrase : Phrase) : Opening := table.getD phrase.ctorIdx none

/-- An opening allows for lexemes: for their first one, or for there being none. -/
def Allows (opening : Opening) : List Lexeme → Prop
  | [] => opening.vanishes = true
  | lexeme :: _ => opening.first.contains lexeme.kind = true

theorem Covers.allows {a b : Opening} (covers : Covers a b) (allowed : b.Allows lexemes) :
    a.Allows lexemes := by
  cases lexemes with
  | nil => exact covers.2 allowed
  | cons lexeme rest => exact covers.1 lexeme.kind allowed

/-- Lexemes one after the other are allowed one after the other. -/
theorem allows_andThen {a b : Opening} (first : a.Allows lexemes) (second : b.Allows rest) :
    (a.andThen b).Allows (lexemes ++ rest) := by
  cases lexemes with
  | nil =>
    have vanishes : a.vanishes = true := first
    rw [andThen, if_pos vanishes]
    cases rest with
    | nil => exact second
    | cons lexeme rest =>
      have begins : b.first.contains lexeme.kind = true := second
      simp [Allows, TerminalSet.contains_union, begins]
  | cons lexeme lexemes =>
    have begins : a.first.contains lexeme.kind = true := first
    unfold andThen
    split
    · simp [Allows, TerminalSet.contains_union, begins]
    · exact begins

/-- The opening of one symbol. -/
def ofSymbol : Symbol → Opening
  | .t t => ⟨.single t, false⟩
  | .p phrase => of phrase

theorem ofSymbols_cons (symbol : Symbol) (rest : List Symbol) :
    ofSymbols table (symbol :: rest) = (ofSymbol symbol).andThen (ofSymbols table rest) := by
  cases symbol <;> rfl

/-- Whether one opening allows for all that another does, by its bits. -/
def covers (a b : Opening) : Bool := b.first.within a.first && (!b.vanishes || a.vanishes)

theorem covers_of_checked {a b : Opening} (checked : covers a b = true) : Covers a b := by
  simp only [covers, Bool.and_eq_true, Bool.or_eq_true, Bool.not_eq_true'] at checked
  refine ⟨fun t member => TerminalSet.contains_of_within checked.1 member, fun vanishes => ?_⟩
  simpa [vanishes] using checked.2

set_option maxRecDepth 100000 in
/-- The table is closed under the rules. -/
theorem table_covers (known : rule ∈ rules) : Covers (of rule.head) (ofSymbols table rule.body) := by
  have checked : (rules.all fun rule => covers (of rule.head) (ofSymbols table rule.body)) = true := by
    decide +kernel
  exact covers_of_checked (List.all_eq_true.mp checked rule known)

end Opening

/-- Lexemes that come from symbols are allowed by their opening. -/
theorem DerivesAll.allowed (derives : DerivesAll symbols lexemes derivations) :
    (Opening.ofSymbols Opening.table symbols).Allows lexemes := by
  have both := derives_induction (fun symbol lexemes _ => (Opening.ofSymbol symbol).Allows lexemes)
    (fun symbols lexemes _ => (Opening.ofSymbols Opening.table symbols).Allows lexemes)
    (fun lexeme => TerminalSet.contains_single lexeme.kind)
    (fun rule lexemes children known _ allowed => (Opening.table_covers known).allows allowed)
    rfl
    (fun symbol lexemes derivation symbols rest derivations _ _ first others => by
      rw [Opening.ofSymbols_cons]
      exact Opening.allows_andThen first others)
  exact both.2 symbols lexemes derivations derives

end TreeWalk.Grammar
