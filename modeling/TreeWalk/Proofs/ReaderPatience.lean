import TreeWalk.Proofs.ReaderSoundness

/-! The reader is patient enough.

Every symbol has a rank. A rule with parts replaces frames by one of a lower rank in sum, and a rule
without parts can only be applied before any phrase has been read at that place. So there is an effort
that every application of a rule makes smaller and that the bound on applications covers: rules are
applied until none can be, and it makes no difference how many of them have been applied already. -/
namespace TreeWalk

/-- The rank of a symbol; terminals come last. -/
def Symbol.rank : Symbol → Nat
  | .t _ => 14
  | .p phrase => phrase.rank

theorem Symbol.rank_le (symbol : Symbol) : symbol.rank ≤ 14 := by
  cases symbol with
  | t terminal => exact Nat.le_refl 14
  | p phrase => cases phrase <;> decide

/-- The ranks of symbols in sum. -/
def Symbol.ranks : List Symbol → Nat
  | [] => 0
  | symbol :: symbols => symbol.rank + ranks symbols

theorem Symbol.ranks_append (first second : List Symbol) :
    ranks (first ++ second) = ranks first + ranks second := by
  induction first with
  | nil => simp [ranks]
  | cons symbol first ih => simp [ranks, ih, Nat.add_assoc]

theorem Symbol.ranks_reverse (symbols : List Symbol) : ranks symbols.reverse = ranks symbols := by
  induction symbols with
  | nil => rfl
  | cons symbol symbols ih => simp [ranks_append, ranks, ih, Nat.add_comm]

namespace Grammar

variable {states : Array State} {stack after : Stack}

/-- A rule with parts ranks lower than they do, and one without parts is low. -/
theorem rank_of_rule (known : rule ∈ rules) :
    if rule.body = [] then rule.head.rank < 3 else rule.head.rank < Symbol.ranks rule.body := by
  have checked : ∀ rule ∈ rules, if rule.body = [] then rule.head.rank < 3
      else rule.head.rank < Symbol.ranks rule.body := by decide
  exact checked rule known

/-- The symbols of derivations are those that the lexemes come from. -/
theorem DerivesAll.symbols_eq (derives : DerivesAll symbols lexemes derivations) :
    derivations.map Derivation.symbol = symbols := by
  induction symbols generalizing lexemes derivations with
  | nil =>
    cases derives
    rfl
  | cons symbol symbols ih =>
    cases derives with
    | cons first others => rw [List.map_cons, first.symbol_eq, ih others]

namespace Stack

/-- The ranks of all frames. -/
def ranks (stack : Stack) : Nat := Symbol.ranks (stack.map fun frame => frame.derivation.symbol)

/-- What applying rules can use up: the ranks, and a little more until a phrase has been read. -/
def effort (stack : Stack) : Nat :=
  stack.ranks +
    match stack.head?.map fun frame => frame.derivation.symbol with
    | some (.p _) => 0
    | _ => 3

theorem ranks_le (stack : Stack) : stack.ranks ≤ 14 * stack.length := by
  induction stack with
  | nil => exact Nat.le_refl 0
  | cons frame stack ih =>
    have frameRank := frame.derivation.symbol.rank_le
    simp only [ranks, List.map_cons, Symbol.ranks, List.length_cons] at ih ⊢
    omega

theorem effort_le_patience (stack : Stack) : stack.effort ≤ stack.patience := by
  have bounded := stack.ranks_le
  unfold effort patience
  split <;> omega

theorem ranks_append (frames below : Stack) :
    ranks (frames ++ below) =
      Symbol.ranks (frames.reverse.map fun frame => frame.derivation.symbol) + below.ranks := by
  rw [ranks, List.map_append, Symbol.ranks_append, List.map_reverse, Symbol.ranks_reverse, ranks]

/-- Where a rule without parts is complete no phrase has just been read. -/
theorem Holds.effort_of_empty (belongs : Belongs states) (holds : Holds states stack lexemes)
    (begun : (stack.state states).Has rule 0 .empty) (empty : rule.body = []) :
    stack.effort = stack.ranks + 3 := by
  cases holds with
  | nil => rfl
  | cons below moved derives =>
    have noPhrase := (belongs.begun_after_move moved begun).2
    simp only [effort, List.head?_cons, Option.map_some, derives.symbol_eq]
    split
    · rename_i phrase isPhrase
      cases isPhrase
      exact absurd empty (noPhrase phrase rfl)
    · rfl

/-- Applying a rule takes effort. -/
theorem Holds.effort_lt (belongs : Belongs states) (holds : Holds states stack lexemes)
    (reduced : (stack.state states).reduction? t = some rule)
    (applied : stack.reduce? states rule = some after) : after.effort < stack.effort := by
  obtain ⟨frames, below, before, read, rfl, counted, holdsBelow, begun, rfl, known, derives⟩ :=
    holds.split_complete belongs reduced
  simp only [reduce?, List.drop_left' counted, List.take_left' counted, Option.map_eq_some_iff] at applied
  obtain ⟨target, moved, rfl⟩ := applied
  have effortAfter : effort (⟨target, .node rule (frames.reverse.map Frame.derivation)⟩ :: below) =
      rule.head.rank + below.ranks := rfl
  have ranked := rank_of_rule known
  rw [effortAfter]
  by_cases empty : rule.body = []
  · rw [if_pos empty] at ranked
    have noFrames : frames = [] := List.length_eq_zero_iff.mp (by rw [counted, empty]; rfl)
    subst noFrames
    have effortBefore := holdsBelow.effort_of_empty belongs begun empty
    rw [List.nil_append, effortBefore]
    omega
  · rw [if_neg empty, ← derives.symbols_eq, List.map_map] at ranked
    have split : ranks (frames ++ below) = _ := ranks_append frames below
    have most : ranks (frames ++ below) ≤ effort (frames ++ below) := Nat.le_add_right ..
    simp only [Function.comp_def] at ranked
    omega

/-- With enough fuel for the effort, one more makes no difference. -/
theorem Holds.reduceFor_succ (belongs : Belongs states) (holds : Holds states stack lexemes)
    (enough : stack.effort ≤ fuel) :
    stack.reduceFor states t (fuel + 1) = stack.reduceFor states t fuel := by
  induction fuel generalizing stack with
  | zero =>
    simp only [Stack.reduceFor]
    split
    · rfl
    · rename_i after applied
      obtain ⟨rule, reduced, applied⟩ := Option.bind_eq_some_iff.mp applied
      have less := holds.effort_lt belongs reduced applied
      omega
  | succ fuel ih =>
    rw [Stack.reduceFor, Stack.reduceFor]
    split
    · rfl
    · rename_i after applied
      obtain ⟨rule, reduced, applied⟩ := Option.bind_eq_some_iff.mp applied
      have less := holds.effort_lt belongs reduced applied
      exact ih (holds.reduce belongs reduced applied) (by omega)

theorem Holds.reduceFor_enough (belongs : Belongs states) (holds : Holds states stack lexemes)
    (enough : stack.effort ≤ fuel) :
    stack.reduceFor states t fuel = stack.reduceFor states t stack.effort := by
  induction enough with
  | refl => rfl
  | step enough ih => exact (holds.reduceFor_succ belongs enough).trans ih

/-- One stack comes from another by applying rules that a terminal may follow. -/
inductive Reduces (states : Array State) (t : Terminal) : Stack → Stack → Prop where
  | refl (stack : Stack) : Reduces states t stack stack
  | step {stack next after : Stack} (reduced : (stack.state states).reduction? t = some rule)
      (applied : stack.reduce? states rule = some next) (rest : Reduces states t next after) :
      Reduces states t stack after

theorem Reduces.trans {middle : Stack} (first : Reduces states t stack middle)
    (second : Reduces states t middle after) : Reduces states t stack after := by
  induction first with
  | refl => exact second
  | step reduced applied _ ih => exact .step reduced applied (ih second)

/-- What the reader comes to does not depend on how many rules have been applied already. -/
theorem Reduces.reduceFor_eq (belongs : Belongs states) (reduces : Reduces states t stack after)
    (holds : Holds states stack lexemes) :
    stack.reduceFor states t stack.patience = after.reduceFor states t after.patience := by
  induction reduces with
  | refl => rfl
  | @step rule stack next after reduced applied _ ih =>
    have holdsNext := holds.reduce belongs reduced applied
    have less := holds.effort_lt belongs reduced applied
    have bounded := stack.effort_le_patience
    obtain ⟨fuel, isFuel⟩ : ∃ fuel, stack.patience = fuel + 1 := Nat.exists_eq_succ_of_ne_zero (by omega)
    have one : stack.reduceFor states t (fuel + 1) = next.reduceFor states t fuel := by
      rw [Stack.reduceFor, reduced, Option.bind_some, applied]
    rw [← ih holdsNext, isFuel, one, holdsNext.reduceFor_enough belongs (by omega),
      holdsNext.reduceFor_enough belongs next.effort_le_patience]

theorem Reduces.take_eq (belongs : Belongs states) (reduces : Reduces states lexeme.kind stack after)
    (holds : Holds states stack lexemes) : stack.take states lexeme = after.take states lexeme := by
  simp only [Stack.take, reduces.reduceFor_eq belongs holds]

end Stack

end Grammar

end TreeWalk
