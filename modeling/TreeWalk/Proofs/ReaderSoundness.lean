import TreeWalk.Proofs.AutomatonCheck

/-! What the reader has read.

Each frame of the stack was reached by a move from the state below it, and its derivation accounts for
some of the lexemes; from the bottom up these are the lexemes taken so far, all of them and in order.
Applying a rule and taking a lexeme keep it so. When the end of the input has been taken, what lies
below it is a derivation of the whole program. -/
namespace TreeWalk.Grammar

variable {states : Array State} {stack after : Stack}

namespace Stack

/-- The frames come from moves, and the lexemes by their derivations, one after the other. -/
inductive Holds (states : Array State) : Stack → List Lexeme → Prop where
  | nil : Holds states [] []
  | cons {stack : Stack} {before : List Lexeme} {symbol : Symbol} {target : Nat}
      (below : Holds states stack before) (moved : (stack.state states).move? symbol = some target)
      (derives : Derives symbol lexemes derivation) :
      Holds states (⟨target, derivation⟩ :: stack) (before ++ lexemes)

/-- What stands before the mark of an item is what the latest frames hold. -/
theorem Holds.split (belongs : Belongs states) (holds : Holds states stack lexemes)
    (has : (stack.state states).Has rule done ahead) :
    ∃ frames below before read, stack = frames ++ below ∧ frames.length = done ∧ Holds states below before ∧
      (state states below).Has rule 0 .empty ∧ lexemes = before ++ read ∧
      DerivesAll (rule.body.take done) read (frames.reverse.map Frame.derivation) := by
  induction done generalizing stack lexemes ahead with
  | zero => exact ⟨[], stack, lexemes, [], rfl, rfl, holds, has.weaken, by simp, .nil⟩
  | succ done ih =>
    cases holds with
    | nil => exact absurd (belongs.start_unread has) (Nat.succ_ne_zero done)
    | @cons latest derivation stack before symbol target holdsBelow moved derives =>
      obtain ⟨isNext, hasBelow⟩ := belongs.before_of_move moved has
      obtain ⟨frames, below, start, read, rfl, counted, holdsStart, begun, rfl, derivesRead⟩ :=
        ih holdsBelow hasBelow
      refine ⟨⟨target, derivation⟩ :: frames, below, start, read ++ latest, rfl, by simp [counted],
        holdsStart, begun, List.append_assoc .., ?_⟩
      rw [List.take_add_one, isNext, List.reverse_cons, List.map_append]
      exact derivesRead.append (.singleton derives)

/-- A rule that is applied is complete: the latest frames hold its parts. -/
theorem Holds.split_complete (belongs : Belongs states) (holds : Holds states stack lexemes)
    (reduced : (stack.state states).reduction? t = some rule) :
    ∃ frames below before read, stack = frames ++ below ∧ frames.length = rule.body.length ∧
      Holds states below before ∧ (state states below).Has rule 0 .empty ∧ lexemes = before ++ read ∧
      rule ∈ rules ∧ DerivesAll rule.body read (frames.reverse.map Frame.derivation) := by
  obtain ⟨item, found, rfl⟩ := Option.map_eq_some_iff.mp reduced
  have member := List.mem_of_find?_eq_some found
  have complete := List.find?_some found
  have proper : item.Proper := belongs.proper member
  rw [Bool.and_eq_true, List.isEmpty_iff, proper.rest_eq, List.drop_eq_nil_iff] at complete
  have marked : item.done = item.rule.body.length := Nat.le_antisymm proper.bounded complete.1
  obtain ⟨frames, below, before, read, isStack, counted, holdsBelow, begun, isRead, derives⟩ :=
    holds.split belongs ⟨item, member, rfl, marked, fun _ => id⟩
  rw [List.take_length] at derives
  exact ⟨frames, below, before, read, isStack, counted, holdsBelow, begun, isRead, proper.known, derives⟩

/-- Applying a complete rule leaves the lexemes as they are. -/
theorem Holds.reduce (belongs : Belongs states) (holds : Holds states stack lexemes)
    (reduced : (stack.state states).reduction? t = some rule)
    (applied : stack.reduce? states rule = some after) : Holds states after lexemes := by
  obtain ⟨frames, below, before, read, rfl, counted, holdsBelow, _, rfl, known, derives⟩ :=
    holds.split_complete belongs reduced
  simp only [reduce?, List.drop_left' counted, List.take_left' counted, Option.map_eq_some_iff] at applied
  obtain ⟨target, moved, rfl⟩ := applied
  exact .cons holdsBelow moved (.node known derives)

theorem Holds.reduceFor (belongs : Belongs states) (holds : Holds states stack lexemes) (t : Terminal)
    (fuel : Nat) : Holds states (stack.reduceFor states t fuel) lexemes := by
  induction fuel generalizing stack with
  | zero => exact holds
  | succ fuel ih =>
    rw [Stack.reduceFor]
    split
    · exact holds
    · rename_i after applied
      obtain ⟨rule, reduced, applied⟩ := Option.bind_eq_some_iff.mp applied
      exact ih (holds.reduce belongs reduced applied)

/-- A lexeme is taken by a move, once the rules that it may follow have been applied. -/
theorem take_eq_ok_iff : stack.take states lexeme = .ok after ↔
    ∃ target, ((stack.reduceFor states lexeme.kind stack.patience).state states).move? (.t lexeme.kind) =
        some target ∧
      after = ⟨target, .leaf lexeme⟩ :: stack.reduceFor states lexeme.kind stack.patience := by
  simp only [Stack.take]
  cases ((stack.reduceFor states lexeme.kind stack.patience).state states).move? (.t lexeme.kind) with
  | none => simp
  | some target => simp [eq_comm]

/-- Taking a lexeme adds it to what has been read. -/
theorem Holds.take (belongs : Belongs states) (holds : Holds states stack lexemes)
    (taken : stack.take states lexeme = .ok after) : Holds states after (lexemes ++ [lexeme]) := by
  obtain ⟨target, moved, rfl⟩ := take_eq_ok_iff.mp taken
  exact .cons (holds.reduceFor belongs lexeme.kind stack.patience) moved (.leaf lexeme)

end Stack

open Stack

theorem takeAll_holds (belongs : Belongs states) (holds : Holds states stack before)
    (taken : takeAll states stack lexemes = .ok after) : Holds states after (before ++ lexemes) := by
  induction lexemes generalizing stack before with
  | nil =>
    cases taken
    rwa [List.append_nil]
  | cons lexeme lexemes ih =>
    rw [takeAll] at taken
    split at taken
    · rename_i middle takenFirst
      have read := ih (holds.take belongs takenFirst) taken
      rwa [List.append_assoc] at read
    · cases taken

/-- Once the end of the input has been taken, the frame below it holds the derivation of all the lexemes
before it, and there are no other frames. -/
theorem program_of_end (belongs : Belongs states) (holds : Holds states stack lexemes)
    (taken : stack.take states last = .ok after) (isEnd : last.kind = .endOfInput) :
    ∃ top frame, after = [top, frame] ∧ Derives (.p .start) lexemes frame.derivation := by
  have holdsAfter := holds.take belongs taken
  obtain ⟨target, moved, rfl⟩ := take_eq_ok_iff.mp taken
  rw [isEnd] at moved
  obtain ⟨frames, below, before, read, isStack, counted, holdsBelow, begun, isRead, derives⟩ :=
    holdsAfter.split belongs (belongs.end_of_move moved)
  cases holdsBelow with
  | cons _ movedBelow _ => exact absurd rfl (belongs.begun_after_move movedBelow begun).1
  | nil =>
    match frames, counted with
    | [top, frame], _ =>
      cases derives with
      | cons first others =>
        cases others with
        | cons ended none =>
          cases none
          obtain ⟨lexeme, rfl, _⟩ := ended.terminal rfl
          rw [List.nil_append, List.append_nil] at isRead
          obtain ⟨rfl, _⟩ := List.append_inj' isRead rfl
          exact ⟨top, frame, by simpa using isStack, first⟩

end TreeWalk.Grammar
