import TreeWalk.Proofs.ReaderPatience

/-! The reader finds every derivation.

Where an item has the mark before a symbol, lexemes that come from the symbol by a derivation are read
into one frame with that very derivation, whatever lies below on the stack, as long as what comes next
may follow. The proof goes along the derivation. So if lexemes come from a program by a derivation, the
reader ends with this derivation and no other. -/
namespace TreeWalk.Grammar

variable {states : Array State} {stack middle after : Stack}

open Stack

theorem takeAll_append (taken : takeAll states stack lexemes = .ok middle) (rest : List Lexeme) :
    takeAll states stack (lexemes ++ rest) = takeAll states middle rest := by
  induction lexemes generalizing stack with
  | nil =>
    cases taken
    rfl
  | cons lexeme lexemes ih =>
    rw [takeAll] at taken
    rw [List.cons_append, takeAll]
    split at taken
    · exact ih taken
    · cases taken

/-- Lexemes are read from one stack to another, when a given terminal comes next: they are taken, and
then rules that the terminal may follow are applied. -/
def Reads (states : Array State) (stack : Stack) (lexemes : List Lexeme) (t : Terminal) (after : Stack) :
    Prop :=
  ∃ middle, takeAll states stack lexemes = .ok middle ∧ Reduces states t middle after

/-- What comes next: the first of some lexemes, or else a given terminal. -/
def nextKind (t : Terminal) : List Lexeme → Terminal
  | [] => t
  | lexeme :: _ => lexeme.kind

theorem Reads.reduces (reads : Reads states stack lexemes t middle)
    (reduces : Reduces states t middle after) :
    Reads states stack lexemes t after := by
  obtain ⟨taken, all, before⟩ := reads
  exact ⟨taken, all, before.trans reduces⟩

/-- Rules that are applied in between would be applied anyway before the next lexeme is taken. -/
theorem Reads.append (belongs : Belongs states) (holds : Holds states stack before)
    (first : Reads states stack lexemes (nextKind t rest) middle)
    (second : Reads states middle rest t after) :
    Reads states stack (lexemes ++ rest) t after := by
  obtain ⟨taken, takenAll, reduces⟩ := first
  cases rest with
  | nil =>
    obtain ⟨same, takenNone, reducesAfter⟩ := second
    cases takenNone
    exact ⟨taken, by rwa [List.append_nil], reduces.trans reducesAfter⟩
  | cons lexeme rest =>
    obtain ⟨last, takenRest, reducesAfter⟩ := second
    refine ⟨last, ?_, reducesAfter⟩
    rw [takeAll_append takenAll, ← takenRest, takeAll, takeAll,
      Reduces.take_eq belongs reduces (takeAll_holds belongs holds takenAll)]

/-- What comes next may follow a symbol if the lexemes in between come from what stands after it. -/
theorem follow_contains {ahead : TerminalSet} (derives : DerivesAll symbols lexemes derivations)
    (member : ahead.contains t = true) : (follow symbols ahead).contains (nextKind t lexemes) = true := by
  have allowed := derives.allowed
  unfold follow
  cases lexemes with
  | nil =>
    have vanishes : (Opening.ofSymbols Opening.table symbols).vanishes = true := allowed
    simp [vanishes, nextKind, TerminalSet.contains_union, member]
  | cons lexeme rest =>
    have begins : (Opening.ofSymbols Opening.table symbols).first.contains lexeme.kind = true := allowed
    simp only [nextKind]
    split
    · rw [TerminalSet.contains_union, begins, Bool.true_or]
    · exact begins

/-- Where the mark stands before a symbol, lexemes that come from it are read into one frame. -/
def ReadsOne (states : Array State) (symbol : Symbol) (lexemes : List Lexeme) (derivation : Derivation) :
    Prop :=
  ∀ stack before item rest t, Holds states stack before → item ∈ (state states stack).items →
    item.rest = symbol :: rest → (follow rest item.ahead).contains t = true →
    ∃ target, (state states stack).move? symbol = some target ∧
      Reads states stack lexemes t (⟨target, derivation⟩ :: stack)

/-- Where the mark stands before the last symbols of a rule, lexemes that come from them are read into
frames, and then the rule is complete. -/
def ReadsRest (states : Array State) (symbols : List Symbol) (lexemes : List Lexeme)
    (derivations : List Derivation) : Prop :=
  ∀ stack before item t, Holds states stack before → item ∈ (state states stack).items →
    item.rest = symbols → item.ahead.contains t = true →
    ∃ frames : Stack, frames.reverse.map Frame.derivation = derivations ∧
      Reads states stack lexemes t (frames ++ stack) ∧
      (state states (frames ++ stack)).reduction? t = some item.rule

theorem takeAll_singleton (lexeme : Lexeme) (taken : stack.take states lexeme = .ok after) :
    takeAll states stack [lexeme] = .ok after := by
  rw [takeAll, taken]
  rfl

/-- A lexeme is taken where the mark stands before its kind. -/
theorem take_of_next (belongs : Belongs states) (member : item ∈ (state states stack).items)
    (next : item.rest = .t lexeme.kind :: rest) :
    ∃ target, (state states stack).move? (.t lexeme.kind) = some target ∧
      stack.take states lexeme = .ok (⟨target, .leaf lexeme⟩ :: stack) := by
  obtain ⟨target, moved, _⟩ := belongs.move_of_next member next
  have nothing : (state states stack).reduction? lexeme.kind = none :=
    belongs.no_reduction_of_next member next
  have ready : ∀ fuel, stack.reduceFor states lexeme.kind fuel = stack := by
    intro fuel
    cases fuel with
    | zero => rfl
    | succ fuel => rw [reduceFor, nothing, Option.bind_none]
  refine ⟨target, moved, take_eq_ok_iff.mpr ⟨target, ?_, ?_⟩⟩
  · rwa [ready]
  · rw [ready]

private theorem readsOne_leaf (belongs : Belongs states) (lexeme : Lexeme) :
    ReadsOne states (.t lexeme.kind) [lexeme] (.leaf lexeme) := by
  intro stack before item rest t holds member next ahead
  obtain ⟨target, moved, taken⟩ := take_of_next belongs member next
  exact ⟨target, moved, _, takeAll_singleton lexeme taken, .refl _⟩

private theorem readsOne_node (belongs : Belongs states) (known : rule ∈ rules)
    (derives : DerivesAll rule.body lexemes children) (reads : ReadsRest states rule.body lexemes children) :
    ReadsOne states (.p rule.head) lexemes (.node rule children) := by
  intro stack before item rest t holds member next ahead
  obtain ⟨target, moved, _⟩ := belongs.move_of_next member next
  obtain ⟨fresh, freshMember, rfl, unread, freshAhead⟩ := belongs.begun_of_next member next known
  have whole : fresh.rest = fresh.rule.body := by
    rw [(belongs.proper freshMember).rest_eq, unread, List.drop_zero]
  obtain ⟨frames, rfl, read, reduced⟩ :=
    reads stack before fresh t holds freshMember whole (freshAhead t ahead)
  have counted : frames.length = fresh.rule.body.length := by
    have symbols := congrArg List.length derives.symbols_eq
    simpa using symbols
  have applied : reduce? states (frames ++ stack) fresh.rule =
      some (⟨target, .node fresh.rule (frames.reverse.map Frame.derivation)⟩ :: stack) := by
    have below : (state states stack).move? (.p fresh.rule.head) = some target := moved
    simp only [reduce?, List.drop_left' counted, List.take_left' counted, below, Option.map_some]
  exact ⟨target, moved, read.reduces (.step reduced applied (.refl _))⟩

private theorem readsRest_nil (belongs : Belongs states) : ReadsRest states [] [] [] := by
  intro stack before item t holds member complete ahead
  exact ⟨[], rfl, ⟨stack, rfl, .refl stack⟩, belongs.reduction_of_complete member complete ahead⟩

private theorem readsRest_cons (belongs : Belongs states) (first : Derives symbol lexemes derivation)
    (others : DerivesAll symbols rest derivations) (readsFirst : ReadsOne states symbol lexemes derivation)
    (readsOthers : ReadsRest states symbols rest derivations) :
    ReadsRest states (symbol :: symbols) (lexemes ++ rest) (derivation :: derivations) := by
  intro stack before item t holds member next ahead
  obtain ⟨target, moved, later, laterMember, sameRule, marked, laterAhead⟩ := belongs.move_of_next member next
  obtain ⟨target', moved', read⟩ :=
    readsFirst stack before item symbols _ holds member next (follow_contains others ahead)
  have sameTarget : target' = target := Option.some.inj (moved'.symm.trans moved)
  subst sameTarget
  have laterRest : later.rest = symbols := by
    have proper : item.Proper := belongs.proper member
    rw [(belongs.proper laterMember).rest_eq, sameRule, marked, ← List.drop_drop, ← proper.rest_eq, next]
    rfl
  have holdsLater : Holds states (⟨target', derivation⟩ :: stack) (before ++ lexemes) :=
    .cons holds moved first
  obtain ⟨frames, rfl, readRest, reduced⟩ :=
    readsOthers _ _ later t holdsLater laterMember laterRest (laterAhead t ahead)
  refine ⟨frames ++ [⟨target', derivation⟩], by simp, ?_, ?_⟩
  · rw [List.append_assoc]
    exact read.append belongs holds readRest
  · rw [List.append_assoc, ← sameRule]
    exact reduced

/-- Every derivation is found where it is looked for. -/
theorem derives_reads (belongs : Belongs states) (derives : Derives symbol lexemes derivation) :
    ReadsOne states symbol lexemes derivation := by
  have both := derives_induction (ReadsOne states) (ReadsRest states) (readsOne_leaf belongs)
    (fun rule lexemes children known parts reads => readsOne_node belongs known parts reads)
    (readsRest_nil belongs)
    (fun symbol lexemes derivation symbols rest derivations first others readsFirst readsOthers =>
      readsRest_cons belongs first others readsFirst readsOthers)
  exact both.1 symbol lexemes derivation derives

/-- The derivation of a whole program is what the reader ends with, below the end of the input. -/
theorem end_of_program (belongs : Belongs states) (derives : Derives (.p .start) lexemes derivation)
    (isEnd : last.kind = .endOfInput) :
    ∃ middle top frame, takeAll states [] lexemes = .ok middle ∧ middle.take states last = .ok [top, frame] ∧
      frame.derivation = derivation := by
  obtain ⟨root, rootMember, isRoot, unread, _⟩ := belongs.start_has_root
  have rest : root.rest = [.p .start, .t .endOfInput] := by
    rw [(belongs.proper rootMember).rest_eq, isRoot, unread]
    rfl
  obtain ⟨target, moved, later, laterMember, sameRule, marked, _⟩ := belongs.move_of_next rootMember rest
  have laterRest : later.rest = [.t last.kind] := by
    rw [(belongs.proper laterMember).rest_eq, sameRule, isRoot, marked, unread, isEnd]
    rfl
  obtain ⟨target', moved', middle, taken, reduces⟩ :=
    derives_reads belongs derives [] [] root _ last.kind .nil rootMember rest (by
      rw [isEnd]
      exact TerminalSet.contains_single .endOfInput)
  have sameTarget : target' = target := Option.some.inj (moved'.symm.trans moved)
  subst sameTarget
  have reached : later ∈ (state states [⟨target', derivation⟩]).items := laterMember
  obtain ⟨final, _, takenLast⟩ := take_of_next belongs reached laterRest
  refine ⟨middle, ⟨final, .leaf last⟩, ⟨target', derivation⟩, taken, ?_, rfl⟩
  rw [reduces.take_eq belongs (takeAll_holds belongs .nil taken), takenLast]

end TreeWalk.Grammar
