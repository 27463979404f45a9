import TreeWalk.Proofs.Joining
import TreeWalk.Proofs.LexemePlaces
import TreeWalk.Proofs.Viability

/-! Parse errors are reported at the leftmost place.

The reader never takes a lexeme too many: what it has taken goes on to some program, and a lexeme that it
refuses stands in no program after the same beginning. So an error is reported at the first lexeme that is
one too many, at the first character where no lexeme begins if all lexemes before it are good, or else at
the end of a text that only lacks something. -/
namespace TreeWalk

open Grammar

/-- The lexemes of a program, by kind and spelling. -/
def Accepted (tokens : List (Terminal × String)) : Prop :=
  ∃ source tree, parse source = .ok tree ∧ (Lexeme.scan source).lexemes.map Lexeme.token = tokens

/-- Lexemes that a program can begin with. -/
def Viable (tokens : List (Terminal × String)) : Prop := ∃ more, Accepted (tokens ++ more)

/-- Lexemes that come from a program and can be found in a text are those of some text. -/
theorem accepted_of_derives (stand : Stand lexemes) (derives : Derives (.p .start) lexemes derivation) :
    Accepted (lexemes.map Lexeme.token) := by
  have found : ∀ token ∈ lexemes.map Lexeme.token, Lexeme.Stands token.1 token.2 :=
    List.forall_mem_map.mpr stand
  obtain ⟨again, scanned, same⟩ := Lexeme.scanFrom_spaced found .start
  have split : Lexeme.scan (String.ofList (Lexeme.spaced (lexemes.map Lexeme.token))) = ⟨again, none⟩ := by
    rw [Lexeme.scan, String.toList_ofList, scanned]
  obtain ⟨derivation', derived⟩ := derives.of_kinds (kinds_eq_of_tokens same)
  refine ⟨_, derivation'.tree, (derive_tree_iff automaton_belongs _ _).mpr ?_, by rw [split, same]⟩
  rw [split]
  exact ⟨rfl, derivation', derived, rfl⟩

theorem derives_of_accepted (accepted : Accepted tokens) :
    ∃ lexemes derivation, lexemes.map Lexeme.token = tokens ∧ Derives (.p .start) lexemes derivation := by
  obtain ⟨source, tree, parsed, same⟩ := accepted
  obtain ⟨_, derivation, derives, _⟩ := (derive_tree_iff automaton_belongs _ tree).mp parsed
  exact ⟨_, derivation, same, derives⟩

theorem scan_stand (source : String) : Stand (Lexeme.scan source).lexemes := by
  intro lexeme member
  exact Lexeme.stands_of_lexeme (Lexeme.scanFrom_standsIn .start source.toList lexeme member).isLexeme

theorem scan_unended (source : String) :
    ∀ lexeme ∈ (Lexeme.scan source).lexemes, lexeme.kind ≠ .endOfInput := by
  intro lexeme member isEnd
  have isMatch := (Lexeme.scanFrom_standsIn .start source.toList lexeme member).isLexeme.matched
  rw [isEnd] at isMatch
  exact isMatch

/-- Lexemes of a text that the reader takes go on to a program. -/
theorem viable_of_takeAll (stand : Stand lexemes) (unended : ∀ lexeme ∈ lexemes, lexeme.kind ≠ .endOfInput)
    (taken : takeAll automaton [] lexemes = .ok stack) : Viable (lexemes.map Lexeme.token) := by
  have holds := takeAll_holds automaton_belongs .nil taken
  obtain ⟨rest, derivation, standRest, derives⟩ := holds.viable automaton_belongs unended
  refine ⟨rest.map Lexeme.token, ?_⟩
  rw [← List.map_append]
  exact accepted_of_derives (stand.append standRest) derives

/-- A lexeme that the reader refuses stands in no program after the same beginning. -/
theorem not_accepted_of_refused (taken : takeAll automaton [] before = .ok stack)
    (refused : stack.take automaton lexeme = .error expected) (accepted : Accepted tokens) :
    ¬ before.map Lexeme.kind ++ [lexeme.kind] <+: tokens.map Prod.fst := by
  rintro ⟨kinds, same⟩
  obtain ⟨lexemes, derivation, rfl, derives⟩ := derives_of_accepted accepted
  rw [List.map_map] at same
  obtain ⟨first, rest, rfl, sameFirst, _⟩ := List.map_eq_append_iff.mp same.symm
  have sameKinds : (before ++ lexeme :: rest).map Lexeme.kind = (first ++ rest).map Lexeme.kind := by
    rw [List.map_append, List.map_append, List.map_cons, show first.map Lexeme.kind = _ from sameFirst]
    simp
  obtain ⟨derivation', again⟩ := derives.of_kinds sameKinds
  have isEnd : (endLexeme []).kind = .endOfInput := rfl
  obtain ⟨middle, _, _, takenAll, _⟩ := end_of_program automaton_belongs again isEnd
  rw [takeAll_append taken, takeAll, refused] at takenAll
  cases takenAll

namespace Grammar

/-- Lexemes that are not all taken are taken up to one that is refused. -/
theorem takeAll_error {states : Array State} {stack : Stack}
    (refused : takeAll states stack lexemes = .error refusal) :
    ∃ before after middle, lexemes = before ++ refusal.lexeme :: after ∧
      takeAll states stack before = .ok middle ∧
      middle.take states refusal.lexeme = .error refusal.expected := by
  induction lexemes generalizing stack with
  | nil => cases refused
  | cons lexeme lexemes ih =>
    rw [takeAll] at refused
    split at refused
    · rename_i next takenFirst
      obtain ⟨before, after, middle, rfl, taken, isRefused⟩ := ih refused
      refine ⟨lexeme :: before, after, middle, rfl, ?_, isRefused⟩
      rw [takeAll, takenFirst]
      exact taken
    · rename_i expected isRefused
      cases refused
      exact ⟨[], lexemes, stack, rfl, rfl, isRefused⟩

end Grammar

/-- A text whose lexemes are those of a program parses. -/
theorem derive_of_accepted (whole : (Lexeme.scan source).bad = none)
    (accepted : Accepted ((Lexeme.scan source).lexemes.map Lexeme.token)) :
    ∃ derivation, derive automaton (Lexeme.scan source) = .ok derivation := by
  obtain ⟨lexemes, derivation, same, derives⟩ := derives_of_accepted accepted
  obtain ⟨derivation', again⟩ := derives.of_kinds (kinds_eq_of_tokens same.symm)
  exact ⟨derivation', (derive_eq_ok_iff automaton_belongs _ _).mpr ⟨whole, again⟩⟩

/-- There is a program without lexemes. -/
theorem derives_nil : ∃ derivation, Derives (.p .start) [] derivation ∧ derivation.tree = .node .program [] := by
  have noStatements : (⟨.statements, [], .splice⟩ : Rule) ∈ rules := by decide
  have ofStatements : (⟨.start, [.p .statements], .wrap .program⟩ : Rule) ∈ rules := by decide
  exact ⟨_, .node ofStatements (.singleton (.node noStatements .nil)), rfl⟩

theorem accepted_nil : Accepted [] := by
  obtain ⟨_, program, _⟩ := derives_nil
  exact accepted_of_derives (List.forall_mem_nil _) program

/-- Why there is no derivation, and what is reported. -/
theorem derive_eq_error {states : Array State} {scan : Lexeme.Scan}
    (rejected : derive states scan = .error error) :
    (∃ refusal, takeAll states [] scan.lexemes = .error refusal ∧ error = .ofRefusal refusal) ∨
    ∃ stack, takeAll states [] scan.lexemes = .ok stack ∧
      ((∃ bad, scan.bad = some bad ∧ error = .ofBadChar bad) ∨
        scan.bad = none ∧ ∃ expected, error = .ofRefusal ⟨endLexeme scan.lexemes, expected⟩) := by
  unfold derive at rejected
  cases taken : takeAll states [] scan.lexemes with
  | error refusal =>
    simp only [taken, Except.error.injEq] at rejected
    exact .inl ⟨refusal, rfl, rejected.symm⟩
  | ok stack =>
    refine .inr ⟨stack, rfl, ?_⟩
    cases stops : scan.bad with
    | some bad =>
      simp only [taken, stops, Except.error.injEq] at rejected
      exact .inl ⟨bad, rfl, rejected.symm⟩
    | none =>
      refine .inr ⟨rfl, ?_⟩
      simp only [taken, stops] at rejected
      split at rejected
      · rename_i refusal refused
        cases rejected
        obtain ⟨before, after, _, single, _⟩ := takeAll_error refused
        have isEnd : refusal.lexeme = endLexeme scan.lexemes := by
          have member : refusal.lexeme ∈ [endLexeme scan.lexemes] := by simp [single]
          exact List.mem_singleton.mp member
        exact ⟨refusal.expected, by rw [← isEnd]⟩
      · split at rejected
        · cases rejected
        · cases rejected
          exact ⟨[], rfl⟩

namespace ParseError

theorem known_ofNat (n : Nat) : known (some (n : Int)) = some (n : Int) := by
  simp [known, Option.filter]

/-- A refused lexeme is reported with its own places. -/
theorem ofRefusal_lexeme (notEnd : lexeme.kind ≠ .endOfInput) (expected : List Terminal) :
    ofRefusal ⟨lexeme, expected⟩ =
      ⟨(Complaint.lexeme lexeme.text (expected.map Terminal.name)).message, some lexeme.first.line,
        some lexeme.first.column, some lexeme.past.line, some lexeme.past.column⟩ := by
  simp [ofRefusal, notEnd, report, known_ofNat]

/-- The end of the text is reported one column wide, where the last lexeme starts. -/
theorem ofRefusal_end (last : Lexeme) (expected : List Terminal) :
    ofRefusal ⟨endLexeme (before ++ [last]), expected⟩ =
      ⟨(Complaint.endOfInput (expected.map Terminal.name)).message, some last.first.line,
        some last.first.column, some last.first.line, some (last.first.column + 1)⟩ := by
  simp [ofRefusal, endLexeme, report, known_ofNat]

/-- A bad character is reported one column wide. -/
theorem ofBadChar_eq (bad : Lexeme.BadChar) :
    ofBadChar bad =
      ⟨(Complaint.character bad.char).message, some bad.place.line, some bad.place.column,
        some bad.place.line, some (bad.place.column + 1)⟩ := by
  simp [ofBadChar, report, known_ofNat]

/-- What an error means that is reported at the leftmost place of a text. -/
inductive Leftmost (source : String) : ParseError → Prop where
  /-- A lexeme that is one too many. -/
  | lexeme {before after : List Lexeme} {lexeme : Lexeme} (expected : List String)
      (split : (Lexeme.scan source).lexemes = before ++ lexeme :: after)
      (stands : lexeme.StandsIn source.toList .start)
      (viable : Viable (before.map Lexeme.token))
      (refused : ∀ tokens, Accepted tokens →
        ¬ before.map Lexeme.kind ++ [lexeme.kind] <+: tokens.map Prod.fst) :
      Leftmost source ⟨(Complaint.lexeme lexeme.text expected).message, some lexeme.first.line,
        some lexeme.first.column, some lexeme.past.line, some lexeme.past.column⟩
  /-- A character where no lexeme begins, after lexemes that are good. -/
  | character {lexemes : List Lexeme} {bad : Lexeme.BadChar} {above rest : List Char}
      (stops : Lexeme.scan source = ⟨lexemes, some bad⟩)
      (split : source.toList = above ++ bad.char :: rest) (place : bad.place = Place.afterAll .start above)
      (unmatched : ∀ taken, taken <+: bad.char :: rest →
        (∀ t : Terminal, ¬ t.Matches taken) ∧ ¬ Lexeme.IsDropped taken)
      (viable : Viable (lexemes.map Lexeme.token)) :
      Leftmost source ⟨(Complaint.character bad.char).message, some bad.place.line, some bad.place.column,
        some bad.place.line, some (bad.place.column + 1)⟩
  /-- The end of a text that only lacks something. -/
  | endOfInput {before : List Lexeme} {last : Lexeme} (expected : List String)
      {more : List (Terminal × String)} (split : Lexeme.scan source = ⟨before ++ [last], none⟩)
      (lacking : more ≠ []) (viable : Accepted ((before ++ [last]).map Lexeme.token ++ more)) :
      Leftmost source ⟨(Complaint.endOfInput expected).message, some last.first.line, some last.first.column,
        some last.first.line, some (last.first.column + 1)⟩

/-- All that is reported is on one line, and not empty. -/
theorem Leftmost.oneLine (leftmost : Leftmost source error) :
    ∃ line column endColumn : Int, error.line = some line ∧ error.column = some column ∧
      error.endLine = some line ∧ error.endColumn = some endColumn ∧ column < endColumn := by
  cases leftmost with
  | @lexeme _ _ lexeme _ _ stands =>
    obtain ⟨filled, sameLine⟩ := stands.isLexeme.matched.oneLine
    have past : lexeme.past = ⟨lexeme.first.line, lexeme.first.column + lexeme.text.toList.length⟩ :=
      stands.past.trans (Lexeme.afterAll_oneLine sameLine lexeme.first)
    have positive := List.length_pos_iff.mpr filled
    refine ⟨lexeme.first.line, lexeme.first.column, lexeme.past.column, rfl, rfl, by rw [past], rfl, ?_⟩
    rw [past]
    dsimp only
    omega
  | character | endOfInput => exact ⟨_, _, _, rfl, rfl, rfl, rfl, Int.lt_succ _⟩

end ParseError

theorem leftmost_of_derive (rejected : derive automaton (Lexeme.scan source) = .error error) :
    error.Leftmost source := by
  have stand := scan_stand source
  have unended := scan_unended source
  rcases derive_eq_error rejected with ⟨refusal, refused, rfl⟩ | ⟨stack, taken, ended⟩
  · obtain ⟨before, after, middle, split, taken, isRefused⟩ := takeAll_error refused
    rw [split] at stand unended
    have member : refusal.lexeme ∈ (Lexeme.scan source).lexemes := by simp [split]
    rw [ParseError.ofRefusal_lexeme (unended refusal.lexeme (by simp))]
    have viable := viable_of_takeAll (fun lexeme isBefore => stand lexeme (by simp [isBefore]))
      (fun lexeme isBefore => unended lexeme (by simp [isBefore])) taken
    exact .lexeme _ split (Lexeme.scanFrom_standsIn .start source.toList _ member) viable
      fun tokens => not_accepted_of_refused taken isRefused
  have viable := viable_of_takeAll stand unended taken
  rcases ended with ⟨bad, stops, rfl⟩ | ⟨whole, expected, rfl⟩
  · obtain ⟨above, rest, split, here, missing⟩ := Lexeme.scanFrom_bad stops
    rw [ParseError.ofBadChar_eq]
    exact .character (by rw [← stops]) split here (fun taken => Lexeme.no_match_of_bad missing) viable
  · obtain ⟨more, accepted⟩ := viable
    have unfinished : ¬ Accepted ((Lexeme.scan source).lexemes.map Lexeme.token) := by
      intro finished
      obtain ⟨derivation, derived⟩ := derive_of_accepted whole finished
      rw [derived] at rejected
      cases rejected
    have lacking : more ≠ [] := by
      rintro rfl
      rw [List.append_nil] at accepted
      exact unfinished accepted
    rcases List.eq_nil_or_concat (Lexeme.scan source).lexemes with empty | ⟨before, last, split⟩
    · rw [empty] at unfinished
      exact absurd accepted_nil unfinished
    · rw [List.concat_eq_append] at split
      rw [split] at accepted ⊢
      rw [ParseError.ofRefusal_end]
      exact .endOfInput _ (by rw [← split, ← whole]) lacking accepted

/-- Parse errors are reported at the leftmost place: at the first lexeme after which no program goes on, at
a character that nothing matches, or at the end of a text that only lacks something. All lexemes before that
place are the beginning of some program, and the place and its end are on one line. -/
theorem parse_error_is_leftmost (rejected : parse source = .error error) :
    error.Leftmost source ∧ ∃ line column endColumn : Int, error.line = some line ∧
      error.column = some column ∧ error.endLine = some line ∧ error.endColumn = some endColumn ∧
      column < endColumn := by
  have leftmost : error.Leftmost source := by
    rw [parse] at rejected
    cases derived : derive automaton (Lexeme.scan source) with
    | ok derivation =>
      rw [derived] at rejected
      cases rejected
    | error reason =>
      rw [derived] at rejected
      cases rejected
      exact leftmost_of_derive derived
  exact ⟨leftmost, leftmost.oneLine⟩

/-- After a numeral, with which a program can begin, a character that no lexeme begins with. -/
theorem parse_error_is_leftmost_of_bad_character :
    let error : ParseError := ⟨"Unexpected character '@'", some 1, some 3, some 1, some 4⟩
    parse "1 @" = .error error ∧ error.Leftmost "1 @" := by
  intro error
  let one : Lexeme := ⟨.integer, "1", ⟨1, 1⟩, ⟨1, 2⟩⟩
  have stops : Lexeme.scan "1 @" = ⟨[one], some ⟨'@', ⟨1, 3⟩⟩⟩ := by decide +kernel
  have alone : Lexeme.scan "1" = ⟨[one], none⟩ := by decide +kernel
  have accepted : Accepted [one.token] :=
    ⟨"1", _, derive_atom automaton_belongs alone (by decide), by rw [alone]; rfl⟩
  cases parsed : parse "1 @" with
  | ok tree =>
    have whole := ((derive_tree_iff automaton_belongs _ tree).mp parsed).1
    rw [stops] at whole
    cases whole
  | error reason =>
    obtain ⟨leftmost, _⟩ := parse_error_is_leftmost parsed
    have same : reason = error := by
      cases leftmost with
      | @lexeme before _ lexeme _ split _ _ refused =>
        rw [stops] at split
        cases before with
        | nil =>
          cases split
          exact absurd (List.prefix_refl _) (refused _ accepted)
        | cons first before => simp at split
      | character again =>
        rw [stops] at again
        cases again
        rfl
      | endOfInput _ again =>
        rw [stops] at again
        cases (Lexeme.Scan.mk.inj again).2
    subst same
    exact ⟨rfl, leftmost⟩

end TreeWalk
