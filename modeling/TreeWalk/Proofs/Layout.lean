import TreeWalk.Proofs.ErrorPlaces
import TreeWalk.Proofs.MaximalMunch

/-! Separators make no difference.

Lexemes can be laid out as a text in many ways: between two of them stands a separator, which starts with
white space and goes on with white space and comments that end their line. Splitting such a text gives the
lexemes back. What the reader does depends on the kinds of the lexemes only, so texts that differ in their
separators have the same tree, or are rejected at the same lexeme because the same terminals are expected. -/
namespace TreeWalk

open Grammar

/-- The texts that a lexeme of a kind can have. A reserved word is no name. -/
def Terminal.IsSpelling (t : Terminal) (text : String) : Prop :=
  t.Matches text.toList ∧ (t = .identifier → text ∉ keywords.map Prod.fst)

namespace Lexeme

/-- White space, and comments with the line feed that ends them. -/
inductive IsFiller : List Char → Prop where
  | nil : IsFiller []
  | blank (gap : isGap c = true) (rest : IsFiller cs) : IsFiller (c :: cs)
  | comment (oneLine : '\n' ∉ words) (rest : IsFiller cs) : IsFiller ('/' :: '/' :: words ++ '\n' :: cs)

/-- What may stand between two lexemes, whatever they are: filler that starts with white space. -/
def IsSeparator : List Char → Prop
  | [] => False
  | c :: cs => isGap c = true ∧ IsFiller cs

/-- Lexemes laid out as a text, with a separator between any two. -/
inductive LaidOut : List (Terminal × String) → List Char → Prop where
  | nothing : LaidOut [] []
  | single (spelled : t.IsSpelling word) : LaidOut [(t, word)] word.toList
  | more {t : Terminal} {word : String} {gap cs : List Char} (spelled : t.IsSpelling word)
      (separator : IsSeparator gap) (rest : LaidOut (next :: others) cs) :
      LaidOut ((t, word) :: next :: others) (word.toList ++ (gap ++ cs))

/-! Splitting gives the lexemes back. -/

/-- Filler is dropped. -/
theorem IsFiller.munches (filler : IsFiller gap) (rest : Munches (place.afterAll gap) cs result) :
    Munches place (gap ++ cs) result := by
  induction filler generalizing place with
  | nil => exact rest
  | blank gap _ ih => exact .blank gap (ih rest)
  | @comment words gap oneLine _ ih =>
    rw [List.append_assoc, List.cons_append]
    rw [afterAll_append] at rest
    exact .comment oneLine (fun c isHead => (Option.some.inj isHead).symm) (.blank (by decide) (ih rest))

theorem IsSeparator.scanFrom_append (separator : IsSeparator gap) (place : Place) (cs : List Char) :
    scanFrom place (gap ++ cs) = scanFrom (place.afterAll gap) cs := by
  cases gap with
  | nil => exact separator.elim
  | cons c gap =>
    have filler : IsFiller (c :: gap) := .blank separator.1 separator.2
    exact (filler.munches (scanFrom_munches _ cs)).eq_scanFrom.symm

/-- No lexeme goes on into a separator. -/
theorem IsSeparator.ended (separator : IsSeparator gap) (cs : List Char) : Ended (gap ++ cs) := by
  cases gap with
  | nil => exact separator.elim
  | cons c gap =>
    obtain ⟨_, notWord, _, others⟩ := gap_ends separator.1
    exact ⟨notWord, fun member => others (List.mem_cons_of_mem _ member)⟩

/-- A word where a lexeme ends is the first lexeme of a text. -/
theorem scanFrom_of_spelling (spelled : t.IsSpelling word) (ended : Ended rest) (place : Place) :
    let next := place.afterAll word.toList
    scanFrom place (word.toList ++ rest) =
      ⟨⟨t, word, place, next⟩ :: (scanFrom next rest).lexemes, (scanFrom next rest).bad⟩ := by
  have isLexeme : IsLexeme t word.toList :=
    isLexeme_of_unreserved spelled.1 (by rw [String.ofList_toList]; exact spelled.2)
  rw [scanFrom_of_lexeme (isLexeme.found ended), List.take_left, List.drop_left, String.ofList_toList]

/-- A text splits into the lexemes that are laid out in it. -/
theorem LaidOut.scanned (laid : LaidOut tokens cs) (place : Place) :
    (scanFrom place cs).lexemes.map token = tokens ∧ (scanFrom place cs).bad = none := by
  induction laid generalizing place with
  | nothing =>
    rw [scanFrom]
    exact ⟨rfl, rfl⟩
  | single spelled =>
    have nothing : Ended [] := trivial
    have scanned := scanFrom_of_spelling spelled nothing place
    rw [List.append_nil] at scanned
    rw [scanned, scanFrom]
    exact ⟨rfl, rfl⟩
  | @more _ _ t word gap cs spelled separator _ ih =>
    rw [scanFrom_of_spelling spelled (separator.ended cs), separator.scanFrom_append]
    obtain ⟨same, whole⟩ := ih ((place.afterAll word.toList).afterAll gap)
    exact ⟨by rw [List.map_cons, same]; rfl, whole⟩

end Lexeme

namespace Grammar

variable {states : Array State} {stack stack' : Stack}

/-! The reader looks at kinds only. -/

namespace Stack

/-- Stacks that have gone through the same states. -/
def Alike (stack stack' : Stack) : Prop := stack.map Frame.state = stack'.map Frame.state

theorem Alike.nil : Alike [] [] := rfl

theorem Alike.state_eq (alike : Alike stack stack') : stack.state states = stack'.state states := by
  rw [state, state, ← List.head?_map, ← List.head?_map, alike]

theorem Alike.length_eq (alike : Alike stack stack') : stack.length = stack'.length := by
  simpa using congrArg List.length alike

theorem Alike.drop (alike : Alike stack stack') (size : Nat) : Alike (stack.drop size) (stack'.drop size) := by
  rw [Alike, List.map_drop, List.map_drop, alike]

theorem Alike.cons (alike : Alike stack stack') (target : Nat) (derivation derivation' : Derivation) :
    Alike (⟨target, derivation⟩ :: stack) (⟨target, derivation'⟩ :: stack') :=
  congrArg (target :: ·) alike

theorem Alike.reduce? (alike : Alike stack stack') (rule : Rule) :
    (stack.reduce? states rule = none ∧ stack'.reduce? states rule = none) ∨
      ∃ next next', stack.reduce? states rule = some next ∧ stack'.reduce? states rule = some next' ∧
        Alike next next' := by
  have rest := alike.drop rule.body.length
  unfold Stack.reduce?
  dsimp only
  rw [← rest.state_eq]
  cases (state states (stack.drop rule.body.length)).move? (.p rule.head) with
  | none => exact .inl ⟨rfl, rfl⟩
  | some target => exact .inr ⟨_, _, rfl, rfl, rest.cons target _ _⟩

theorem Alike.reduceFor (states : Array State) (alike : Alike stack stack') (t : Terminal) (fuel : Nat) :
    Alike (stack.reduceFor states t fuel) (stack'.reduceFor states t fuel) := by
  induction fuel generalizing stack stack' with
  | zero => exact alike
  | succ fuel ih =>
    rw [Stack.reduceFor, Stack.reduceFor, ← alike.state_eq]
    cases (stack.state states).reduction? t with
    | none => exact alike
    | some rule =>
      rw [Option.bind_some, Option.bind_some]
      rcases alike.reduce? rule with ⟨stuck, stuck'⟩ | ⟨next, next', made, made', alikeNext⟩
      · rw [stuck, stuck']
        exact alike
      · rw [made, made']
        exact ih alikeNext

/-- Lexemes of one kind are both taken, or both refused with the same expectations. -/
theorem Alike.take (states : Array State) (alike : Alike stack stack') (sameKind : lexeme.kind = lexeme'.kind) :
    (∃ expected, stack.take states lexeme = .error expected ∧ stack'.take states lexeme' = .error expected) ∨
      ∃ next next', stack.take states lexeme = .ok next ∧ stack'.take states lexeme' = .ok next' ∧
        Alike next next' := by
  unfold Stack.take patience
  rw [← alike.length_eq, ← sameKind]
  have ready := alike.reduceFor states lexeme.kind (32 * (stack.length + 2))
  dsimp only
  rw [← ready.state_eq]
  cases State.move? _ (.t lexeme.kind) with
  | none => exact .inl ⟨_, rfl, rfl⟩
  | some target => exact .inr ⟨_, _, rfl, rfl, ready.cons target _ _⟩

end Stack

theorem takeAll_alike (alike : stack.Alike stack')
    (sameKinds : lexemes.map Lexeme.kind = lexemes'.map Lexeme.kind)
    (taken : takeAll states stack lexemes = .ok next) :
    ∃ next', takeAll states stack' lexemes' = .ok next' ∧ next.Alike next' := by
  induction lexemes generalizing stack stack' lexemes' with
  | nil =>
    rw [List.map_eq_nil_iff.mp sameKinds.symm]
    cases taken
    exact ⟨stack', rfl, alike⟩
  | cons lexeme lexemes ih =>
    obtain ⟨lexeme', lexemes', rfl, sameKind, sameRest⟩ := List.map_eq_cons_iff.mp sameKinds.symm
    rw [takeAll] at taken ⊢
    rcases alike.take states sameKind.symm with
      ⟨expected, refused, _⟩ | ⟨middle, middle', first, first', alikeNext⟩
    · rw [refused] at taken
      cases taken
    · rw [first] at taken
      rw [first']
      exact ih alikeNext sameRest.symm taken

/-- Lexemes of the same kinds are refused at the same index. -/
theorem takeAll_error_alike (sameKinds : lexemes.map Lexeme.kind = lexemes'.map Lexeme.kind)
    (refused : takeAll states [] lexemes = .error refusal) :
    ∃ before after before' lexeme' after', lexemes = before ++ refusal.lexeme :: after ∧
      lexemes' = before' ++ lexeme' :: after' ∧ before'.length = before.length ∧
      takeAll states [] lexemes' = .error ⟨lexeme', refusal.expected⟩ := by
  obtain ⟨before, after, middle, rfl, taken, isRefused⟩ := takeAll_error refused
  rw [List.map_append] at sameKinds
  obtain ⟨before', rest', rfl, sameBefore, sameRest⟩ := List.map_eq_append_iff.mp sameKinds.symm
  obtain ⟨lexeme', after', rfl, sameKind, _⟩ := List.map_eq_cons_iff.mp sameRest
  obtain ⟨middle', taken', alike⟩ := takeAll_alike .nil sameBefore.symm taken
  refine ⟨before, after, before', lexeme', after', rfl, rfl, by simpa using congrArg List.length sameBefore, ?_⟩
  rw [takeAll_append taken', takeAll]
  rcases alike.take states sameKind.symm with ⟨expected, first, second⟩ | ⟨_, _, first, _⟩
  · rw [isRefused] at first
    cases first
    rw [second]
  · rw [isRefused] at first
    cases first

theorem program?_eq_none_iff (stack : Stack) : program? stack = none ↔ stack.length < 2 := by
  cases stack with
  | nil => simp [program?]
  | cons first rest => cases rest <;> simp [program?]

end Grammar

variable {states : Array State}

/-- If a program is not over at the end of its lexemes, nor are others of the same kinds. -/
theorem derive_end_alike {scan scan' : Lexeme.Scan} (whole : scan.bad = none) (whole' : scan'.bad = none)
    (sameKinds : scan.lexemes.map Lexeme.kind = scan'.lexemes.map Lexeme.kind)
    (taken : takeAll states [] scan.lexemes = .ok stack) (rejected : derive states scan = .error error) :
    ∃ expected, error = .ofRefusal ⟨endLexeme scan.lexemes, expected⟩ ∧
      derive states scan' = .error (.ofRefusal ⟨endLexeme scan'.lexemes, expected⟩) := by
  obtain ⟨stack', taken', alike⟩ := takeAll_alike .nil sameKinds taken
  unfold derive at rejected ⊢
  simp only [taken, taken', whole, whole', takeAll] at rejected ⊢
  have sameKind : (endLexeme scan.lexemes).kind = (endLexeme scan'.lexemes).kind := rfl
  rcases alike.take states sameKind with ⟨expected, first, second⟩ | ⟨next, next', first, second, alikeNext⟩
  · simp only [first, second] at rejected ⊢
    cases rejected
    exact ⟨expected, rfl, rfl⟩
  · simp only [first, second] at rejected ⊢
    cases program : program? next with
    | some derivation =>
      simp only [program] at rejected
      cases rejected
    | none =>
      have program' : program? next' = none := by
        rw [program?_eq_none_iff, ← alikeNext.length_eq]
        exact (program?_eq_none_iff next).mp program
      simp only [program, program'] at rejected ⊢
      cases rejected
      exact ⟨[], rfl, rfl⟩

/-- A text is rejected at the lexeme with an index, because terminals with other names are expected there.
The index after the last lexeme is that of the end of the text, which is reported where the last lexeme
starts. -/
inductive RejectedAt (source : String) : Nat → List String → Prop where
  | lexeme {before after : List Lexeme} {lexeme : Lexeme} {expected : List String}
      (split : (Lexeme.scan source).lexemes = before ++ lexeme :: after)
      (rejected : parse source = .error ⟨(Complaint.lexeme lexeme.text expected).message,
        some lexeme.first.line, some lexeme.first.column, some lexeme.past.line, some lexeme.past.column⟩) :
      RejectedAt source before.length expected
  | ended {before : List Lexeme} {last : Lexeme} {expected : List String}
      (split : (Lexeme.scan source).lexemes = before ++ [last])
      (rejected : parse source = .error ⟨(Complaint.endOfInput expected).message, some last.first.line,
        some last.first.column, some last.first.line, some (last.first.column + 1)⟩) :
      RejectedAt source (before.length + 1) expected

theorem parse_eq_error (derived : derive automaton (Lexeme.scan source) = .error error) :
    parse source = .error error := by
  rw [parse, derived]
  rfl

theorem rejectedAt_of_refused (split : (Lexeme.scan source).lexemes = before ++ lexeme :: after)
    (refused : takeAll automaton [] (Lexeme.scan source).lexemes = .error ⟨lexeme, expected⟩) :
    RejectedAt source before.length (expected.map Terminal.name) := by
  have derived : derive automaton (Lexeme.scan source) = .error (.ofRefusal ⟨lexeme, expected⟩) := by
    rw [derive, refused]
  rw [ParseError.ofRefusal_lexeme (scan_unended source lexeme (by simp [split]))] at derived
  exact .lexeme split (parse_eq_error derived)

theorem rejectedAt_of_end (filled : (Lexeme.scan source).lexemes ≠ [])
    (derived : derive automaton (Lexeme.scan source) =
      .error (.ofRefusal ⟨endLexeme (Lexeme.scan source).lexemes, expected⟩)) :
    RejectedAt source (Lexeme.scan source).lexemes.length (expected.map Terminal.name) := by
  obtain ⟨before, last, split⟩ := List.eq_nil_or_concat _ |>.resolve_left filled
  rw [List.concat_eq_append] at split
  have rejected := parse_eq_error derived
  rw [split, ParseError.ofRefusal_end] at rejected
  rw [split, List.length_append]
  exact .ended split rejected

/-- Texts with the same lexemes are accepted with the same tree. -/
theorem parse_of_tokens (whole : (Lexeme.scan second).bad = none)
    (same : (Lexeme.scan second).lexemes.map Lexeme.token = (Lexeme.scan first).lexemes.map Lexeme.token)
    (parsed : parse first = .ok tree) : parse second = .ok tree := by
  obtain ⟨_, statements, yields, isProgram⟩ := (derive_tree_iff_yields automaton_belongs _ tree).mp parsed
  exact (derive_tree_iff_yields automaton_belongs _ tree).mpr
    ⟨whole, statements, yields.of_tokens same, isProgram⟩

/-- Texts with lexemes of the same kinds are rejected at the same one. -/
theorem rejectedAt_of_kinds (whole : (Lexeme.scan first).bad = none) (whole' : (Lexeme.scan second).bad = none)
    (sameKinds : (Lexeme.scan first).lexemes.map Lexeme.kind = (Lexeme.scan second).lexemes.map Lexeme.kind)
    (rejected : derive automaton (Lexeme.scan first) = .error error) :
    ∃ index expected, RejectedAt first index expected ∧ RejectedAt second index expected := by
  cases taken : takeAll automaton [] (Lexeme.scan first).lexemes with
  | error refusal =>
    obtain ⟨before, after, before', lexeme', after', split, split', sameLength, refused'⟩ :=
      takeAll_error_alike sameKinds taken
    exact ⟨before.length, _, rejectedAt_of_refused split taken,
      sameLength ▸ rejectedAt_of_refused split' refused'⟩
  | ok stack =>
    obtain ⟨expected, rfl, rejected'⟩ := derive_end_alike whole whole' sameKinds taken rejected
    have sameLength : (Lexeme.scan first).lexemes.length = (Lexeme.scan second).lexemes.length := by
      simpa using congrArg List.length sameKinds
    -- without lexemes there is nothing to reject
    have filled : (Lexeme.scan first).lexemes ≠ [] := by
      intro empty
      obtain ⟨derivation, derives, _⟩ := derives_nil
      have accepted := (derive_eq_ok_iff automaton_belongs (Lexeme.scan first) derivation).mpr
        ⟨whole, by rw [empty]; exact derives⟩
      rw [accepted] at rejected
      cases rejected
    have filled' : (Lexeme.scan second).lexemes ≠ [] := by
      rwa [← List.length_pos_iff, ← sameLength, List.length_pos_iff]
    exact ⟨_, _, rejectedAt_of_end filled rejected, sameLength ▸ rejectedAt_of_end filled' rejected'⟩

/-- Lexemes that are laid out as a text are found in it again, all of them and nothing else, whatever the
separators are. So two texts in which the same lexemes are laid out have the same tree, or both are rejected
at the same lexeme, where the same is expected. -/
theorem separators_make_no_difference (laid : Lexeme.LaidOut tokens first.toList)
    (laid' : Lexeme.LaidOut tokens second.toList) :
    (Lexeme.scan first).bad = none ∧ (Lexeme.scan first).lexemes.map Lexeme.token = tokens ∧
      ((∃ tree, parse first = .ok tree ∧ parse second = .ok tree) ∨
        ∃ index expected, RejectedAt first index expected ∧ RejectedAt second index expected) := by
  obtain ⟨found, whole⟩ := laid.scanned .start
  obtain ⟨found', whole'⟩ := laid'.scanned .start
  have same : (Lexeme.scan second).lexemes.map Lexeme.token = (Lexeme.scan first).lexemes.map Lexeme.token :=
    found'.trans found.symm
  refine ⟨whole, found, ?_⟩
  cases derived : derive automaton (Lexeme.scan first) with
  | ok derivation =>
    have parsed : parse first = .ok derivation.tree := by
      rw [parse, derived]
      rfl
    exact .inl ⟨derivation.tree, parsed, parse_of_tokens whole' same parsed⟩
  | error error => exact .inr (rejectedAt_of_kinds whole whole' (kinds_eq_of_tokens same.symm) derived)

/-- A string that holds two slashes and a semicolon, with a space between them, or with a tab and a comment
that holds a quote. -/
theorem separators_make_no_difference_of_comment :
    let tokens : List (Terminal × String) := [(.string, "\"//\""), (.semicolon, ";")]
    let first := "\"//\" ;"
    let second := "\"//\"\t//\"\n;"
    Lexeme.LaidOut tokens first.toList ∧ Lexeme.LaidOut tokens second.toList ∧
      ∃ tree, parse first = .ok tree ∧ parse second = .ok tree := by
  intro tokens first second
  have string : Terminal.IsSpelling .string "\"//\"" :=
    ⟨⟨['/', '/', '"'], rfl, .plain (by decide) (.plain (by decide) .close)⟩, fun isName => by cases isName⟩
  have semicolon : Terminal.IsSpelling .semicolon ";" := ⟨rfl, fun isName => by cases isName⟩
  have space : Lexeme.IsSeparator [' '] := ⟨rfl, .nil⟩
  have comment : Lexeme.IsSeparator ['\t', '/', '/', '"', '\n'] := by
    have oneLine : '\n' ∉ ['"'] := by decide
    exact ⟨rfl, .comment oneLine .nil⟩
  have laid : Lexeme.LaidOut tokens first.toList := by
    have split : first.toList = "\"//\"".toList ++ ([' '] ++ ";".toList) := by decide
    exact split ▸ .more string space (.single semicolon)
  have laid' : Lexeme.LaidOut tokens second.toList := by
    have split : second.toList = "\"//\"".toList ++ (['\t', '/', '/', '"', '\n'] ++ ";".toList) := by decide
    exact split ▸ .more string comment (.single semicolon)
  obtain ⟨whole, found, same | ⟨_, _, rejected, _⟩⟩ := separators_make_no_difference laid laid'
  · exact ⟨laid, laid', same⟩
  -- the string alone is a program, so it is one with the semicolon
  let one : Lexeme := ⟨.string, "\"//\"", ⟨1, 1⟩, ⟨1, 5⟩⟩
  let closing : Lexeme := ⟨.semicolon, ";", ⟨1, 6⟩, ⟨1, 7⟩⟩
  have alone : Lexeme.scan "\"//\"" = ⟨[one], none⟩ := by decide +kernel
  obtain ⟨_, statements, yields, _⟩ :=
    (derive_tree_iff_yields automaton_belongs _ _).mp (derive_atom automaton_belongs alone (by decide))
  rw [alone] at yields
  have isSemicolon : closing.kind = .semicolon := rfl
  have closed : Yields [.p .statements] [one, closing] statements :=
    (yields.closeOff isSemicolon).of_rule .splice (by decide)
  have parsed := (derive_tree_iff_yields automaton_belongs _ _).mpr
    ⟨whole, statements, closed.of_tokens found, rfl⟩
  cases rejected with
  | lexeme _ rejected => cases parsed.symm.trans rejected
  | ended _ rejected => cases parsed.symm.trans rejected

end TreeWalk
