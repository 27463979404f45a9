import TreeWalk.Proofs.Splitting

/-! Where lexemes and bad characters stand.

A terminal matches texts by a rule of its own; which terminal a text is taken for is another matter. Each
lexeme is a part of the source text that its terminal matches, and its places are those before and after
this part, on one line. Where splitting stops at a character, no terminal matches any text that begins
there, and neither does white space nor a comment. -/
namespace TreeWalk

/-- The texts that a terminal matches. A keyword is matched as a name as well. -/
def Terminal.Matches : Terminal → List Char → Prop
  | .integer, cs => Lexeme.IsNumeral cs
  | .identifier, cs => Lexeme.IsWord cs
  | .string, cs => ∃ tail, cs = '"' :: tail ∧ Lexeme.IsStringTail tail
  | .endOfInput, _ => False
  | t, cs => cs = t.spelling.toList

/-- The texts that are dropped: white space, and comments up to the end of their line. -/
def Lexeme.IsDropped (cs : List Char) : Prop :=
  (cs ≠ [] ∧ ∀ c ∈ cs, isGap c = true) ∨ ∃ comment, cs = '/' :: '/' :: comment ∧ '\n' ∉ comment

namespace Terminal

theorem Fixed.matches_iff {t : Terminal} (fixed : t.Fixed) (notEnd : t ≠ .endOfInput) :
    t.Matches cs ↔ cs = t.spelling.toList := by
  cases t with
  | integer | string | identifier => exact absurd fixed (by decide)
  | endOfInput => exact absurd rfl notEnd
  | _ => exact Iff.rfl

/-- A sign is on one line, and begins as a word or with a character that is a sign by itself. -/
theorem spelling_begins {t : Terminal} (fixed : t.Fixed) (notEnd : t ≠ .endOfInput) :
    '\n' ∉ t.spelling.toList ∧ ∃ c rest, t.spelling.toList = c :: rest ∧
      (Lexeme.startsWord c = true ∨ (ofChar? c).isSome = true) := by
  have checked : ∀ t ∈ all, t.Fixed → t ≠ .endOfInput → '\n' ∉ t.spelling.toList ∧
      t.spelling.toList.head?.any (fun c => Lexeme.startsWord c || (ofChar? c).isSome) = true := by decide
  obtain ⟨oneLine, begins⟩ := checked t t.mem_all fixed notEnd
  refine ⟨oneLine, ?_⟩
  cases word : t.spelling.toList with
  | nil => simp [word] at begins
  | cons c rest => exact ⟨c, rest, rfl, by simpa [word] using begins⟩

end Terminal

namespace Lexeme

theorem IsWordTail.oneLine (tail : IsWordTail cs) : '\n' ∉ cs := by
  have other : continuesWord '\n' = false ∧ startsWord '\n' = false := by decide
  induction tail with
  | nil => exact List.not_mem_nil
  | @letter c cs continues _ ih =>
    have different : '\n' ≠ c := by
      rintro rfl
      simp [other] at continues
    simp [different, ih]
  | @part c cs starts _ ih =>
    have different : '\n' ≠ c := by
      rintro rfl
      simp [other] at starts
    simp [different, ih]

theorem IsStringTail.oneLine (tail : IsStringTail cs) : '\n' ∉ cs := by
  induction tail with
  | close => decide
  | escape sameLine _ ih => simp [sameLine.symm, ih]
  | @plain c cs ordinary _ ih =>
    have different : '\n' ≠ c := by
      rintro rfl
      simp at ordinary
    simp [different, ih]

end Lexeme

/-- What a terminal matches is not empty, and on one line. -/
theorem Terminal.Matches.oneLine {t : Terminal} (isMatch : t.Matches cs) : cs ≠ [] ∧ '\n' ∉ cs := by
  by_cases fixed : t.Fixed ∧ t ≠ .endOfInput
  · obtain ⟨oneLine, c, rest, spelled, _⟩ := spelling_begins fixed.1 fixed.2
    rw [(fixed.1.matches_iff fixed.2).mp isMatch]
    exact ⟨by simp [spelled], oneLine⟩
  cases t with
  | integer =>
    refine ⟨isMatch.1, fun member => ?_⟩
    have digit := isMatch.2 _ member
    cases digit
  | identifier =>
    cases cs with
    | nil => exact isMatch.elim
    | cons c cs =>
      have different : '\n' ≠ c := by
        rintro rfl
        cases isMatch.1
      simp [different, isMatch.2.oneLine]
  | string =>
    obtain ⟨tail, rfl, isTail⟩ := isMatch
    simp [isTail.oneLine]
  | endOfInput => exact isMatch.elim
  | _ => exact absurd (by decide) fixed

namespace Lexeme

/-- A lexeme is matched by its terminal. -/
theorem IsLexeme.matched (isLexeme : IsLexeme t cs) : t.Matches cs := by
  cases isLexeme with
  | word isWord =>
    rcases Terminal.ofWord_eq (String.ofList cs) with ⟨isIdentifier, _⟩ | keyword
    · rw [isIdentifier]
      exact isWord
    · obtain ⟨fixed, notEnd, spelled⟩ := Terminal.keyword_spelling keyword
      rw [fixed.matches_iff notEnd, ← spelled, String.toList_ofList]
  | string tail => exact ⟨_, rfl, tail⟩
  | numeral isNumeral => exact isNumeral
  | sign fixed notEnd => exact (fixed.matches_iff notEnd).mpr rfl

/-- What is known of a character where nothing is found. -/
theorem unmatched_of_bad (missing : piece? (c :: rest) = none) :
    startsWord c = false ∧ isGap c = false ∧ c.isDigit = false ∧ Terminal.ofChar? c = none ∧
      (c = '"' → stringLength rest = none) := by
  simp only [piece?] at missing
  split at missing
  · cases missing
  split at missing
  · rename_i quotes
    subst quotes
    exact ⟨by decide, by decide, by decide, rfl, fun _ => Option.map_eq_none_iff.mp missing⟩
  split at missing
  · cases missing
  split at missing
  · cases missing
  split at missing
  · cases missing
  split at missing
  · cases missing
  split at missing
  · cases missing
  · rename_i notWord notQuote notGap _ notDigit _ _
    exact ⟨by simpa using notWord, by simpa using notGap, by simpa using notDigit,
      Option.map_eq_none_iff.mp missing, fun isQuote => absurd isQuote notQuote⟩

/-- Where nothing is found, no terminal matches, and nothing is dropped. -/
theorem no_match_of_bad (missing : piece? (c :: rest) = none) (part : taken <+: c :: rest) :
    (∀ t : Terminal, ¬ t.Matches taken) ∧ ¬ IsDropped taken := by
  obtain ⟨notWord, notGap, notDigit, notSign, noString⟩ := unmatched_of_bad missing
  constructor
  · intro t isMatch
    by_cases fixed : t.Fixed ∧ t ≠ .endOfInput
    · obtain ⟨_, d, tail, spelled, begins⟩ := Terminal.spelling_begins fixed.1 fixed.2
      rw [(fixed.1.matches_iff fixed.2).mp isMatch, spelled] at part
      rw [(List.cons_prefix_cons.mp part).1] at begins
      simp [notWord, notSign] at begins
    cases taken with
    | nil => exact isMatch.oneLine.1 rfl
    | cons d tail =>
      obtain ⟨rfl, partTail⟩ := List.cons_prefix_cons.mp part
      cases t with
      | integer =>
        rw [isMatch.2 d List.mem_cons_self] at notDigit
        cases notDigit
      | identifier =>
        rw [isMatch.1] at notWord
        cases notWord
      | string =>
        obtain ⟨_, same, isTail⟩ := isMatch
        cases same
        obtain ⟨more, rfl⟩ := partTail
        rw [stringLength_append isTail] at noString
        cases noString rfl
      | endOfInput => exact isMatch.elim
      | _ => exact fixed (by decide)
  · rintro (⟨filled, gaps⟩ | ⟨comment, rfl, _⟩)
    · cases taken with
      | nil => exact filled rfl
      | cons d tail =>
        obtain ⟨rfl, _⟩ := List.cons_prefix_cons.mp part
        rw [gaps d List.mem_cons_self] at notGap
        cases notGap
    · obtain ⟨rfl, _⟩ := List.cons_prefix_cons.mp part
      cases notSign

variable {place : Place}

theorem afterAll_oneLine (oneLine : '\n' ∉ cs) (place : Place) :
    place.afterAll cs = ⟨place.line, place.column + cs.length⟩ := by
  induction cs generalizing place with
  | nil => rfl
  | cons c cs ih =>
    rw [List.mem_cons, not_or] at oneLine
    have step : place.afterAll (c :: cs) = (place.after c).afterAll cs := rfl
    rw [step, ih oneLine.2, Place.after, if_neg (Ne.symm oneLine.1), List.length_cons]
    simp only [Place.mk.injEq, true_and]
    omega

/-- A lexeme is a part of the text, and its places are those before and after this part. -/
structure StandsIn (source : List Char) (start : Place) (lexeme : Lexeme) : Prop where
  part : ∃ above below, source = above ++ lexeme.text.toList ++ below ∧ lexeme.first = start.afterAll above
  past : lexeme.past = lexeme.first.afterAll lexeme.text.toList
  isLexeme : IsLexeme lexeme.kind lexeme.text.toList

/-- A lexeme of the rest of a text is one of the whole text. -/
theorem StandsIn.drop (stands : StandsIn (cs.drop size) (place.afterAll (cs.take size)) lexeme) :
    StandsIn cs place lexeme := by
  obtain ⟨above, below, split, first⟩ := stands.part
  refine ⟨⟨cs.take size ++ above, below, ?_, ?_⟩, stands.past, stands.isLexeme⟩
  · rw [List.append_assoc, List.append_assoc, ← List.append_assoc above, ← split, List.take_append_drop]
  · rw [first, afterAll_append]

theorem scanFrom_standsIn (place : Place) (cs : List Char) :
    ∀ lexeme ∈ (scanFrom place cs).lexemes, StandsIn cs place lexeme := by
  fun_induction scanFrom place cs with
  | case1 => simp
  | case2 => simp
  | case3 place c rest size taken next scan _ _ _ ih => exact fun lexeme member => (ih lexeme member).drop
  | case4 place c rest size taken next scan t _ found _ ih =>
    refine List.forall_mem_cons.mpr ⟨⟨⟨[], (c :: rest).drop size, ?_, rfl⟩, ?_, ?_⟩,
      fun lexeme member => (ih lexeme member).drop⟩
    · simp only [List.nil_append, String.toList_ofList]
      exact (List.take_append_drop size (c :: rest)).symm
    · rw [String.toList_ofList]
    · rw [String.toList_ofList]
      exact isLexeme_of_piece? found

/-- Splitting stops at a character of the text where nothing is found. -/
theorem scanFrom_bad (stops : (scanFrom place cs).bad = some bad) :
    ∃ above rest, cs = above ++ bad.char :: rest ∧ bad.place = place.afterAll above ∧
      piece? (bad.char :: rest) = none := by
  fun_induction scanFrom place cs with
  | case1 => cases stops
  | case2 place c rest missing =>
    cases stops
    exact ⟨[], rest, rfl, rfl, missing⟩
  | case3 place c rest size taken next scan _ _ _ ih | case4 place c rest size taken next scan _ _ _ _ ih =>
    obtain ⟨above, below, split, here, missing⟩ := ih stops
    refine ⟨taken ++ above, below, ?_, ?_, missing⟩
    · rw [List.append_assoc, ← split, List.take_append_drop]
    · rw [here, afterAll_append]

end Lexeme

end TreeWalk
