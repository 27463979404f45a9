import TreeWalk.Proofs.Spelling

/-! Splitting texts that are put together.

A piece of a text ends where the next character cannot belong to it, and white space belongs to no lexeme.
So a text with a line feed after it splits as it does alone, and what follows the line feed splits as it
does alone too, apart from the places: a comment ends at the line feed, and white space before it goes on
after it without joining anything. -/
namespace TreeWalk.Lexeme

variable {g : Char}

/-- White space neither starts nor continues anything. -/
theorem gap_ends (gap : isGap g = true) :
    startsWord g = false ∧ continuesWord g = false ∧ g.isDigit = false ∧ g ∉ ['"', '.', '/', '='] := by
  simp only [isGap, Bool.or_eq_true, decide_eq_true_eq] at gap
  rcases gap with (((rfl | rfl) | rfl) | rfl) | rfl <;> decide

theorem wordLength_le (cs : List Char) : wordLength cs ≤ cs.length := by
  fun_induction wordLength cs with
  | case1 | case3 | case5 => exact Nat.zero_le _
  | case2 c rest _ ih => exact Nat.add_le_add_right ih 2
  | case4 c rest _ _ ih => exact Nat.succ_le_succ ih

theorem wordLength_append_gap (gap : isGap g = true) (cs rest : List Char) :
    wordLength (cs ++ g :: rest) = wordLength cs := by
  obtain ⟨noStart, noLetter, _, noSign⟩ := gap_ends gap
  fun_induction wordLength cs with
  | case1 =>
    rw [List.nil_append, wordLength, noLetter]
    · rfl
    · rintro c rest' rfl
      simp at noSign
  | case2 c more starts ih =>
    rw [List.cons_append, List.cons_append, wordLength, if_pos starts, ih]
  | case3 c more notStart =>
    rw [List.cons_append, List.cons_append, wordLength, if_neg notStart]
  | case4 c more notPart continues ih =>
    have notDot : c ≠ '.' := by
      rintro rfl
      cases continues
    rw [List.cons_append, wordLength, if_pos continues, ih]
    exact fun _ _ isDot => absurd isDot notDot
  | case5 c more notPart notLetter =>
    by_cases isDot : c = '.'
    · subst isDot
      cases more with
      | nil => simp [wordLength, noStart]
      | cons d more => exact absurd rfl (notPart d more rfl)
    · rw [List.cons_append, wordLength, if_neg notLetter]
      exact fun _ _ isDot' => absurd isDot' isDot

theorem runLength_append_stop {p : Char → Bool} (stop : p g = false) (cs rest : List Char) :
    runLength p (cs ++ g :: rest) = runLength p cs := by
  induction cs with
  | nil => simp [runLength, stop]
  | cons c cs ih =>
    unfold runLength at ih ⊢
    rw [List.cons_append, List.takeWhile_cons, List.takeWhile_cons]
    split
    · rw [List.length_cons, List.length_cons, ih]
    · rfl

/-- What comes next in a text is told from some signs even if white space comes after the text. -/
theorem head?_append_gap (gap : isGap g = true) (isSign : d ∈ ['/', '=']) (cs rest : List Char) :
    (cs ++ g :: rest).head? = some d ↔ cs.head? = some d := by
  have noSign := (gap_ends gap).2.2.2
  cases cs with
  | nil =>
    have different : g ≠ d := by
      rintro rfl
      exact noSign (List.mem_cons_of_mem _ (List.mem_cons_of_mem _ isSign))
    simp [different]
  | cons c cs => simp

/-- A lexeme at the start of a text is found again if white space comes after the text. -/
theorem piece?_append_gap (gap : isGap g = true) (found : piece? cs = some (.lexeme t, size))
    (rest : List Char) : piece? (cs ++ g :: rest) = some (.lexeme t, size) := by
  cases cs with
  | nil => cases found
  | cons c cs =>
    obtain ⟨_, _, noDigit, _⟩ := gap_ends gap
    have slash := head?_append_gap gap (by decide : '/' ∈ _) cs rest
    have equals := head?_append_gap gap (by decide : '=' ∈ _) cs rest
    have taken : (c :: (cs ++ g :: rest)).take (wordLength cs + 1) = (c :: cs).take (wordLength cs + 1) := by
      rw [List.take_succ_cons, List.take_succ_cons, List.take_append_of_le_length (wordLength_le cs)]
    rw [List.cons_append]
    simp only [piece?, wordLength_append_gap gap, runLength_append_stop noDigit, taken, slash, equals] at found ⊢
    by_cases starts : startsWord c = true
    · rwa [if_pos starts] at found ⊢
    rw [if_neg starts] at found ⊢
    by_cases quotes : c = '"'
    · rw [if_pos quotes] at found ⊢
      obtain ⟨inner, isInner, same⟩ := Option.map_eq_some_iff.mp found
      obtain ⟨within, tail⟩ := isStringTail_take isInner
      have again := stringLength_append tail (cs.drop inner ++ g :: rest)
      rw [← List.append_assoc, List.take_append_drop, List.length_take_of_le within] at again
      rw [again, ← same]
      rfl
    rw [if_neg quotes] at found ⊢
    by_cases blank : isGap c = true
    · rw [if_pos blank] at found
      cases found
    rw [if_neg blank] at found ⊢
    split at found
    · cases found
    · rwa [if_neg ‹_›]

theorem piece?_of_gap (gap : isGap g = true) (cs : List Char) :
    piece? (g :: cs) = some (.gap, runLength isGap cs + 1) := by
  obtain ⟨noStart, _, _, noSign⟩ := gap_ends gap
  have notQuote : g ≠ '"' := by
    rintro rfl
    exact noSign List.mem_cons_self
  simp [piece?, noStart, notQuote, gap]

/-- White space at the start of a text is skipped one by one. -/
theorem scanFrom_gap_cons (gap : isGap g = true) (place : Place) (cs : List Char) :
    scanFrom place (g :: cs) = scanFrom (place.after g) cs := by
  rw [scanFrom_of_gap (piece?_of_gap gap cs)]
  cases cs with
  | nil => rfl
  | cons c cs =>
    by_cases next : isGap c = true
    · have size : runLength isGap (c :: cs) = runLength isGap cs + 1 := by simp [runLength, next]
      rw [scanFrom_of_gap (piece?_of_gap next cs), size]
      rfl
    · have size : runLength isGap (c :: cs) = 0 := by simp [runLength, next]
      rw [size]
      rfl

theorem scanFrom_gaps (gaps : ∀ c ∈ blank, isGap c = true) (place : Place) (cs : List Char) :
    scanFrom place (blank ++ cs) = scanFrom (place.afterAll blank) cs := by
  induction blank generalizing place with
  | nil => rfl
  | cons c blank ih =>
    obtain ⟨first, others⟩ := List.forall_mem_cons.mp gaps
    rw [List.cons_append, scanFrom_gap_cons first, ih others]
    rfl

/-- What is dropped is all the white space there is, or a comment up to the end of its line. -/
theorem piece?_gap_cases (found : piece? (c :: cs) = some (.gap, size)) :
    isGap c = true ∧ size = runLength isGap cs + 1 ∨
      c = '/' ∧ cs.head? = some '/' ∧ size = runLength (· ≠ '\n') cs + 1 := by
  simp only [piece?] at found
  split at found
  · cases found
  split at found
  · obtain ⟨_, _, same⟩ := Option.map_eq_some_iff.mp found
    cases same
  split at found
  · rename_i blank
    cases found
    exact .inl ⟨blank, rfl⟩
  split at found
  · rename_i comment
    cases found
    obtain ⟨isSlash, second⟩ : c = '/' ∧ cs.head? = some '/' := by simpa using comment
    exact .inr ⟨isSlash, second, rfl⟩
  split at found
  · cases found
  split at found
  · cases found
  split at found
  · cases found
  · obtain ⟨_, _, same⟩ := Option.map_eq_some_iff.mp found
    cases same

/-- A comment ends before the next line feed, even if the text goes on after it. -/
theorem gap_of_piece? (found : piece? cs = some (.gap, size)) :
    (∀ c ∈ cs.take size, isGap c = true) ∨
      ∀ rest, piece? (cs ++ '\n' :: rest) = some (.gap, size) := by
  cases cs with
  | nil => cases found
  | cons c cs =>
    rcases piece?_gap_cases found with ⟨blank, rfl⟩ | ⟨rfl, second, rfl⟩
    · left
      rw [List.take_succ_cons, runLength, ← List.prefix_iff_eq_take.mp (List.takeWhile_prefix _)]
      exact List.forall_mem_cons.mpr ⟨blank, fun d member => List.mem_takeWhile_imp member⟩
    · right
      intro rest
      have slash := head?_append_gap (by decide : isGap '\n' = true) (by decide : '/' ∈ _) cs rest
      have length : runLength (· ≠ '\n') (cs ++ '\n' :: rest) = runLength (· ≠ '\n') cs :=
        runLength_append_stop (by decide) cs rest
      have notWord : startsWord '/' = false ∧ isGap '/' = false := by decide
      simp only [List.cons_append, piece?, notWord, slash, second, length]
      rfl

theorem runLength_le (p : Char → Bool) (cs : List Char) : runLength p cs ≤ cs.length :=
  List.takeWhile_sublist p |>.length_le

/-- A piece is a part of the text. -/
theorem piece?_le (found : piece? cs = some (piece, size)) : size ≤ cs.length := by
  cases cs with
  | nil => cases found
  | cons c rest =>
    simp only [piece?] at found
    split at found
    · cases found
      exact Nat.succ_le_succ (wordLength_le rest)
    split at found
    · obtain ⟨inner, isInner, same⟩ := Option.map_eq_some_iff.mp found
      cases same
      exact Nat.succ_le_succ (isStringTail_take isInner).1
    split at found
    · cases found
      exact Nat.succ_le_succ (runLength_le isGap rest)
    split at found
    · cases found
      exact Nat.succ_le_succ (runLength_le _ rest)
    split at found
    · cases found
      exact Nat.succ_le_succ (runLength_le _ rest)
    split at found
    · rename_i doubled
      cases found
      obtain ⟨_, rest, rfl⟩ : c = '=' ∧ ∃ more, rest = '=' :: more := by
        simpa [List.head?_eq_some_iff] using doubled
      simp
    split at found
    · rename_i doubled
      cases found
      obtain ⟨_, rest, rfl⟩ : c = '!' ∧ ∃ more, rest = '=' :: more := by
        simpa [List.head?_eq_some_iff] using doubled
      simp
    · obtain ⟨_, _, same⟩ := Option.map_eq_some_iff.mp found
      cases same
      exact Nat.succ_le_succ (Nat.zero_le _)

theorem afterAll_append (place : Place) (first second : List Char) :
    place.afterAll (first ++ second) = (place.afterAll first).afterAll second :=
  List.foldl_append

/-- The place after a text can be reached over any part of it. -/
theorem afterAll_take (place : Place) (size : Nat) (cs rest : List Char) :
    (place.afterAll (cs.take size)).afterAll (cs.drop size ++ rest) = place.afterAll (cs ++ rest) := by
  rw [← afterAll_append, ← List.append_assoc, List.take_append_drop]

/-- A text with a line feed after it splits as it does alone, and so does what follows. -/
theorem scanFrom_append (whole : (scanFrom place cs).bad = none) (rest : List Char) :
    scanFrom place (cs ++ '\n' :: rest) =
      ⟨(scanFrom place cs).lexemes ++ (scanFrom (place.afterAll (cs ++ ['\n'])) rest).lexemes,
        (scanFrom (place.afterAll (cs ++ ['\n'])) rest).bad⟩ := by
  have lineFeed : isGap '\n' = true := by decide
  fun_induction scanFrom place cs with
  | case1 place => exact scanFrom_gap_cons lineFeed place rest
  | case2 => cases whole
  | case3 place c cs size taken next scan _ found _ ih =>
    rw [← afterAll_take place size, ← ih whole]
    rcases gap_of_piece? found with blank | comment
    · calc scanFrom place (c :: cs ++ '\n' :: rest)
        _ = scanFrom place (taken ++ ((c :: cs).drop size ++ '\n' :: rest)) := by
          rw [← List.append_assoc, List.take_append_drop]
        _ = scanFrom next ((c :: cs).drop size ++ '\n' :: rest) := scanFrom_gaps blank ..
    · rw [scanFrom_of_gap (comment rest), List.take_append_of_le_length (piece?_le found),
        List.drop_append_of_le_length (piece?_le found)]
  | case4 place c cs size taken next scan t _ found _ ih =>
    rw [scanFrom_of_lexeme (piece?_append_gap lineFeed found rest),
      List.take_append_of_le_length (piece?_le found), List.drop_append_of_le_length (piece?_le found),
      ih whole, ← afterAll_take place size]
    rfl

theorem scanFrom_of_bad (missing : piece? (c :: cs) = none) (place : Place) :
    scanFrom place (c :: cs) = ⟨[], some ⟨c, place⟩⟩ := by
  rw [scanFrom]
  split
  · rfl
  · rename_i found
    rw [missing] at found
    cases found

/-- Where a text starts does not matter for how it splits. -/
theorem scanFrom_anywhere (place place' : Place) (cs : List Char) :
    (scanFrom place cs).lexemes.map token = (scanFrom place' cs).lexemes.map token ∧
      (scanFrom place cs).bad.map BadChar.char = (scanFrom place' cs).bad.map BadChar.char := by
  fun_induction scanFrom place cs generalizing place' with
  | case1 => exact ⟨by rw [scanFrom], by rw [scanFrom]⟩
  | case2 place c cs missing =>
    rw [scanFrom_of_bad missing]
    exact ⟨rfl, rfl⟩
  | case3 place c cs size taken next scan _ found _ ih =>
    rw [scanFrom_of_gap found]
    exact ih _
  | case4 place c cs size taken next scan t _ found _ ih =>
    rw [scanFrom_of_lexeme found]
    exact ⟨congrArg ((t, _) :: ·) (ih _).1, (ih _).2⟩

end TreeWalk.Lexeme
