import TreeWalk.Proofs.LexemePlaces
import Mathlib.Data.List.Induction

/-! Splitting loses nothing and takes the longest.

There is one way to split a text so that white space and comments are dropped, every lexeme is as long as
anything that matches where it begins, a reserved word counts as its keyword, and only a character where
nothing matches ends it all. The scanner finds this way. Its lexemes stand in the order of the text, each of
them on one line, in the columns that it says. -/
namespace TreeWalk

namespace Lexeme

/-- A text that some terminal matches, or that is dropped. -/
def Matched (cs : List Char) : Prop := (∃ t : Terminal, t.Matches cs) ∨ IsDropped cs

/-- How a text that starts at a place splits. -/
inductive Munches : Place → List Char → Scan → Prop where
  | ended : Munches place [] ⟨[], none⟩
  | blank (gap : isGap c = true) (rest : Munches (place.after c) cs result) : Munches place (c :: cs) result
  /-- A comment goes on to the end of its line. -/
  | comment (oneLine : '\n' ∉ words) (toEnd : ∀ c ∈ cs.head?, c = '\n')
      (rest : Munches (place.afterAll ('/' :: '/' :: words)) cs result) :
      Munches place ('/' :: '/' :: words ++ cs) result
  | lexeme (isMatch : t.Matches cs)
      (longest : ∀ taken, taken <+: cs ++ others → Matched taken → taken.length ≤ cs.length)
      (reserved : ∀ keyword, (String.ofList cs, keyword) ∈ Terminal.keywords → t = keyword)
      (rest : Munches (place.afterAll cs) others result) :
      Munches place (cs ++ others)
        ⟨⟨t, String.ofList cs, place, place.afterAll cs⟩ :: result.lexemes, result.bad⟩
  | bad (unmatched : ∀ taken, taken <+: c :: cs → ¬ Matched taken) :
      Munches place (c :: cs) ⟨[], some ⟨c, place⟩⟩

variable {place : Place} {t : Terminal} {c : Char} {cs others taken : List Char} {size : Nat}

/-! What the scanner finds is as long as can be. -/

theorem piece?_of_word (isWord : IsWord cs) (rest : List Char) :
    ∃ t, piece? (cs ++ rest) = some (.lexeme t, cs.length + wordLength rest) := by
  cases cs with
  | nil => exact isWord.elim
  | cons c cs =>
    rw [List.cons_append, piece?, if_pos isWord.1, wordLength_append isWord.2, List.length_cons]
    exact ⟨_, by rw [Nat.add_right_comm]⟩

theorem piece?_of_numeral (isNumeral : IsNumeral cs) (rest : List Char) :
    piece? (cs ++ rest) = some (.lexeme .integer, cs.length + runLength Char.isDigit rest) := by
  obtain ⟨filled, digits⟩ := isNumeral
  cases cs with
  | nil => exact absurd rfl filled
  | cons c cs =>
    obtain ⟨digit, others⟩ := List.forall_mem_cons.mp digits
    obtain ⟨notLetter, notQuote, notGap, notSlash⟩ := startsWord_of_digit digit
    have length : runLength Char.isDigit (cs ++ rest) = cs.length + runLength Char.isDigit rest := by
      rw [runLength, runLength, List.takeWhile_append_of_pos others, List.length_append]
    simp [piece?, notLetter, notQuote, notGap, notSlash, digit, length, Nat.add_right_comm]

theorem piece?_of_comment (cs : List Char) :
    piece? ('/' :: '/' :: cs) = some (.gap, runLength (· ≠ '\n') cs + 2) := by
  have notWord : startsWord '/' = false ∧ isGap '/' = false := by decide
  simp [piece?, notWord, runLength]

/-- A sign is a keyword, or is written with one character, or is one of two comparisons. -/
theorem fixed_cases (fixed : t.Fixed) (notEnd : t ≠ .endOfInput) :
    (t.spelling, t) ∈ Terminal.keywords ∨ t.spelling.toList.length = 1 ∨ t = .equalTo ∨ t = .notEqual := by
  have checked : ∀ t ∈ Terminal.all, t.Fixed → t ≠ .endOfInput → (t.spelling, t) ∈ Terminal.keywords ∨
      t.spelling.toList.length = 1 ∨ t = .equalTo ∨ t = .notEqual := by decide
  exact checked t t.mem_all fixed notEnd

/-- No terminal matches more than what is found. -/
theorem length_le_of_matches {other : Terminal} (isMatch : other.Matches taken) (rest : List Char)
    (found : piece? (taken ++ rest) = some (piece, size)) : taken.length ≤ size := by
  by_cases fixed : other.Fixed ∧ other ≠ .endOfInput
  · rw [(fixed.1.matches_iff fixed.2).mp isMatch] at found ⊢
    rcases fixed_cases fixed.1 fixed.2 with keyword | short | rfl | rfl
    · obtain ⟨_, asWord⟩ := piece?_of_word (isWord_of_keyword keyword) rest
      rw [asWord] at found
      cases found
      exact Nat.le_add_right _ _
    · rw [short]
      exact piece?_pos found
    · cases found
      exact Nat.le_refl 2
    · cases found
      exact Nat.le_refl 2
  cases other with
  | integer =>
    rw [piece?_of_numeral isMatch] at found
    cases found
    exact Nat.le_add_right _ _
  | identifier =>
    obtain ⟨_, asWord⟩ := piece?_of_word isMatch rest
    rw [asWord] at found
    cases found
    exact Nat.le_add_right _ _
  | string =>
    obtain ⟨tail, rfl, isTail⟩ := isMatch
    rw [found_of_string isTail] at found
    cases found
    exact Nat.le_refl _
  | endOfInput => exact isMatch.elim
  | _ => exact absurd (by decide) fixed

/-- Where a lexeme is found nothing is dropped. -/
theorem not_dropped_of_lexeme (found : piece? (taken ++ rest) = some (.lexeme t, size)) :
    ¬ IsDropped taken := by
  rintro (⟨filled, gaps⟩ | ⟨words, rfl, _⟩)
  · cases taken with
    | nil => exact filled rfl
    | cons c taken =>
      rw [List.cons_append, piece?_of_gap (gaps c List.mem_cons_self)] at found
      cases found
  · rw [List.cons_append, List.cons_append, piece?_of_comment] at found
    cases found

theorem Matched.length_le (matched : Matched taken) (part : taken <+: cs)
    (found : piece? cs = some (.lexeme t, size)) : taken.length ≤ size := by
  obtain ⟨rest, rfl⟩ := part
  rcases matched with ⟨other, isMatch⟩ | dropped
  · exact length_le_of_matches isMatch rest found
  · exact absurd dropped (not_dropped_of_lexeme found)

/-! The scanner's way of splitting is the one described. -/

theorem runLength_split (p : Char → Bool) (cs : List Char) :
    cs.take (runLength p cs) = cs.takeWhile p ∧ cs.drop (runLength p cs) = cs.dropWhile p := by
  have taken : cs.take (runLength p cs) = cs.takeWhile p :=
    (List.prefix_iff_eq_take.mp (List.takeWhile_prefix p)).symm
  have whole : cs.takeWhile p ++ cs.drop (runLength p cs) = cs.takeWhile p ++ cs.dropWhile p := by
    rw [List.takeWhile_append_dropWhile, ← taken, List.take_append_drop]
  exact ⟨taken, List.append_cancel_left whole⟩

/-- What is dropped is white space, or a comment with nothing of its line after it. -/
theorem dropped_cases (found : piece? cs = some (.gap, size)) :
    (cs.take size ≠ [] ∧ ∀ c ∈ cs.take size, isGap c = true) ∨
      ∃ words, cs.take size = '/' :: '/' :: words ∧ '\n' ∉ words ∧ ∀ c ∈ (cs.drop size).head?, c = '\n' := by
  cases cs with
  | nil => cases found
  | cons c cs =>
    rcases piece?_gap_cases found with ⟨gap, rfl⟩ | ⟨rfl, second, rfl⟩
    · left
      rw [List.take_succ_cons, (runLength_split isGap cs).1]
      exact ⟨List.cons_ne_nil _ _, List.forall_mem_cons.mpr ⟨gap, fun d => List.mem_takeWhile_imp⟩⟩
    · right
      obtain ⟨cs, rfl⟩ := List.head?_eq_some_iff.mp second
      obtain ⟨run, rest⟩ := runLength_split (· ≠ '\n') cs
      have length : runLength (· ≠ '\n') ('/' :: cs) = runLength (· ≠ '\n') cs + 1 := rfl
      rw [length, List.take_succ_cons, List.take_succ_cons, List.drop_succ_cons, List.drop_succ_cons, run, rest]
      refine ⟨_, rfl, fun member => by simpa using List.mem_takeWhile_imp member, fun d member => ?_⟩
      have stop := List.head?_dropWhile_not (· ≠ '\n') cs
      rw [Option.mem_def.mp member] at stop
      simpa using stop

theorem matched_of_piece? (found : piece? cs = some (piece, size)) : Matched (cs.take size) := by
  cases piece with
  | lexeme t => exact .inl ⟨t, (isLexeme_of_piece? found).matched⟩
  | gap =>
    rcases dropped_cases found with blank | ⟨words, same, oneLine, _⟩
    · exact .inr (.inl blank)
    · exact .inr (.inr ⟨words, same, oneLine⟩)

theorem Munches.blanks (gaps : ∀ c ∈ taken, isGap c = true)
    (rest : Munches (place.afterAll taken) cs result) : Munches place (taken ++ cs) result := by
  induction taken generalizing place with
  | nil => exact rest
  | cons c taken ih =>
    obtain ⟨first, gaps⟩ := List.forall_mem_cons.mp gaps
    exact .blank first (ih gaps rest)

/-- A word that is reserved is found as its keyword. -/
theorem eq_keyword_of_found (found : piece? cs = some (.lexeme t, size))
    (reserved : (String.ofList (cs.take size), keyword) ∈ Terminal.keywords) : t = keyword := by
  have nothing : Ended [] := trivial
  have asKeyword := found_of_keyword reserved nothing
  rw [String.toList_ofList, (isLexeme_of_piece? found).found nothing] at asKeyword
  cases asKeyword
  rfl

theorem scanFrom_munches (place : Place) (cs : List Char) : Munches place cs (scanFrom place cs) := by
  fun_induction scanFrom place cs with
  | case1 => exact .ended
  | case2 place c cs missing =>
    refine .bad fun taken part matched => ?_
    obtain ⟨noTerminal, notDropped⟩ := no_match_of_bad missing part
    obtain ⟨t, isMatch⟩ | dropped := matched
    · exact noTerminal t isMatch
    · exact notDropped dropped
  | case3 place c cs size taken next scan _ found _ ih =>
    rw [← List.take_append_drop size (c :: cs)]
    rcases dropped_cases found with ⟨_, gaps⟩ | ⟨words, same, oneLine, toEnd⟩
    · exact .blanks gaps ih
    · have place' : next = place.afterAll ('/' :: '/' :: words) := congrArg _ same
      rw [same]
      exact .comment oneLine toEnd (place' ▸ ih)
  | case4 place c cs size taken next scan t _ found _ ih =>
    have whole : taken ++ (c :: cs).drop size = c :: cs := List.take_append_drop size _
    have length : taken.length = size := List.length_take_of_le (piece?_le found)
    nth_rewrite 1 [← whole]
    refine .lexeme (isLexeme_of_piece? found).matched ?_ (fun keyword => eq_keyword_of_found found) ih
    intro other part matched
    rw [whole] at part
    exact length ▸ matched.length_le part found

/-! There is no other way. -/

/-- What a terminal matches is a lexeme of this kind, except for a reserved word as a name. -/
theorem isLexeme_of_unreserved (isMatch : t.Matches cs)
    (unreserved : t = .identifier → String.ofList cs ∉ Terminal.keywords.map Prod.fst) : IsLexeme t cs := by
  by_cases fixed : t.Fixed ∧ t ≠ .endOfInput
  · rw [(fixed.1.matches_iff fixed.2).mp isMatch]
    exact .sign fixed.1 fixed.2
  cases t with
  | integer => exact .numeral isMatch
  | string =>
    obtain ⟨tail, rfl, isTail⟩ := isMatch
    exact .string isTail
  | identifier =>
    have isKind : Terminal.identifier = .ofWord (String.ofList cs) := by
      rcases Terminal.ofWord_eq (String.ofList cs) with ⟨isIdentifier, _⟩ | keyword
      · exact isIdentifier.symm
      · exact absurd (List.mem_map_of_mem keyword) (unreserved rfl)
    rw [isKind]
    exact .word isMatch
  | endOfInput => exact isMatch.elim
  | _ => exact absurd (by decide) fixed

theorem isLexeme_of_matches (isMatch : t.Matches cs)
    (reserved : ∀ keyword, (String.ofList cs, keyword) ∈ Terminal.keywords → t = keyword) :
    IsLexeme t cs := by
  refine isLexeme_of_unreserved isMatch fun isName isReserved => ?_
  obtain ⟨⟨word, keyword⟩, member, rfl⟩ := List.mem_map.mp isReserved
  have isKeyword : Terminal.identifier = keyword := isName.symm.trans (reserved keyword member)
  exact absurd (Terminal.keyword_spelling (isKeyword ▸ member)).1 (by decide)

/-- A text that is matched, and that nothing longer can take the place of, is found. -/
theorem piece?_of_longest (isMatch : t.Matches cs)
    (longest : ∀ taken, taken <+: cs ++ others → Matched taken → taken.length ≤ cs.length)
    (reserved : ∀ keyword, (String.ofList cs, keyword) ∈ Terminal.keywords → t = keyword) :
    piece? (cs ++ others) = some (.lexeme t, cs.length) := by
  have nothing : Ended [] := trivial
  have alone := (isLexeme_of_matches isMatch reserved).found nothing
  obtain ⟨c, tail, filled⟩ := List.exists_cons_of_ne_nil isMatch.oneLine.1
  cases found : piece? (cs ++ others) with
  | none =>
    rw [filled, List.cons_append] at found
    have part : cs <+: c :: (tail ++ others) := filled ▸ List.prefix_append ..
    exact absurd isMatch ((no_match_of_bad found part).1 t)
  | some pair =>
    obtain ⟨piece, size⟩ := pair
    have notLess : cs.length ≤ size := length_le_of_matches isMatch others found
    have notMore : size ≤ cs.length := by
      have bound := longest _ (List.take_prefix _ _) (matched_of_piece? found)
      rwa [List.length_take_of_le (piece?_le found)] at bound
    obtain rfl : size = cs.length := Nat.le_antisymm notMore notLess
    -- the same text is found alone, and only one thing is
    cases piece with
    | gap =>
      have matched := dropped_cases found
      rw [List.take_left] at matched
      exact absurd (matched.imp_right fun ⟨words, same, oneLine, _⟩ => ⟨words, same, oneLine⟩)
        (not_dropped_of_lexeme alone)
    | lexeme other =>
      have again := (isLexeme_of_piece? found).found nothing
      rw [List.take_left, alone] at again
      cases again
      rfl

theorem runLength_comment (oneLine : '\n' ∉ words) (toEnd : ∀ c ∈ cs.head?, c = '\n') :
    runLength (· ≠ '\n') (words ++ cs) = words.length := by
  have all : ∀ c ∈ words, decide (c ≠ '\n') = true := fun c member =>
    decide_eq_true fun isLine => oneLine (isLine ▸ member)
  have stop : cs.takeWhile (· ≠ '\n') = [] := by
    cases cs with
    | nil => rfl
    | cons c cs => simp [toEnd c rfl]
  rw [runLength, List.takeWhile_append_of_pos all, stop, List.append_nil]

theorem Munches.eq_scanFrom (munches : Munches place cs result) : result = scanFrom place cs := by
  induction munches with
  | ended => rw [scanFrom]
  | blank gap _ ih => rw [scanFrom_gap_cons gap, ih]
  | @comment words cs place result oneLine toEnd _ ih =>
    have found := piece?_of_comment (words ++ cs)
    rw [runLength_comment oneLine toEnd] at found
    rw [ih, List.cons_append, List.cons_append, scanFrom_of_gap found]
    simp
  | lexeme isMatch longest reserved _ ih =>
    rw [scanFrom_of_lexeme (piece?_of_longest isMatch longest reserved), ih, List.take_left, List.drop_left]
  | @bad c cs place unmatched =>
    cases found : piece? (c :: cs) with
    | none => rw [scanFrom_of_bad found]
    | some pair => exact absurd (matched_of_piece? found) (unmatched _ (List.take_prefix _ _))

end Lexeme

/-! The order of places, and the lines of a text. -/

/-- A place comes before another on an earlier line, or further left on the same line. -/
instance : LE Place where
  le a b := a.line < b.line ∨ a.line = b.line ∧ a.column ≤ b.column

namespace Place

variable {a b d : Place}

theorem le_iff : a ≤ b ↔ a.line < b.line ∨ a.line = b.line ∧ a.column ≤ b.column := Iff.rfl

theorem le_trans (first : a ≤ b) (second : b ≤ d) : a ≤ d := by
  rw [le_iff] at *
  omega

theorem le_after (a : Place) (c : Char) : a ≤ a.after c := by
  unfold after
  split
  · exact .inl (Nat.lt_succ_self _)
  · exact .inr ⟨rfl, Nat.le_succ _⟩

theorem le_afterAll (a : Place) (cs : List Char) : a ≤ a.afterAll cs := by
  induction cs generalizing a with
  | nil => exact .inr ⟨rfl, Nat.le_refl _⟩
  | cons c cs ih => exact le_trans (le_after a c) (ih (a.after c))

end Place

namespace Lexeme

variable {place : Place} {cs : List Char}

/-- Lexemes come one after the other, none of them before the place where the text starts. -/
theorem Munches.ordered (munches : Munches place cs result) :
    (∀ lexeme ∈ result.lexemes, place ≤ lexeme.first) ∧
      result.lexemes.Pairwise (fun one other => one.past ≤ other.first) := by
  induction munches with
  | ended | bad => exact ⟨by simp, .nil⟩
  | blank _ _ ih => exact ⟨fun lexeme member => Place.le_trans (Place.le_after ..) (ih.1 lexeme member), ih.2⟩
  | comment _ _ _ ih =>
    exact ⟨fun lexeme member => Place.le_trans (Place.le_afterAll ..) (ih.1 lexeme member), ih.2⟩
  | lexeme _ _ _ _ ih =>
    refine ⟨List.forall_mem_cons.mpr ⟨Place.le_afterAll _ [], fun lexeme member => ?_⟩, .cons ih.1 ih.2⟩
    exact Place.le_trans (Place.le_afterAll ..) (ih.1 lexeme member)

/-- The lines of a text. -/
def lines (cs : List Char) : List (List Char) := cs.splitOn '\n'

theorem lines_lineFeed (cs : List Char) : lines ('\n' :: cs) = [] :: lines cs := by
  simp [lines, List.splitOn_cons_eq_if_modifyHead]

theorem lines_cons (other : c ≠ '\n') (cs : List Char) : lines (c :: cs) = (lines cs).modifyHead (c :: ·) := by
  simp [lines, List.splitOn_cons_eq_if_modifyHead, other]

theorem lines_append (oneLine : '\n' ∉ taken) (cs : List Char) :
    lines (taken ++ cs) = (lines cs).modifyHead (taken ++ ·) := by
  induction taken with
  | nil => exact (congrFun List.modifyHead_id _).symm
  | cons c taken ih =>
    rw [List.mem_cons, not_or] at oneLine
    rw [List.cons_append, lines_cons (Ne.symm oneLine.1), ih oneLine.2, List.modifyHead_modifyHead]
    rfl

/-- The place after the first part of a text says on which line the rest begins, and how much of this line
comes before it. -/
theorem lines_at (above rest : List Char) :
    ∃ row done, Place.start.afterAll above = ⟨row + 1, done.length + 1⟩ ∧
      (lines (above ++ rest)).drop row = (lines rest).modifyHead (done ++ ·) := by
  induction above using List.reverseRecOn generalizing rest with
  | nil => exact ⟨0, [], rfl, (congrFun List.modifyHead_id _).symm⟩
  | append_singleton above c ih =>
    obtain ⟨row, done, place, split⟩ := ih (c :: rest)
    rw [List.append_assoc, List.singleton_append, afterAll_append, place]
    by_cases isLine : c = '\n'
    · subst isLine
      rw [lines_lineFeed] at split
      refine ⟨row + 1, [], rfl, ?_⟩
      rw [← List.drop_drop, split]
      exact (congrFun List.modifyHead_id _).symm
    · rw [lines_cons isLine, List.modifyHead_modifyHead] at split
      refine ⟨row, done ++ [c], ?_, ?_⟩
      · simp [Place.afterAll, Place.after, isLine]
      · rw [split]
        simp [Function.comp_def]

/-- A lexeme is what stands in its columns on its line. -/
theorem StandsIn.slice (stands : StandsIn source .start lexeme) :
    ∃ row column line, lexeme.first = ⟨row + 1, column + 1⟩ ∧ (lines source)[row]? = some line ∧
      (line.drop column).take lexeme.text.length = lexeme.text.toList := by
  obtain ⟨above, below, rfl, first⟩ := stands.part
  obtain ⟨row, done, place, split⟩ := lines_at above (lexeme.text.toList ++ below)
  obtain ⟨more, others, rest⟩ : ∃ more others, lines below = more :: others :=
    List.exists_cons_of_ne_nil (List.splitOn_ne_nil '\n' below)
  rw [lines_append stands.isLexeme.matched.oneLine.2, rest] at split
  refine ⟨row, done.length, done ++ (lexeme.text.toList ++ more), first.trans place, ?_, ?_⟩
  · rw [← List.head?_drop, List.append_assoc, split]
    rfl
  · rw [List.drop_left, ← String.length_toList, List.take_left]

/-- A lexeme is a keyword exactly if it is a reserved word. -/
theorem IsLexeme.keyword_iff {text : String} (isLexeme : IsLexeme t text.toList) :
    t ∈ Terminal.keywords.map Prod.snd ↔ text ∈ Terminal.keywords.map Prod.fst := by
  have nothing : Ended [] := trivial
  constructor
  · intro isKeyword
    obtain ⟨⟨word, keyword⟩, member, rfl⟩ := List.mem_map.mp isKeyword
    obtain ⟨fixed, notEnd, spelled⟩ := Terminal.keyword_spelling member
    have same : text = word := by
      rw [← String.toList_inj, spelled]
      exact (fixed.matches_iff notEnd).mp isLexeme.matched
    exact List.mem_map.mpr ⟨_, member, same.symm⟩
  · intro reserved
    obtain ⟨⟨word, keyword⟩, member, rfl⟩ := List.mem_map.mp reserved
    have asKeyword := found_of_keyword member nothing
    rw [isLexeme.found nothing] at asKeyword
    cases asKeyword
    exact List.mem_map.mpr ⟨_, member, rfl⟩

/-- The scanner splits every text in the one way described: it takes the longest match everywhere, drops
nothing but white space and comments, and stops only where nothing matches. Its lexemes are in order and do
not overlap. Each is on one line, where its columns say, and is a keyword exactly if it is reserved. -/
theorem munches_iff_scan (source : String) :
    (∀ result, Munches .start source.toList result ↔ result = scan source) ∧
      (scan source).lexemes.Pairwise (fun one other => one.past ≤ other.first) ∧
      ∀ lexeme ∈ (scan source).lexemes,
        lexeme.text ≠ "" ∧ lexeme.past = ⟨lexeme.first.line, lexeme.first.column + lexeme.text.length⟩ ∧
        (∃ row column line, lexeme.first = ⟨row + 1, column + 1⟩ ∧
          (lines source.toList)[row]? = some line ∧
          (line.drop column).take lexeme.text.length = lexeme.text.toList) ∧
        (lexeme.kind ∈ Terminal.keywords.map Prod.snd ↔ lexeme.text ∈ Terminal.keywords.map Prod.fst) := by
  have munches := scanFrom_munches .start source.toList
  refine ⟨fun result => ⟨Munches.eq_scanFrom, fun same => same ▸ munches⟩, munches.ordered.2, ?_⟩
  intro lexeme member
  have stands := scanFrom_standsIn .start source.toList lexeme member
  obtain ⟨filled, oneLine⟩ := stands.isLexeme.matched.oneLine
  refine ⟨?_, ?_, stands.slice, stands.isLexeme.keyword_iff⟩
  · rintro isEmpty
    exact filled (by rw [isEmpty]; rfl)
  · rw [stands.past, afterAll_oneLine oneLine, String.length_toList]

end Lexeme

end TreeWalk
