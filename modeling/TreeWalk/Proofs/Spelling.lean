import TreeWalk.Derivation
import Mathlib.Data.List.TakeWhile

/-! How lexemes are spelled.

Keywords, operators and punctuation have one spelling each. Numerals, words and strings have many, and for
each of these there is a rule that does not refer to how a text is split. What the scanner finds obeys the
rules; and a lexeme that obeys them is found again, as a whole, wherever what follows cannot belong to it. -/
namespace TreeWalk

namespace Terminal

/-- How a terminal is spelled that has only one spelling. -/
def spelling : Terminal → String
  | bang => "!"
  | comma => ","
  | elseWord => "else"
  | equalTo => "=="
  | assign => "="
  | falseWord => "false"
  | forWord => "for"
  | functionWord => "function"
  | greater => ">"
  | ifWord => "if"
  | inWord => "in"
  | leftBrace => "\x7b"
  | leftParen => "("
  | leftBracket => "["
  | less => "<"
  | minus => "-"
  | notEqual => "!="
  | plus => "+"
  | rightBrace => "\x7d"
  | returnWord => "return"
  | rightParen => ")"
  | rightBracket => "]"
  | semicolon => ";"
  | slash => "/"
  | star => "*"
  | trueWord => "true"
  | varWord => "var"
  | endOfInput | identifier | integer | string => ""

end Terminal

namespace Lexeme

/-- What may follow the first character of a word: letters, digits and underscores, and dots that a new
part follows. -/
inductive IsWordTail : List Char → Prop where
  | nil : IsWordTail []
  | letter (continues : continuesWord c = true) (rest : IsWordTail cs) : IsWordTail (c :: cs)
  | part (starts : startsWord c = true) (rest : IsWordTail cs) : IsWordTail ('.' :: c :: cs)

/-- A word: parts with dots between them, none of which starts with a digit. -/
def IsWord : List Char → Prop
  | [] => False
  | c :: cs => startsWord c = true ∧ IsWordTail cs

/-- A numeral: digits, at least one. -/
def IsNumeral (cs : List Char) : Prop := cs ≠ [] ∧ ∀ c ∈ cs, c.isDigit = true

/-- What may follow the opening quote of a string: characters and escapes, none of them a line feed, and
the closing quote. -/
inductive IsStringTail : List Char → Prop where
  | close : IsStringTail ['"']
  | escape (sameLine : c ≠ '\n') (rest : IsStringTail cs) : IsStringTail ('\\' :: c :: cs)
  | plain (ordinary : c ∉ ['"', '\\', '\n']) (rest : IsStringTail cs) : IsStringTail (c :: cs)

end Lexeme

/-- The texts that a leaf of a kind can have in a parsed tree. The text of a string is what it denotes. -/
def Terminal.Spells : Terminal → String → Prop
  | .integer, text => Lexeme.IsNumeral text.toList
  | .string, _ => True
  | .identifier, text => Lexeme.IsWord text.toList ∧ text ∉ keywords.map Prod.fst
  | kind, text => text = kind.spelling

namespace Lexeme

theorem isWordTail_take (cs : List Char) : IsWordTail (cs.take (wordLength cs)) := by
  fun_induction wordLength cs with
  | case1 => exact .nil
  | case2 c rest starts ih => exact .part starts ih
  | case3 => exact .nil
  | case4 c rest _ continues ih => exact .letter continues ih
  | case5 => exact .nil

/-- A word goes on as long as what follows goes on. -/
theorem wordLength_append (tail : IsWordTail cs) (rest : List Char) :
    wordLength (cs ++ rest) = cs.length + wordLength rest := by
  induction tail with
  | nil => simp
  | @letter c cs continues _ ih =>
    have notDot : c ≠ '.' := by
      rintro rfl
      cases continues
    rw [List.cons_append, wordLength, if_pos continues, ih, List.length_cons]
    · omega
    · rintro c' rest' rfl
      exact fun _ => notDot rfl
  | part starts _ ih =>
    rw [List.cons_append, List.cons_append, wordLength, if_pos starts, ih, List.length_cons, List.length_cons]
    omega

/-- A string is over at its closing quote, whatever comes after it. -/
theorem stringLength_append (tail : IsStringTail cs) (rest : List Char) :
    stringLength (cs ++ rest) = some cs.length := by
  induction tail with
  | close => rfl
  | escape sameLine _ ih => simp [stringLength, sameLine, ih]
  | @plain c cs ordinary _ ih =>
    simp only [List.mem_cons, List.not_mem_nil, or_false, not_or] at ordinary
    rw [List.cons_append, stringLength]
    · simp [ih]
    · exact fun isQuote => ordinary.1 isQuote
    · exact fun isLine => ordinary.2.2 isLine
    · exact fun _ _ isBackslash => absurd isBackslash ordinary.2.1
    · exact fun isBackslash => absurd isBackslash ordinary.2.1

theorem isStringTail_take (found : stringLength cs = some size) :
    size ≤ cs.length ∧ IsStringTail (cs.take size) := by
  fun_induction stringLength cs generalizing size with
  | case1 | case3 | case4 | case6 => cases found
  | case2 =>
    cases found
    exact ⟨Nat.succ_le_succ (Nat.zero_le _), .close⟩
  | case5 c rest sameLine ih =>
    obtain ⟨inner, isInner, rfl⟩ := Option.map_eq_some_iff.mp found
    obtain ⟨within, tail⟩ := ih isInner
    exact ⟨Nat.add_le_add_right within 2, .escape sameLine tail⟩
  | case7 c rest notQuote notLine notEscape notLast ih =>
    obtain ⟨inner, isInner, rfl⟩ := Option.map_eq_some_iff.mp found
    obtain ⟨within, tail⟩ := ih isInner
    have notBackslash : c ≠ '\\' := by
      rintro rfl
      cases rest with
      | nil => exact notLast rfl rfl
      | cons d rest => exact notEscape d rest rfl rfl
    have ordinary : c ∉ ['"', '\\', '\n'] := by
      simpa [notBackslash] using ⟨fun isQuote => notQuote isQuote, fun isLine => notLine isLine⟩
    exact ⟨Nat.succ_le_succ within, .plain ordinary tail⟩

end Lexeme

/-- A word is a keyword, or else an identifier. -/
theorem Terminal.ofWord_eq (word : String) :
    ofWord word = .identifier ∧ word ∉ keywords.map Prod.fst ∨ (word, ofWord word) ∈ keywords := by
  unfold ofWord
  cases found : keywords.lookup word with
  | none =>
    refine .inl ⟨rfl, fun member => ?_⟩
    obtain ⟨⟨other, kind⟩, inKeywords, rfl⟩ := List.mem_map.mp member
    simpa using List.lookup_eq_none_iff.mp found _ inKeywords
  | some kind =>
    obtain ⟨before, after, split, _⟩ := List.lookup_eq_some_iff.mp found
    exact .inr (by simp [split])

/-- A terminal with one spelling. -/
def Terminal.Fixed (t : Terminal) : Prop := t ∉ [Terminal.integer, .string, .identifier]

instance (t : Terminal) : Decidable t.Fixed := inferInstanceAs (Decidable (t ∉ _))

theorem Terminal.Fixed.spells_iff {t : Terminal} (fixed : t.Fixed) : t.Spells text ↔ text = t.spelling := by
  cases t with
  | integer | string | identifier => exact absurd fixed (by decide)
  | _ => exact Iff.rfl

theorem Terminal.keyword_spelling (keyword : (word, t) ∈ keywords) :
    t.Fixed ∧ t ≠ .endOfInput ∧ word = t.spelling := by
  have spelled : ∀ entry ∈ keywords,
      entry.2.Fixed ∧ entry.2 ≠ .endOfInput ∧ entry.1 = entry.2.spelling := by decide
  exact spelled _ keyword

theorem Terminal.ofChar?_spelling (found : ofChar? c = some t) :
    t.Fixed ∧ t ≠ .endOfInput ∧ [c] = t.spelling.toList := by
  unfold ofChar? at found
  split at found <;> cases found <;> exact ⟨by decide, by decide, rfl⟩

namespace Lexeme

variable {here next : Place}

theorem leafText_of_ne (notString : t ≠ .string) : leafText ⟨t, word, here, next⟩ = word :=
  if_neg notString

theorem spells_of_fixed {t : Terminal} (fixed : t.Fixed) (spelled : word = t.spelling) :
    t.Spells (leafText ⟨t, word, here, next⟩) := by
  rw [leafText_of_ne fun isString => absurd fixed (by rw [isString]; decide)]
  exact fixed.spells_iff.mpr spelled

/-- A word is a keyword with its spelling or an identifier. -/
theorem spells_of_word {word : String} (isWord : IsWord word.toList) :
    (Terminal.ofWord word).Spells (leafText ⟨.ofWord word, word, here, next⟩) := by
  rcases Terminal.ofWord_eq word with ⟨isIdentifier, notKeyword⟩ | keyword
  · rw [isIdentifier, leafText_of_ne (by decide)]
    exact ⟨isWord, notKeyword⟩
  · obtain ⟨fixed, _, spelled⟩ := Terminal.keyword_spelling keyword
    exact spells_of_fixed fixed spelled

theorem isNumeral_take (digit : c.isDigit = true) (rest : List Char) :
    IsNumeral ((c :: rest).take (runLength Char.isDigit rest + 1)) := by
  rw [List.take_succ_cons, runLength, ← List.prefix_iff_eq_take.mp (List.takeWhile_prefix _)]
  refine ⟨List.cons_ne_nil _ _, List.forall_mem_cons.mpr ⟨digit, fun d member => ?_⟩⟩
  exact List.mem_takeWhile_imp member

/-- The texts that are lexemes of a kind. -/
inductive IsLexeme : Terminal → List Char → Prop where
  | word (isWord : IsWord cs) : IsLexeme (.ofWord (String.ofList cs)) cs
  | string (tail : IsStringTail cs) : IsLexeme .string ('"' :: cs)
  | numeral (isNumeral : IsNumeral cs) : IsLexeme .integer cs
  | sign {t : Terminal} (fixed : t.Fixed) (notEnd : t ≠ .endOfInput) : IsLexeme t t.spelling.toList

/-- What the scanner finds is a lexeme of its kind. -/
theorem isLexeme_of_piece? (found : piece? cs = some (.lexeme t, size)) : IsLexeme t (cs.take size) := by
  cases cs with
  | nil => cases found
  | cons c rest =>
    simp only [piece?] at found
    split at found
    · rename_i starts
      cases found
      exact .word ⟨starts, isWordTail_take rest⟩
    split at found
    · rename_i quotes
      obtain ⟨inner, isInner, same⟩ := Option.map_eq_some_iff.mp found
      cases same
      rw [List.take_succ_cons, quotes]
      exact .string (isStringTail_take isInner).2
    split at found
    · cases found
    split at found
    · cases found
    split at found
    · rename_i digit
      cases found
      exact .numeral (isNumeral_take digit rest)
    split at found
    · rename_i doubled
      cases found
      obtain ⟨rfl, rest, rfl⟩ : c = '=' ∧ ∃ more, rest = '=' :: more := by
        simpa [List.head?_eq_some_iff] using doubled
      exact .sign (by decide) (by decide)
    split at found
    · rename_i doubled
      cases found
      obtain ⟨rfl, rest, rfl⟩ : c = '!' ∧ ∃ more, rest = '=' :: more := by
        simpa [List.head?_eq_some_iff] using doubled
      exact .sign (by decide) (by decide)
    · obtain ⟨kind, isKind, same⟩ := Option.map_eq_some_iff.mp found
      cases same
      obtain ⟨fixed, notEnd, spelled⟩ := Terminal.ofChar?_spelling isKind
      rw [List.take_succ_cons, List.take_zero, spelled]
      exact .sign fixed notEnd

/-- A lexeme is spelled as its kind asks for. -/
theorem IsLexeme.spells (isLexeme : IsLexeme t cs) :
    t.Spells (leafText ⟨t, String.ofList cs, here, next⟩) := by
  cases isLexeme with
  | word isWord => exact spells_of_word (by rwa [String.toList_ofList])
  | string => trivial
  | numeral isNumeral =>
    rw [leafText_of_ne (by decide)]
    simpa [Terminal.Spells] using isNumeral
  | sign fixed => exact spells_of_fixed fixed String.ofList_toList

/-- A letter or an underscore is a name by itself. -/
theorem spells_letter (starts : startsWord c = true) : Terminal.Spells .identifier (String.ofList [c]) := by
  have longer : ∀ word ∈ Terminal.keywords.map Prod.fst, 2 ≤ word.toList.length := by decide
  refine ⟨by simpa [IsWord] using ⟨starts, .nil⟩, fun keyword => ?_⟩
  have tooShort := longer _ keyword
  simp at tooShort

/-- All lexemes of a text are spelled as their kinds ask for. -/
theorem scan_spells (source : String) :
    ∀ lexeme ∈ (scan source).lexemes, lexeme.kind.Spells lexeme.leafText := by
  suffices ∀ place cs, ∀ lexeme ∈ (scanFrom place cs).lexemes, lexeme.kind.Spells lexeme.leafText from
    this _ _
  intro place cs
  fun_induction scanFrom place cs with
  | case1 => simp
  | case2 => simp
  | case3 place c rest size taken next scan _ _ _ ih => exact ih
  | case4 place c rest size taken next scan t _ found _ ih =>
    exact List.forall_mem_cons.mpr ⟨(isLexeme_of_piece? found).spells, ih⟩

/-- Nothing at the start of a text can belong to a lexeme before it. -/
def Ended : List Char → Prop
  | [] => True
  | c :: _ => continuesWord c = false ∧ c ∉ ['.', '/', '=']

theorem ended_space (rest : List Char) : Ended (' ' :: rest) := by
  refine ⟨by decide, by decide⟩

theorem Ended.head (ended : Ended rest) : rest.head? ≠ some '=' ∧ rest.head? ≠ some '/' := by
  cases rest with
  | nil => simp
  | cons c rest =>
    have noSign := ended.2
    simp only [List.mem_cons, List.not_mem_nil, or_false, not_or] at noSign
    simp [noSign]

theorem isWordTail_of_all (continues : ∀ c ∈ cs, continuesWord c = true) : IsWordTail cs := by
  induction cs with
  | nil => exact .nil
  | cons c cs ih =>
    obtain ⟨first, rest⟩ := List.forall_mem_cons.mp continues
    exact .letter first (ih rest)

theorem found_of_word (isWord : IsWord cs) (ended : Ended rest) :
    piece? (cs ++ rest) = some (.lexeme (.ofWord (String.ofList cs)), cs.length) := by
  have noMore : wordLength rest = 0 := by
    cases rest with
    | nil => rfl
    | cons c rest =>
      have notDot : c ≠ '.' := by
        rintro rfl
        exact ended.2 List.mem_cons_self
      rw [wordLength, if_neg (by simp [ended.1])]
      exact fun _ _ isDot => absurd isDot notDot
  cases cs with
  | nil => exact isWord.elim
  | cons c cs =>
    obtain ⟨starts, tail⟩ := isWord
    have size : wordLength (cs ++ rest) = cs.length := by
      rw [wordLength_append tail, noMore, Nat.add_zero]
    simp [piece?, starts, size]

theorem isWord_of_keyword (keyword : (word, t) ∈ Terminal.keywords) : IsWord word.toList := by
  have letters : ∀ entry ∈ Terminal.keywords, entry.1.toList.head?.any startsWord = true ∧
      entry.1.toList.tail.all continuesWord = true := by decide
  obtain ⟨starts, continues⟩ := letters _ keyword
  dsimp only at starts continues
  generalize word.toList = cs at starts continues
  cases cs with
  | nil => cases starts
  | cons c cs => exact ⟨starts, isWordTail_of_all (List.all_eq_true.mp continues)⟩

theorem found_of_keyword (keyword : (word, t) ∈ Terminal.keywords) (ended : Ended rest) :
    piece? (word.toList ++ rest) = some (.lexeme t, word.toList.length) := by
  have kinds : ∀ entry ∈ Terminal.keywords, Terminal.ofWord entry.1 = entry.2 := by decide
  have found := found_of_word (isWord_of_keyword keyword) ended
  rwa [String.ofList_toList, kinds _ keyword] at found

/-- A digit is none of the characters that are looked for before it. -/
theorem startsWord_of_digit {c : Char} (digit : c.isDigit = true) :
    startsWord c = false ∧ c ≠ '"' ∧ isGap c = false ∧ c ≠ '/' := by
  simp only [Char.isDigit, Bool.and_eq_true, decide_eq_true_eq] at digit
  have other : ∀ d : Char, d.val < 48 ∨ 57 < d.val → c ≠ d := by
    rintro d outside rfl
    grind
  refine ⟨?_, other _ (by decide), ?_, other _ (by decide)⟩
  · have notLetter : c.isAlpha = false := by
      change (decide (65 ≤ c.val ∧ c.val ≤ 90) || (97 ≤ c.val && c.val ≤ 122)) = false
      grind
    simp [startsWord, notLetter, other '_' (by decide)]
  · simp [isGap, other ' ' (by decide), other '\t' (by decide), other '\x0c' (by decide),
      other '\r' (by decide), other '\n' (by decide)]

theorem continuesWord_of_digit {c : Char} (digit : c.isDigit = true) : continuesWord c = true := by
  simp [continuesWord, Char.isAlphanum, digit]

theorem found_of_numeral (isNumeral : IsNumeral cs) (ended : Ended rest) :
    piece? (cs ++ rest) = some (.lexeme .integer, cs.length) := by
  have noMore : rest.takeWhile Char.isDigit = [] := by
    cases rest with
    | nil => rfl
    | cons c rest =>
      have notDigit : ¬ c.isDigit = true := by
        intro digit
        rw [Ended, continuesWord_of_digit digit] at ended
        cases ended.1
      rw [List.takeWhile_cons_of_neg notDigit]
  obtain ⟨filled, digits⟩ := isNumeral
  cases cs with
  | nil => exact absurd rfl filled
  | cons c cs =>
    obtain ⟨digit, others⟩ := List.forall_mem_cons.mp digits
    obtain ⟨notLetter, notQuote, notGap, notSlash⟩ := startsWord_of_digit digit
    have size : runLength Char.isDigit (cs ++ rest) = cs.length := by
      rw [runLength, List.takeWhile_append_of_pos others, noMore, List.append_nil]
    simp [piece?, notLetter, notQuote, notGap, notSlash, digit, size]

/-- A string is found whatever comes after it. -/
theorem found_of_string (tail : IsStringTail cs) (rest : List Char) :
    piece? ('"' :: cs ++ rest) = some (.lexeme .string, cs.length + 1) := by
  have size := stringLength_append tail rest
  have notWord : startsWord '"' = false := by decide
  simp [piece?, notWord, size]

theorem found_of_fixed {t : Terminal} (fixed : t.Fixed) (notEnd : t ≠ .endOfInput) (ended : Ended rest) :
    piece? (t.spelling.toList ++ rest) = some (.lexeme t, t.spelling.toList.length) := by
  cases t with
  | endOfInput => exact absurd rfl notEnd
  | integer | string | identifier => exact absurd fixed (by decide)
  | elseWord | falseWord | forWord | functionWord | ifWord | inWord | returnWord | trueWord | varWord =>
    exact found_of_keyword (by decide) ended
  | assign | bang | slash =>
    obtain ⟨notEquals, notSlash⟩ := ended.head
    simp [Terminal.spelling, piece?, startsWord, isGap, Terminal.ofChar?, notEquals, notSlash]
  | _ => rfl

/-- A lexeme is found again wherever it ends. -/
theorem IsLexeme.found (isLexeme : IsLexeme t cs) (ended : Ended rest) :
    piece? (cs ++ rest) = some (.lexeme t, cs.length) := by
  cases isLexeme with
  | word isWord => exact found_of_word isWord ended
  | string tail => exact found_of_string tail rest
  | numeral isNumeral => exact found_of_numeral isNumeral ended
  | sign fixed notEnd => exact found_of_fixed fixed notEnd ended

/-- A text is found as a lexeme of a kind wherever a space follows it. -/
def Stands (t : Terminal) (word : String) : Prop :=
  ∀ rest, piece? (word.toList ++ ' ' :: rest) = some (.lexeme t, word.toList.length)

theorem stands_of_lexeme {word : String} (isLexeme : IsLexeme t word.toList) : Stands t word :=
  fun rest => isLexeme.found (ended_space rest)

theorem stands_of_identifier {word : String} (spells : Terminal.Spells .identifier word) :
    Stands .identifier word := by
  have stands := stands_of_lexeme (.word spells.1)
  rw [String.ofList_toList] at stands
  rcases Terminal.ofWord_eq word with ⟨isIdentifier, _⟩ | keyword
  · rwa [isIdentifier] at stands
  · exact absurd (List.mem_map_of_mem keyword) spells.2

theorem stands_of_numeral {word : String} (isNumeral : IsNumeral word.toList) : Stands .integer word :=
  stands_of_lexeme (.numeral isNumeral)

theorem stands_of_fixed {t : Terminal} (fixed : t.Fixed) (notEnd : t ≠ .endOfInput) : Stands t t.spelling :=
  stands_of_lexeme (.sign fixed notEnd)

/-- How a character is written in a string. -/
def escapeChar : Char → List Char
  | '\n' => ['\\', 'n']
  | '\t' => ['\\', 't']
  | '"' => ['\\', '"']
  | '\\' => ['\\', '\\']
  | c => [c]

/-- A text as it is written in a string. -/
def escape (cs : List Char) : List Char := cs.flatMap escapeChar

/-- The literal that denotes a text. -/
def quote (value : String) : String := String.ofList ('"' :: escape value.toList ++ ['"'])

/-- A character is written as itself or, with a backslash before it, as what stands for it. -/
theorem escapeChar_eq (c : Char) :
    (∃ d, escapeChar c = ['\\', d] ∧ d ≠ '\n' ∧ escaped d = c) ∨
      escapeChar c = [c] ∧ c ≠ '\\' ∧ c ≠ '"' ∧ c ≠ '\n' := by
  unfold escapeChar
  split
  · exact .inl ⟨'n', rfl, by decide, rfl⟩
  · exact .inl ⟨'t', rfl, by decide, rfl⟩
  · exact .inl ⟨'"', rfl, by decide, rfl⟩
  · exact .inl ⟨'\\', rfl, by decide, rfl⟩
  · rename_i notLine _ notQuote notBackslash
    exact .inr ⟨rfl, notBackslash, notQuote, notLine⟩

theorem escape_cons (c : Char) (cs : List Char) : escape (c :: cs) = escapeChar c ++ escape cs :=
  List.flatMap_cons

theorem unescape_escape (cs : List Char) : unescape (escape cs) = cs := by
  induction cs with
  | nil => rfl
  | cons c cs ih =>
    rw [escape_cons]
    rcases escapeChar_eq c with ⟨d, written, _, rfl⟩ | ⟨written, notBackslash, _, _⟩
    · rw [written]
      simp [unescape, ih]
    · rw [written]
      simp [unescape, ih, notBackslash]

/-- A string that is written for a text denotes it. -/
theorem stringValue_quote (value : String) : stringValue (quote value) = value := by
  have inner : unquote (quote value).toList = escape value.toList := by
    simp [quote, unquote]
  rw [stringValue, inner, unescape_escape, String.ofList_toList]

theorem isStringTail_escape (cs : List Char) : IsStringTail (escape cs ++ ['"']) := by
  induction cs with
  | nil => exact .close
  | cons c cs ih =>
    rw [escape_cons, List.append_assoc]
    rcases escapeChar_eq c with ⟨d, written, notLine, _⟩ | ⟨written, notBackslash, notQuote, notLine⟩
    · rw [written]
      exact .escape notLine ih
    · rw [written]
      exact .plain (by simp [notBackslash, notQuote, notLine]) ih

theorem stands_of_quote (value : String) : Stands .string (quote value) := by
  refine stands_of_lexeme ?_
  rw [quote, String.toList_ofList]
  exact .string (isStringTail_escape value.toList)

/-- Kind and spelling of a lexeme, wherever it stands. -/
def token (lexeme : Lexeme) : Terminal × String := (lexeme.kind, lexeme.text)

/-- Lexemes as a text, with a space after each. -/
def spaced (tokens : List (Terminal × String)) : List Char :=
  tokens.flatMap fun token => token.2.toList ++ [' ']

theorem scanFrom_of_lexeme (found : piece? cs = some (.lexeme t, size)) (place : Place) :
    let next := place.afterAll (cs.take size)
    scanFrom place cs =
      ⟨⟨t, String.ofList (cs.take size), place, next⟩ :: (scanFrom next (cs.drop size)).lexemes,
        (scanFrom next (cs.drop size)).bad⟩ := by
  intro next
  cases cs with
  | nil => cases found
  | cons c rest =>
    rw [scanFrom]
    split
    · rename_i missing
      rw [found] at missing
      cases missing
    · rename_i piece size' again
      rw [found] at again
      cases again
      rfl

theorem scanFrom_of_gap (found : piece? cs = some (.gap, size)) (place : Place) :
    scanFrom place cs = scanFrom (place.afterAll (cs.take size)) (cs.drop size) := by
  cases cs with
  | nil => cases found
  | cons c rest =>
    rw [scanFrom]
    split
    · rename_i missing
      rw [found] at missing
      cases missing
    · rename_i piece size' again
      rw [found] at again
      cases again
      rfl

/-- No lexeme begins with white space. -/
theorem not_gap_of_lexeme (found : piece? (c :: cs) = some (.lexeme t, size)) : isGap c = false := by
  by_contra gap
  simp only [Bool.not_eq_false] at gap
  have notWord : startsWord c = false ∧ c ≠ '"' := by
    simp only [isGap, Bool.or_eq_true, decide_eq_true_eq] at gap
    rcases gap with (((rfl | rfl) | rfl) | rfl) | rfl <;> decide
  simp [piece?, notWord, gap] at found

theorem spaced_cons (t : Terminal) (word : String) (tokens : List (Terminal × String)) :
    spaced ((t, word) :: tokens) = word.toList ++ ' ' :: spaced tokens := by
  simp [spaced]

/-- The white space after a lexeme is the one space that is written there. -/
theorem runLength_spaced (stand : ∀ token ∈ tokens, Stands token.1 token.2) :
    runLength isGap (spaced tokens) = 0 := by
  cases tokens with
  | nil => rfl
  | cons head tokens =>
    obtain ⟨t, word⟩ := head
    have found := stand _ List.mem_cons_self (spaced tokens)
    rw [← spaced_cons] at found
    generalize spaced ((t, word) :: tokens) = cs at found
    cases cs with
    | nil => rfl
    | cons c cs => simp [runLength, not_gap_of_lexeme found]

/-- Lexemes that are written with spaces after them are found again. -/
theorem scanFrom_spaced (stand : ∀ token ∈ tokens, Stands token.1 token.2) (place : Place) :
    ∃ lexemes, scanFrom place (spaced tokens) = ⟨lexemes, none⟩ ∧ lexemes.map token = tokens := by
  induction tokens generalizing place with
  | nil => exact ⟨[], by rw [spaced, List.flatMap_nil, scanFrom], rfl⟩
  | cons head tokens ih =>
    obtain ⟨t, word⟩ := head
    obtain ⟨stands, others⟩ := List.forall_mem_cons.mp stand
    have scanned := scanFrom_of_lexeme (stands (spaced tokens)) place
    rw [List.take_left, List.drop_left] at scanned
    have gap : piece? (' ' :: spaced tokens) = some (.gap, 1) := by
      have notWord : startsWord ' ' = false := by decide
      have isSpace : isGap ' ' = true := by decide
      simp [piece?, notWord, isSpace, runLength_spaced others]
    have skipped := scanFrom_of_gap gap (place.afterAll word.toList)
    obtain ⟨lexemes, found, same⟩ := ih others ((place.afterAll word.toList).after ' ')
    refine ⟨⟨t, word, place, place.afterAll word.toList⟩ :: lexemes, ?_, by rw [List.map_cons, same]; rfl⟩
    have skippedOne : scanFrom (place.afterAll word.toList) (' ' :: spaced tokens) = ⟨lexemes, none⟩ :=
      skipped.trans found
    rw [spaced_cons, scanned, skippedOne, String.ofList_toList]

end Lexeme

end TreeWalk
