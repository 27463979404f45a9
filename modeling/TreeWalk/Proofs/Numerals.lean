import TreeWalk.Proofs.Spelling
import TreeWalk.Text.Decimal
import Mathlib.Tactic.Ring

/-! Numerals and the numbers they denote.

A numeral in plain form stands between blanks and may have a sign. It denotes what its digits come to by their
places. Long numerals are read and written by blocks, and short ones are read in the grouped form first, whose
blanks are fewer; these are ways to work only. Whatever the length, a numeral in plain form is read as what it
denotes, and the digits written for a number are those of its shortest numeral. -/
namespace TreeWalk.Decimal

open TreeWalk.Text Lexeme

/-! Digits. -/

/-- The value of a digit from `0` to `9`. -/
def digitValue (c : Char) : Nat := c.toNat - '0'.toNat

theorem toNat_of_digit {c : Char} (digit : c.isDigit = true) : 48 ≤ c.toNat ∧ c.toNat ≤ 57 := by
  simpa [Char.isDigit, UInt32.le_iff_toNat_le] using digit

theorem digitValue_lt {c : Char} (digit : c.isDigit = true) : digitValue c < 10 := by
  have range := toNat_of_digit digit
  have isValue : digitValue c = c.toNat - 48 := rfl
  omega

theorem isBlank_of_digit {c : Char} (digit : c.isDigit = true) : isBlank c = false := by
  have range := toNat_of_digit digit
  simp only [isBlank, Bool.or_eq_false_iff, Bool.and_eq_false_iff, beq_eq_false_iff_ne,
    decide_eq_false_iff_not]
  omega

theorem asciiDigit?_of_digit {c : Char} (digit : c.isDigit = true) : asciiDigit? c = some (digitValue c) := by
  have range : '0' ≤ c ∧ c ≤ '9' := by
    simpa [Char.isDigit, Char.le_def] using digit
  exact if_pos range

/-- The digits from `0` to `9` are those of the first script. -/
theorem digit?_of_digit {c : Char} (digit : c.isDigit = true) : digit? c = some (digitValue c) := by
  have range := toNat_of_digit digit
  have first : (decide (48 ≤ c.toNat) && decide (c.toNat < 48 + 10)) = true := by
    simp only [Bool.and_eq_true, decide_eq_true_eq]
    omega
  have found : zeros.find? (fun first => first ≤ c.toNat && c.toNat < first + 10) = some 48 :=
    List.find?_cons_of_pos first
  rw [digit?, found]
  rfl

/-- No script has a digit below the first one. -/
theorem digit?_of_lt {c : Char} (low : c.toNat < 48) : digit? c = none := by
  have above : ∀ first ∈ zeros, 48 ≤ first := by decide
  have missing : zeros.find? (fun first => first ≤ c.toNat && c.toNat < first + 10) = none := by
    refine List.find?_eq_none.mpr fun first member => ?_
    have := above first member
    simp only [Bool.and_eq_true, decide_eq_true_eq]
    omega
  rw [digit?, missing]
  rfl

theorem mapM_asciiDigit? {cs : List Char} (allDigits : ∀ c ∈ cs, c.isDigit = true) :
    cs.mapM asciiDigit? = some (cs.map digitValue) := by
  induction cs with
  | nil => rfl
  | cons c cs ih =>
    obtain ⟨digit, others⟩ := List.forall_mem_cons.mp allDigits
    simp [List.mapM_cons, asciiDigit?_of_digit digit, ih others]

theorem groupedDigits_of_isNumeral (isNumeral : IsNumeral cs) : groupedDigits cs = some (cs.map digitValue) := by
  obtain ⟨filled, allDigits⟩ := isNumeral
  fun_induction groupedDigits cs with
  | case1 => exact absurd rfl filled
  | case2 c => simp [digit?_of_digit (allDigits c List.mem_cons_self)]
  | case3 c rest ih =>
    have underscore := allDigits '_' (List.mem_cons_of_mem _ List.mem_cons_self)
    cases underscore
  | case4 c rest notLast _ ih =>
    obtain ⟨digit, others⟩ := List.forall_mem_cons.mp allDigits
    simp [digit?_of_digit digit, ih notLast others]

/-- The grouped form has digits and underscores only. -/
theorem mem_of_groupedDigits (read : groupedDigits cs = some values) (member : c ∈ cs) :
    c = '_' ∨ (digit? c).isSome := by
  fun_induction groupedDigits cs generalizing values with
  | case1 => cases member
  | case2 d =>
    obtain ⟨value, isValue, _⟩ := Option.map_eq_some_iff.mp read
    rw [List.mem_singleton.mp member, isValue]
    exact .inr rfl
  | case3 d rest ih =>
    simp only [Option.pure_def, Option.bind_eq_bind, Option.bind_eq_some_iff] at read
    obtain ⟨value, isValue, others, readRest, _⟩ := read
    simp only [List.mem_cons] at member
    rcases member with rfl | rfl | inRest
    · exact .inr (by rw [isValue]; rfl)
    · exact .inl rfl
    · exact ih readRest inRest
  | case4 d rest notLast _ ih =>
    simp only [Option.pure_def, Option.bind_eq_bind, Option.bind_eq_some_iff] at read
    obtain ⟨value, isValue, others, readRest, _⟩ := read
    rcases List.mem_cons.mp member with rfl | inRest
    · exact .inr (by rw [isValue]; rfl)
    · exact ih readRest inRest

/-! What digits come to. -/

/-- What digits come to by their places: each one is worth ten times as much as it would be one place further. -/
def placeValue : List Char → Nat
  | [] => 0
  | c :: run => digitValue c * 10 ^ run.length + placeValue run

/-- Digits that follow a number move it to the left. -/
theorem foldl_eq (n : Nat) (values : List Nat) :
    values.foldl (fun n digit => 10 * n + digit) n = n * tenTo values.length + ofDigits values := by
  induction values generalizing n with
  | nil => simp [tenTo, ofDigits]
  | cons value values ih =>
    have alone : ofDigits (value :: values) = value * tenTo values.length + ofDigits values := by
      rw [ofDigits, List.foldl_cons, ih]
      simp
    rw [List.foldl_cons, ih, alone, List.length_cons]
    simp only [tenTo, Nat.pow_eq, pow_succ]
    ring

/-- Reading by blocks comes to the same as reading digit by digit. -/
theorem extendByBlocks_eq (n : Nat) (values : List Nat) :
    extendByBlocks n values = values.foldl (fun n digit => 10 * n + digit) n := by
  fun_induction extendByBlocks n values with
  | case1 n values empty =>
    rw [List.isEmpty_iff.mp empty]
    rfl
  | case2 n values filled block ih =>
    rw [ih, ← foldl_eq, ← List.foldl_append, List.take_append_drop]

theorem ofBlocks_eq (values : List Nat) : ofBlocks values = ofDigits values :=
  extendByBlocks_eq 0 values

/-- Reading from left to right gives every digit the value of its place. -/
theorem ofDigits_map (run : List Char) : ofDigits (run.map digitValue) = placeValue run := by
  induction run with
  | nil => rfl
  | cons c run ih =>
    have moved : ofDigits ((c :: run).map digitValue) =
        digitValue c * tenTo (run.map digitValue).length + ofDigits (run.map digitValue) := by
      rw [List.map_cons, ofDigits, List.foldl_cons, foldl_eq]
      simp
    rw [moved, ih, placeValue, List.length_map, tenTo, Nat.pow_eq]

theorem placeValue_append (run : List Char) (c : Char) :
    placeValue (run ++ [c]) = 10 * placeValue run + digitValue c := by
  simp only [← ofDigits_map, List.map_append, ofDigits, List.foldl_append]
  rfl

theorem placeValue_eq_ofDigitChars (run : List Char) : placeValue run = Nat.ofDigitChars 10 run 0 := by
  rw [← ofDigits_map]
  exact List.foldl_map

/-! Numerals between blanks. -/

/-- The sign of a numeral, if it has one. -/
inductive Sign where
  | none
  | plus
  | minus
  deriving DecidableEq, Repr

namespace Sign

def text : Sign → List Char
  | none => []
  | plus => ['+']
  | minus => ['-']

/-- A number with a sign before it. -/
def apply : Sign → Nat → Int
  | minus, n => -n
  | _, n => n

end Sign

/-- A numeral in plain form: blanks, one sign or none, digits, blanks. -/
structure PlainNumeral where
  before : List Char
  sign : Sign
  run : List Char
  after : List Char
  blank_before : ∀ c ∈ before, isBlank c = true
  isNumeral : IsNumeral run
  blank_after : ∀ c ∈ after, isBlank c = true

namespace PlainNumeral

/-- What stands between the blanks. -/
def body (numeral : PlainNumeral) : List Char := numeral.sign.text ++ numeral.run

def text (numeral : PlainNumeral) : List Char := numeral.before ++ numeral.body ++ numeral.after

/-- The integer that a numeral denotes. -/
def value (numeral : PlainNumeral) : Int := numeral.sign.apply (placeValue numeral.run)

/-- A row of digits by itself. -/
def ofRun (run : List Char) (isNumeral : IsNumeral run) : PlainNumeral where
  before := []
  sign := .none
  run := run
  after := []
  blank_before := List.forall_mem_nil _
  isNumeral := isNumeral
  blank_after := List.forall_mem_nil _

end PlainNumeral

theorem dropWhile_append_eq {p : Char → Bool} {front rest : List Char} (inside : ∀ c ∈ front, p c = true)
    (stop : ∀ c ∈ rest.head?, p c = false) : (front ++ rest).dropWhile p = rest := by
  rw [List.dropWhile_append_of_pos inside]
  cases rest with
  | nil => rfl
  | cons c rest => rw [List.dropWhile_cons, stop c rfl]; rfl

theorem head?_append_of_filled {front : List Char} (filled : front ≠ []) (back : List Char) :
    (front ++ back).head? = front.head? := by
  cases front with
  | nil => exact absurd rfl filled
  | cons c front => rfl

/-- What stands between members of a class is left when these are taken off. -/
theorem strip_padded {p : Char → Bool} (before : ∀ c ∈ front, p c = true) (after : ∀ c ∈ back, p c = true)
    (filled : body ≠ []) (outside : ∀ c ∈ body, p c = false) : strip p (front ++ body ++ back) = body := by
  have begins : ∀ c ∈ (body ++ back).head?, p c = false := by
    rw [head?_append_of_filled filled]
    exact fun c isFirst => outside c (List.mem_of_mem_head? isFirst)
  have ends : ∀ c ∈ body.reverse.head?, p c = false :=
    fun c isLast => outside c (List.mem_reverse.mp (List.mem_of_mem_head? isLast))
  rw [strip, List.append_assoc, dropWhile_append_eq before begins, List.reverse_append,
    dropWhile_append_eq (fun c member => after c (List.mem_reverse.mp member)) ends, List.reverse_reverse]

/-- What is not in the class stays. -/
theorem mem_strip {p : Char → Bool} (member : c ∈ cs) (outside : p c = false) : c ∈ strip p cs := by
  have stays : ∀ cs : List Char, c ∈ cs → c ∈ cs.dropWhile p := by
    intro cs member
    rw [← List.takeWhile_append_dropWhile (p := p) (l := cs), List.mem_append] at member
    refine member.resolve_left fun taken => ?_
    rw [List.mem_takeWhile_imp taken] at outside
    cases outside
  exact List.mem_reverse.mpr (stays _ (List.mem_reverse.mpr (stays _ member)))

theorem mem_splitSign (member : c ∈ cs) : c = '-' ∨ c = '+' ∨ c ∈ (splitSign cs).2 := by
  unfold splitSign
  split
  · rcases List.mem_cons.mp member with isMinus | inRest
    · exact .inl isMinus
    · exact .inr (.inr inRest)
  · rcases List.mem_cons.mp member with isPlus | inRest
    · exact .inr (.inl isPlus)
    · exact .inr (.inr inRest)
  · exact .inr (.inr member)

/-- A sign before digits is told from them, whatever follows. -/
theorem splitSign_append (sign : Sign) (isNumeral : IsNumeral run) (rest : List Char) :
    splitSign (sign.text ++ run ++ rest) = (decide (sign = .minus), run ++ rest) := by
  obtain ⟨filled, allDigits⟩ := isNumeral
  cases sign with
  | plus | minus => rfl
  | none =>
    cases run with
    | nil => exact absurd rfl filled
    | cons c run =>
      have digit := allDigits c List.mem_cons_self
      simp only [Sign.text, List.nil_append, List.cons_append, splitSign]
      split
      · rename_i same
        cases same
        cases digit
      · rename_i same
        cases same
        cases digit
      · rfl

namespace PlainNumeral

variable (numeral : PlainNumeral)

theorem body_ne_nil : numeral.body ≠ [] :=
  fun isEmpty => numeral.isNumeral.1 (List.append_eq_nil_iff.mp isEmpty).2

theorem body_not_blank : ∀ c ∈ numeral.body, isBlank c = false := by
  intro c member
  rcases List.mem_append.mp member with inSign | inRun
  · cases isSign : numeral.sign with
    | none => rw [isSign] at inSign; cases inSign
    | plus | minus =>
      rw [isSign] at inSign
      rw [List.mem_singleton.mp inSign]
      decide
  · exact isBlank_of_digit (numeral.isNumeral.2 c inRun)

theorem splitSign_body : splitSign numeral.body = (decide (numeral.sign = .minus), numeral.run) := by
  have split := splitSign_append numeral.sign numeral.isNumeral []
  rwa [List.append_nil, List.append_nil] at split

theorem signed_eq : signed (decide (numeral.sign = .minus)) (placeValue numeral.run) = numeral.value := by
  rw [value]
  cases numeral.sign <;> rfl

/-- The plain form is read as what it denotes. -/
theorem readPlain_text : readPlain numeral.text = some numeral.value := by
  have trimmed : trim numeral.text = numeral.body :=
    strip_padded numeral.blank_before numeral.blank_after numeral.body_ne_nil numeral.body_not_blank
  simp only [readPlain, trimmed, splitSign_body, mapM_asciiDigit? numeral.isNumeral.2]
  simp [numeral.isNumeral.1, ofBlocks_eq, ofDigits_map, signed_eq]

/-- An information separator among the blanks keeps the grouped form from being read. -/
theorem readGrouped_of_separator (member : c ∈ numeral.text) (separator : 28 ≤ c.toNat ∧ c.toNat ≤ 31) :
    readGrouped numeral.text = none := by
  have notSpacing : isSpacing c = false := by
    simp [isSpacing, separator]
  have low : digit? c = none := digit?_of_lt (by omega)
  have other : ∀ d : Char, 31 < d.toNat → c ≠ d := by
    rintro d high rfl
    omega
  have inBody := (mem_splitSign (mem_strip member notSpacing)).resolve_left (other '-' (by decide))
    |>.resolve_left (other '+' (by decide))
  have unread : groupedDigits (splitSign (strip isSpacing numeral.text)).2 = none := by
    cases read : groupedDigits (splitSign (strip isSpacing numeral.text)).2 with
    | none => rfl
    | some values =>
      rcases mem_of_groupedDigits read inBody with underscore | isDigit
      · exact absurd underscore (other '_' (by decide))
      · rw [low] at isDigit
        cases isDigit
  simp only [readGrouped, unread]
  rfl

/-- A numeral in plain form is read as what it denotes in the grouped form too, or it is left to the plain one. -/
theorem readGrouped_text : readGrouped numeral.text = none ∨ readGrouped numeral.text = some numeral.value := by
  by_cases separated : ∃ c ∈ numeral.text, 28 ≤ c.toNat ∧ c.toNat ≤ 31
  · obtain ⟨c, member, separator⟩ := separated
    exact .inl (numeral.readGrouped_of_separator member separator)
  · have spacing : ∀ c ∈ numeral.text, isBlank c = true → isSpacing c = true := by
      intro c member blank
      have inRange : ¬ (28 ≤ c.toNat ∧ c.toNat ≤ 31) := fun separator => separated ⟨c, member, separator⟩
      simp only [isSpacing, blank, Bool.true_and, Bool.not_eq_true', Bool.and_eq_false_iff, decide_eq_false_iff_not]
      omega
    have stripped : strip isSpacing numeral.text = numeral.body := by
      refine strip_padded (fun c member => ?_) (fun c member => ?_) numeral.body_ne_nil fun c member => ?_
      · exact spacing c (by simp [text, member]) (numeral.blank_before c member)
      · exact spacing c (by simp [text, member]) (numeral.blank_after c member)
      · rw [isSpacing, numeral.body_not_blank c member, Bool.false_and]
    simp only [readGrouped, stripped, splitSign_body, groupedDigits_of_isNumeral numeral.isNumeral]
    by_cases short : numeral.run.length ≤ groupedLimit
    · exact .inr (by simp [short, ofDigits_map, signed_eq])
    · exact .inl (by simp [short])

theorem read?_text {text : String} (isText : text.toList = numeral.text) : read? text = some numeral.value := by
  rw [read?, isText, readPlain_text]
  rcases numeral.readGrouped_text with unread | read
  · rw [unread, Option.none_or]
  · rw [read, Option.some_or]

end PlainNumeral

/-- A numeral of the language denotes the number that its digits spell, however long it is. -/
theorem read?_of_isNumeral {text : String} (isNumeral : IsNumeral text.toList) :
    read? text = some ((Nat.ofDigitChars 10 text.toList 0 : Nat) : Int) := by
  have isText : text.toList = (PlainNumeral.ofRun text.toList isNumeral).text := (List.append_nil _).symm
  rw [PlainNumeral.read?_text _ isText, ← placeValue_eq_ofDigitChars]
  rfl

/-! Writing. -/

theorem digits_append (positive : 0 < n) (single : d < 10) : digits (10 * n + d) = digits n ++ digits d :=
  (Nat.toDigits_append_toDigits (by decide) positive single).symm

/-- The last of several digits stands behind the others. -/
theorem digits_split (more : 0 < n / 10) : digits n = digits (n / 10) ++ digits (n % 10) := by
  rw [← digits_append more (Nat.mod_lt _ (by decide)), Nat.div_add_mod]

theorem length_digits_of_lt (single : d < 10) : (digits d).length = 1 := by
  rw [digits, Nat.toDigits_of_lt_base single]
  rfl

/-- The last digit of a padded number stands behind the others, padded to one place less. -/
theorem padded_succ (positive : 0 < width) (n : Nat) :
    padded (width + 1) n = padded width (n / 10) ++ digits (n % 10) := by
  have last : n % 10 < 10 := Nat.mod_lt _ (by decide)
  rcases Nat.eq_zero_or_pos (n / 10) with isSingle | positive'
  · have single : n < 10 := by omega
    have zero : digits 0 = ['0'] := rfl
    rw [isSingle, Nat.mod_eq_of_lt single, padded, padded, length_digits_of_lt single, zero]
    rw [List.length_singleton, ← List.replicate_succ', Nat.sub_add_cancel positive, Nat.add_sub_cancel]
  · rw [padded, padded, digits_split positive', List.length_append, length_digits_of_lt last, Nat.add_sub_add_right,
      List.append_assoc]

/-- The digits of a number whose lower part is padded. -/
theorem digits_append_padded (positive : 0 < n) (wide : 0 < width) (below : rest < tenTo width) :
    digits (n * tenTo width + rest) = digits n ++ padded width rest := by
  induction width, wide using Nat.le_induction generalizing rest with
  | base =>
    have single : rest < 10 := below
    have onlyDigit : padded 1 rest = digits rest := by
      rw [padded, length_digits_of_lt single]
      rfl
    rw [onlyDigit, ← digits_append positive single, Nat.mul_comm]
    rfl
  | succ width wide ih =>
    have tenfold : tenTo (width + 1) = 10 * tenTo width := by
      simp only [tenTo, Nat.pow_eq, pow_succ]
      ring
    have upper : rest / 10 < tenTo width := by omega
    have last : rest % 10 < 10 := Nat.mod_lt _ (by decide)
    have positive' : 0 < n * tenTo width + rest / 10 :=
      Nat.add_pos_left (Nat.mul_pos positive (Nat.zero_lt_of_lt (one_lt_tenTo wide))) _
    calc digits (n * tenTo (width + 1) + rest)
        = digits (10 * (n * tenTo width + rest / 10) + rest % 10) := by
          rw [tenfold, Nat.mul_add, Nat.add_assoc, Nat.div_add_mod, Nat.mul_left_comm]
      _ = digits n ++ padded width (rest / 10) ++ digits (rest % 10) := by
          rw [digits_append positive' last, ih upper]
      _ = digits n ++ padded (width + 1) rest := by
          rw [padded_succ wide, List.append_assoc]

theorem blocks_zero : blocks 0 = [] := by
  rw [blocks]
  rfl

theorem blocks_of_pos (positive : 0 < n) :
    blocks n = n % tenTo blockSize :: blocks (n / tenTo blockSize) := by
  rw [blocks, if_neg (Nat.ne_of_gt positive)]

/-- The digits of the highest block and the others filled up are the digits of the number. -/
theorem digits_of_blocks (positive : 0 < n) : ∃ head rest,
    (blocks n).reverse = head :: rest ∧ digits head ++ rest.flatMap (padded blockSize) = digits n := by
  have base : 0 < tenTo blockSize := Nat.zero_lt_of_lt (one_lt_tenTo (by decide))
  induction n using Nat.strongRecOn with
  | ind n ih =>
    rw [blocks_of_pos positive, List.reverse_cons]
    rcases Nat.eq_zero_or_pos (n / tenTo blockSize) with isSingle | more
    · have small : n < tenTo blockSize := (Nat.div_eq_zero_iff_lt base).mp isSingle
      rw [isSingle, blocks_zero, Nat.mod_eq_of_lt small]
      exact ⟨n, [], rfl, by simp⟩
    · obtain ⟨head, rest, split, spelled⟩ :=
        ih _ (Nat.div_lt_self positive (one_lt_tenTo (by decide))) more
      refine ⟨head, rest ++ [n % tenTo blockSize], by rw [split]; rfl, ?_⟩
      rw [List.flatMap_append, ← List.append_assoc, spelled, List.flatMap_singleton,
        ← digits_append_padded more (by decide) (Nat.mod_lt n base), Nat.div_add_mod']

/-- Writing by blocks comes to the same as writing digit by digit. -/
theorem blockDigits_eq (positive : 0 < n) : blockDigits n = digits n := by
  obtain ⟨head, rest, split, spelled⟩ := digits_of_blocks positive
  rw [blockDigits, split]
  exact spelled

theorem writeByBlocks_eq {n : Int} (notZero : n ≠ 0) : writeByBlocks n = withSign n (digits n.natAbs) := by
  rw [writeByBlocks, blockDigits_eq (Int.natAbs_pos.mpr notZero)]

/-- The text of an integer has the same form on both sides of the limit. -/
theorem write_eq (n : Int) : write n = withSign n (digits n.natAbs) := by
  rw [write]
  split
  · rfl
  · rename_i large
    have notZero : n ≠ 0 := by
      rintro rfl
      exact large (Nat.zero_lt_of_lt (one_lt_tenTo (by decide)))
    exact writeByBlocks_eq notZero

theorem isNumeral_digits (n : Nat) : IsNumeral (digits n) :=
  ⟨Nat.toDigits_ne_nil, fun _ member => Nat.isDigit_of_mem_toDigits (by decide) (by decide) member⟩

theorem placeValue_digits (n : Nat) : placeValue (digits n) = n := by
  rw [placeValue_eq_ofDigitChars, digits, Nat.ofDigitChars_ten_toDigits]

/-- The digits that are written for a number are read as this number. -/
theorem read?_digits (n : Nat) : read? (String.ofList (digits n)) = some (n : Int) := by
  have isNumeral : IsNumeral (String.ofList (digits n)).toList := by
    rw [String.toList_ofList]
    exact isNumeral_digits n
  rw [read?_of_isNumeral isNumeral, String.toList_ofList, digits, Nat.ofDigitChars_ten_toDigits]

end TreeWalk.Decimal
