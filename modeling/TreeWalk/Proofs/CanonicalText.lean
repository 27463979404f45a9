import TreeWalk.Proofs.Numerals
import Mathlib.Data.List.Induction

/-! The text of an integer.

Of all the numerals of an integer one is canonical: it has no blanks, no plus and no zero that could be left out.
This is the text that is written, on both sides of the limit and by either way of writing, and it is read as the
same integer again. -/
namespace TreeWalk.Decimal

open TreeWalk.Text Lexeme

/-- A row of digits in which no zero comes before other digits. -/
def Trimmed (run : List Char) : Prop := run.head? = some '0' → run = ['0']

/-- The canonical text of an integer: a minus if it is negative, and a row of digits that comes to its size and
has no zero before other digits. -/
def IsCanonical (n : Int) (text : String) : Prop :=
  ∃ run, text.toList = (if n < 0 then ['-'] else []) ++ run ∧ IsNumeral run ∧ Trimmed run ∧
    placeValue run = n.natAbs

theorem digits_digitValue {c : Char} (digit : c.isDigit = true) : digits (digitValue c) = [c] := by
  have single := digitValue_lt digit
  have range := toNat_of_digit digit
  have isValue : digitValue c = c.toNat - 48 := rfl
  rw [digits, Nat.toDigits_of_lt_base single, List.singleton_inj]
  apply Char.toNat_inj.mp
  rw [Nat.toNat_digitChar_of_lt_ten single]
  omega

theorem trimmed_digits (n : Nat) : Trimmed (digits n) := by
  intro begins
  induction n using Nat.strongRecOn with
  | ind n ih =>
    rcases Nat.eq_zero_or_pos (n / 10) with isSingle | more
    · have single : n < 10 := by omega
      rw [digits, Nat.toDigits_of_lt_base single] at begins ⊢
      exact congrArg ([·]) (Option.some.inj begins)
    · -- The first of several digits is the first one of those before the last.
      rw [digits_split more, head?_append_of_filled (isNumeral_digits _).1] at begins
      have isZero := ih (n / 10) (by omega) begins
      have value := placeValue_digits (n / 10)
      rw [isZero] at value
      exact absurd value (Nat.ne_of_lt more)

/-- A row of digits without needless zeros is the one that is written for its value. -/
theorem eq_digits_of_trimmed (isNumeral : IsNumeral run) (trimmed : Trimmed run) :
    run = digits (placeValue run) := by
  obtain ⟨filled, allDigits⟩ := isNumeral
  induction run using List.reverseRecOn with
  | nil => exact absurd rfl filled
  | append_singleton run c ih =>
    have digit := allDigits c (by simp)
    rw [placeValue_append]
    by_cases isSingle : run = []
    · subst isSingle
      have onlyValue : 10 * placeValue [] + digitValue c = digitValue c := Nat.zero_add _
      rw [onlyValue, digits_digitValue digit, List.nil_append]
    · rw [Trimmed, head?_append_of_filled isSingle] at trimmed
      have noZero : run.head? ≠ some '0' := by
        intro begins
        have longer := congrArg List.length (trimmed begins)
        rw [List.length_append] at longer
        exact isSingle (List.length_eq_zero_iff.mp (Nat.succ.inj longer))
      have digitsBefore : ∀ d ∈ run, d.isDigit = true :=
        fun d member => allDigits d (List.mem_append_left _ member)
      have rest := ih (fun begins => absurd begins noZero) isSingle digitsBefore
      have positive : 0 < placeValue run := by
        apply Nat.pos_of_ne_zero
        intro isZero
        rw [isZero] at rest
        exact noZero (by rw [rest]; rfl)
      rw [digits_append positive (digitValue_lt digit), ← rest, digits_digitValue digit]

theorem toList_write (n : Int) : (write n).toList = (if n < 0 then ['-'] else []) ++ digits n.natAbs := by
  rw [write_eq, withSign, String.toList_ofList]
  split <;> rfl

/-- The text that is written for an integer is canonical, and no other text is. -/
theorem isCanonical_iff (n : Int) (text : String) : IsCanonical n text ↔ text = write n := by
  constructor
  · rintro ⟨run, isText, isNumeral, trimmed, value⟩
    apply String.toList_injective
    rw [isText, toList_write, ← value, ← eq_digits_of_trimmed isNumeral trimmed]
  · intro isText
    rw [isText]
    exact ⟨_, toList_write n, isNumeral_digits _, trimmed_digits _, placeValue_digits _⟩

/-- The numeral that is written for an integer. -/
def PlainNumeral.canonical (n : Int) : PlainNumeral :=
  { ofRun (digits n.natAbs) (isNumeral_digits _) with sign := if n < 0 then .minus else .none }

theorem PlainNumeral.canonical_value (n : Int) : (canonical n).value = n := by
  have size : placeValue (canonical n).run = n.natAbs := placeValue_digits _
  rw [value, size]
  by_cases negative : n < 0
  · have isSign : (canonical n).sign = .minus := if_pos negative
    rw [isSign, Sign.apply]
    omega
  · have isSign : (canonical n).sign = .none := if_neg negative
    rw [isSign]
    exact Int.natAbs_of_nonneg (Int.not_lt.mp negative)

theorem PlainNumeral.canonical_text (n : Int) : (write n).toList = (canonical n).text := by
  rw [toList_write, text, body]
  simp only [canonical, ofRun, List.nil_append, List.append_nil]
  split <;> rfl

/-- The text of an integer is the canonical one and is read as the same integer, of whatever size it is. Writing
by blocks gives the same text as long as there is a block, and reading by blocks gives for every numeral in plain
form what its digits come to by their places, with its sign. -/
theorem decimal_conversion_is_exact :
    (∀ n : Int, (∀ text, IsCanonical n text ↔ text = write n) ∧ read? (write n) = some n ∧
      (n ≠ 0 → writeByBlocks n = write n)) ∧
    ∀ numeral : PlainNumeral, readPlain numeral.text = some numeral.value := by
  refine ⟨fun n => ⟨isCanonical_iff n, ?_, fun notZero => ?_⟩, PlainNumeral.readPlain_text⟩
  · rw [(PlainNumeral.canonical n).read?_text (PlainNumeral.canonical_text n), PlainNumeral.canonical_value]
  · rw [writeByBlocks_eq notZero, write_eq]

/-- The first negative integer beyond the limit, and a numeral with a separator and zeros before it. -/
theorem decimal_conversion_is_exact_beyond_limit :
    let n : Int := -(tenTo groupedLimit : Nat)
    (¬ n.natAbs < tenTo groupedLimit) ∧ n ≠ 0 ∧ writeByBlocks n = write n ∧ read? (write n) = some n ∧
      readPlain ['\x1c', '-', '0', '0', '7', '\n'] = some (-7) := by
  intro n
  have positive : 0 < tenTo groupedLimit := Nat.zero_lt_of_lt (one_lt_tenTo (by decide))
  have large : ¬ n.natAbs < tenTo groupedLimit := by
    rw [Int.natAbs_neg, Int.natAbs_natCast]
    exact Nat.lt_irrefl _
  have notZero : n ≠ 0 := by
    intro isZero
    rw [isZero] at large
    exact large positive
  have conversion := decimal_conversion_is_exact.1 n
  exact ⟨large, notZero, conversion.2.2 notZero, conversion.2.1,
    decimal_conversion_is_exact.2
      ⟨['\x1c'], .minus, ['0', '0', '7'], ['\n'], List.forall_mem_singleton.mpr rfl,
        ⟨List.cons_ne_nil _ _, List.all_eq_true.mp rfl⟩, List.forall_mem_singleton.mpr rfl⟩⟩

end TreeWalk.Decimal
