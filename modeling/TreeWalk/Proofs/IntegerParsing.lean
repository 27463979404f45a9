import TreeWalk.Eval
import TreeWalk.Proofs.Numerals

/-! What `int.parse` takes.

Three readers stand behind one another: a test of the form, a reader that takes more than this form but not all
of it, and a reader by blocks for what is left. The test decides. What passes it is read, by one reader or the
other, as the integer that it denotes; all else is refused, whatever the readers would make of it. -/
namespace TreeWalk

open Text Lexeme

namespace Decimal

theorem splitSign_eq (cs : List Char) : ∃ sign : Sign, cs = sign.text ++ (splitSign cs).2 := by
  unfold splitSign
  split
  · exact ⟨.minus, rfl⟩
  · exact ⟨.plus, rfl⟩
  · exact ⟨.none, rfl⟩

theorem isDigit_of_blank {c : Char} (blank : isBlank c = true) : c.isDigit = false := by
  cases digit : c.isDigit with
  | false => rfl
  | true =>
    rw [isBlank_of_digit digit] at blank
    cases blank

theorem PlainNumeral.isPlain_text (numeral : PlainNumeral) : isPlain numeral.text = true := by
  obtain ⟨filled, allDigits⟩ := numeral.isNumeral
  have begins : ∀ c ∈ (numeral.body ++ numeral.after).head?, isBlank c = false := by
    rw [head?_append_of_filled numeral.body_ne_nil]
    exact fun c isFirst => numeral.body_not_blank c (List.mem_of_mem_head? isFirst)
  have ends : ∀ c ∈ numeral.after.head?, c.isDigit = false :=
    fun c isFirst => isDigit_of_blank (numeral.blank_after c (List.mem_of_mem_head? isFirst))
  have opened : numeral.text.dropWhile isBlank = numeral.sign.text ++ numeral.run ++ numeral.after := by
    rw [text, List.append_assoc, dropWhile_append_eq numeral.blank_before begins, body]
  have closed : (numeral.run ++ numeral.after).dropWhile Char.isDigit = numeral.after :=
    dropWhile_append_eq allDigits ends
  rw [isPlain, opened, splitSign_append numeral.sign numeral.isNumeral]
  simp only [closed, List.takeWhile_append_of_pos allDigits]
  simpa [filled] using numeral.blank_after

/-- The test finds out whether a text is a numeral in plain form. -/
theorem isPlain_iff (cs : List Char) : isPlain cs = true ↔ ∃ numeral : PlainNumeral, numeral.text = cs := by
  constructor
  · intro plain
    obtain ⟨sign, split⟩ := splitSign_eq (cs.dropWhile isBlank)
    rw [isPlain] at plain
    generalize (splitSign (cs.dropWhile isBlank)).2 = body at split plain
    simp only [Bool.and_eq_true, Bool.not_eq_true', List.isEmpty_eq_false_iff, List.all_eq_true] at plain
    refine ⟨⟨cs.takeWhile isBlank, sign, body.takeWhile Char.isDigit, body.dropWhile Char.isDigit,
      fun c member => List.mem_takeWhile_imp member,
      ⟨plain.1, fun c member => List.mem_takeWhile_imp member⟩, plain.2⟩, ?_⟩
    rw [PlainNumeral.text, PlainNumeral.body, List.append_assoc, List.append_assoc,
      List.takeWhile_append_dropWhile, ← split, List.takeWhile_append_dropWhile]
  · rintro ⟨numeral, rfl⟩
    exact numeral.isPlain_text

/-- A text in plain form is read as what it denotes. -/
theorem readStrictly?_eq_some_iff (text : String) (n : Int) :
    readStrictly? text = some n ↔ ∃ numeral : PlainNumeral, numeral.text = text.toList ∧ numeral.value = n := by
  rw [readStrictly?]
  constructor
  · intro read
    split at read
    · rename_i plain
      obtain ⟨numeral, isText⟩ := (isPlain_iff _).mp plain
      rw [numeral.read?_text isText.symm] at read
      exact ⟨numeral, isText, Option.some.inj read⟩
    · cases read
  · rintro ⟨numeral, isText, rfl⟩
    rw [if_pos ((isPlain_iff _).mpr ⟨numeral, isText⟩), numeral.read?_text isText.symm]

end Decimal

open Decimal

namespace Request

variable {text : String}

/-- Parsing a text that is read changes nothing. -/
theorem perform_parseInt (read : readStrictly? text = some n) (depth : Nat) (world : World) :
    (Request.apply (.builtin .parseInt) [.str text]).perform (depth + 1) world = (.ok (.int n), world) := by
  simp only [perform, plan, Plan.applyStep, Plan.runBuiltin, read]
  rfl

/-- Parsing a text that is refused fails. -/
theorem perform_parseInt_refused (refused : readStrictly? text = none) (depth : Nat) (world : World) :
    (Request.apply (.builtin .parseInt) [.str text]).perform (depth + 1) world =
      (.error (.failed world.nextSerial .notNumeral), world.takeSerial.2) := by
  simp only [perform, plan, Plan.applyStep, Plan.runBuiltin, refused]
  rfl

end Request

/-- The integer that `int.parse` gives for a text is the one that the text denotes as a numeral in plain form. A
text that is no such numeral gives an error, always the same one. The test of the form accepts these numerals and
nothing else, and the reader behind it has a value for all of them. -/
theorem int_parse_takes_plain_numerals (text : String) (depth : Nat) (world : World) :
    let ending := (Request.apply (.builtin .parseInt) [.str text]).perform (depth + 1) world
    (∀ n, ending.1 = .ok (.int n) ↔
      ∃ numeral : PlainNumeral, numeral.text = text.toList ∧ numeral.value = n) ∧
    ((¬ ∃ numeral : PlainNumeral, numeral.text = text.toList) →
      ending = (.error (.failed world.nextSerial .notNumeral), world.takeSerial.2)) ∧
    Failure.notNumeral.message = "could not parse integer" ∧
    (isPlain text.toList = true ↔ ∃ numeral : PlainNumeral, numeral.text = text.toList) ∧
    ∀ numeral : PlainNumeral, numeral.text = text.toList →
      read? text = some numeral.value ∧ ending = (.ok (.int numeral.value), world) := by
  intro ending
  have accepted := readStrictly?_eq_some_iff text
  refine ⟨fun n => ?_, fun notPlain => ?_, rfl, isPlain_iff _, fun numeral isText => ?_⟩
  · rw [← accepted]
    cases read : readStrictly? text with
    | none => simp [ending, Request.perform_parseInt_refused read]
    | some m => simp [ending, Request.perform_parseInt read]
  · cases read : readStrictly? text with
    | none => exact Request.perform_parseInt_refused read depth world
    | some n =>
      obtain ⟨numeral, isText, _⟩ := (accepted n).mp read
      exact absurd ⟨numeral, isText⟩ notPlain
  · have read := (accepted numeral.value).mpr ⟨numeral, isText, rfl⟩
    exact ⟨numeral.read?_text isText.symm, Request.perform_parseInt read depth world⟩

/-- A sign and zeros between an information separator and a wide space are taken. An underscore is not, though the
reader behind the test would take it. -/
theorem int_parse_takes_plain_numerals_not_underscores :
    let parse := fun text => (Request.apply (.builtin .parseInt) [.str text]).perform 1 (.start "")
    parse "\x1f-0042\u3000" = (.ok (.int (-42)), .start "") ∧
      read? "4_2" = some 42 ∧ parse "4_2" = (.error (.failed 0 .notNumeral), (World.start "").takeSerial.2) := by
  intro parse
  have taken := int_parse_takes_plain_numerals "\x1f-0042\u3000" 0 (.start "")
  have refused := int_parse_takes_plain_numerals "4_2" 0 (.start "")
  refine ⟨?_, by decide, refused.2.1 ?_⟩
  · exact (taken.2.2.2.2 ⟨['\x1f'], .minus, ['0', '0', '4', '2'], ['\u3000'],
      List.forall_mem_singleton.mpr rfl, ⟨List.cons_ne_nil _ _, List.all_eq_true.mp rfl⟩,
      List.forall_mem_singleton.mpr rfl⟩ rfl).2
  · rw [← refused.2.2.2.1]
    decide

end TreeWalk
