import TreeWalk.Prompt.Command
import TreeWalk.Proofs.RenderedData
import Mathlib.Data.List.Induction

/-! Brackets that are left open.

Every rule of the language closes the brackets that it opens, in order. So in a program no bracket is closed
that was not opened, and at its end none is left open; after a part of its lexemes, as many are open as the
rest of them closes and does not open itself. The count that decides what Enter does is therefore exact on
all beginnings of programs. It is too high for no program, and a text on which it is not zero is none. -/
namespace TreeWalk

open Grammar

namespace Terminal

/-- How many brackets are open after one more terminal, if there is one to close where it closes one. -/
def nest (depth : Nat) (t : Terminal) : Option Nat :=
  if t.opens then some (depth + 1)
  else if t.closes then if depth = 0 then none else some (depth - 1)
  else some depth

/-- How many brackets are open after more terminals, if none of them closes a bracket that is not open. -/
def climb (depth : Nat) (kinds : List Terminal) : Option Nat := kinds.foldlM nest depth

theorem climb_cons (depth : Nat) (t : Terminal) (kinds : List Terminal) :
    climb depth (t :: kinds) = (nest depth t).bind fun next => climb next kinds := by
  rw [climb, List.foldlM_cons]
  rfl

theorem climb_append (depth : Nat) (first second : List Terminal) :
    climb depth (first ++ second) = (climb depth first).bind fun next => climb next second := by
  rw [climb, List.foldlM_append]
  rfl

theorem climb_singleton (depth : Nat) (t : Terminal) : climb depth [t] = nest depth t := by
  rw [climb_cons]
  exact Option.bind_fun_some _

theorem not_closes_of_opens {t : Terminal} (opening : t.opens = true) : t.closes = false := by
  have checked : ∀ t ∈ all, t.opens = true → t.closes = false := by decide
  exact checked t t.mem_all opening

/-- What one terminal does, by what it is. -/
theorem nest_eq_some (nested : nest depth t = some next) :
    (t.opens = true ∧ t.closes = false ∧ next = depth + 1) ∨
      (t.opens = false ∧ t.closes = true ∧ depth = next + 1) ∨
      (t.opens = false ∧ t.closes = false ∧ next = depth) := by
  unfold nest at nested
  split at nested
  · rename_i opening
    cases nested
    exact .inl ⟨opening, not_closes_of_opens opening, rfl⟩
  · rename_i notOpening
    rw [Bool.not_eq_true] at notOpening
    split at nested
    · rename_i closing
      split at nested
      · cases nested
      · cases nested
        exact .inr (.inl ⟨notOpening, closing, by omega⟩)
    · rename_i notClosing
      cases nested
      exact .inr (.inr ⟨notOpening, by simpa using notClosing, rfl⟩)

/-- More open brackets around do not matter. -/
theorem nest_add (nested : nest depth t = some next) (more : Nat) :
    nest (depth + more) t = some (next + more) := by
  unfold nest
  rcases nest_eq_some nested with ⟨opening, _, rfl⟩ | ⟨notOpening, closing, rfl⟩ | ⟨notOpening, notClosing, rfl⟩
  · rw [if_pos opening, Nat.add_right_comm]
  · rw [if_neg (by simp [notOpening]), if_pos closing, if_neg (by omega)]
    congr 1
    omega
  · rw [if_neg (by simp [notOpening]), if_neg (by simp [notClosing])]

theorem climb_add (climbs : climb depth kinds = some top) (more : Nat) :
    climb (depth + more) kinds = some (top + more) := by
  induction kinds generalizing depth with
  | nil =>
    cases climbs
    rfl
  | cons t kinds ih =>
    rw [climb_cons] at climbs ⊢
    obtain ⟨next, nested, rest⟩ := Option.bind_eq_some_iff.mp climbs
    rw [nest_add nested, Option.bind_some, ih rest]

/-- The brackets that are opened and closed make the difference. -/
theorem climb_counts (climbs : climb depth kinds = some top) :
    depth + kinds.countP opens = top + kinds.countP closes := by
  induction kinds generalizing depth with
  | nil =>
    cases climbs
    rfl
  | cons t kinds ih =>
    rw [climb_cons] at climbs
    obtain ⟨next, nested, rest⟩ := Option.bind_eq_some_iff.mp climbs
    have counted := ih rest
    rw [List.countP_cons, List.countP_cons]
    rcases nest_eq_some nested with
      ⟨opening, closing, rfl⟩ | ⟨opening, closing, rfl⟩ | ⟨opening, closing, rfl⟩ <;>
      simp only [opening, closing, if_true, Bool.false_eq_true, if_false] <;> omega

end Terminal

open Terminal (climb climb_append)

namespace Lexeme

theorem openCount_concat (lexemes : List Lexeme) (lexeme : Lexeme) :
    openCount (lexemes ++ [lexeme]) =
      if lexeme.kind.opens then openCount lexemes + 1
      else if lexeme.kind.closes then openCount lexemes - 1 else openCount lexemes := by
  rw [openCount, List.foldl_append]
  rfl

/-- The count is exact where no bracket is closed that is not open. -/
theorem openCount_of_climb (climbs : climb 0 (lexemes.map kind) = some depth) : openCount lexemes = depth := by
  induction lexemes using List.reverseRecOn generalizing depth with
  | nil =>
    cases climbs
    rfl
  | append_singleton lexemes lexeme ih =>
    rw [List.map_append, climb_append] at climbs
    obtain ⟨next, first, last⟩ := Option.bind_eq_some_iff.mp climbs
    rw [List.map_singleton, Terminal.climb_singleton] at last
    rw [openCount_concat, ih first]
    rcases Terminal.nest_eq_some last with ⟨opening, _, rfl⟩ | ⟨opening, closing, rfl⟩ | ⟨opening, closing, rfl⟩
    · rw [if_pos opening]
    · rw [if_neg (by simp [opening]), if_pos closing, Nat.add_sub_cancel]
    · rw [if_neg (by simp [opening]), if_neg (by simp [closing])]

/-- No bracket is closed among lexemes where none is open, so that none is left out of the count. -/
def Nested (lexemes : List Lexeme) : Prop :=
  ∀ before lexeme after, lexemes = before ++ lexeme :: after → lexeme.kind.closes = true → 0 < openCount before

theorem nested_of_climb (climbs : climb 0 (lexemes.map kind) = some depth) : Nested lexemes := by
  rintro before lexeme after rfl closing
  rw [List.map_append, climb_append] at climbs
  obtain ⟨next, first, rest⟩ := Option.bind_eq_some_iff.mp climbs
  rw [List.map_cons, Terminal.climb_cons] at rest
  obtain ⟨_, nested, _⟩ := Option.bind_eq_some_iff.mp rest
  rw [openCount_of_climb first]
  rcases Terminal.nest_eq_some nested with ⟨_, notClosing, _⟩ | ⟨_, _, rfl⟩ | ⟨_, notClosing, _⟩
  · rw [notClosing] at closing
    cases closing
  · exact Nat.succ_pos _
  · rw [notClosing] at closing
    cases closing

end Lexeme

namespace Grammar

/-- The terminal that a symbol is. -/
def Symbol.terminal? : Symbol → Option Terminal
  | .t t => some t
  | .p _ => none

/-- Every rule closes the brackets that it opens. -/
theorem climb_rule (known : rule ∈ rules) (depth : Nat) :
    climb depth (rule.body.filterMap Symbol.terminal?) = some depth := by
  have checked : ∀ rule ∈ rules, climb 0 (rule.body.filterMap Symbol.terminal?) = some 0 := by decide
  have deeper := Terminal.climb_add (checked rule known) depth
  rwa [Nat.zero_add] at deeper

/-- Only the terminals of a row of symbols change how many brackets are open. -/
theorem Derives.climb_eq (derives : Derives symbol lexemes derivation) (depth : Nat) :
    climb depth (lexemes.map Lexeme.kind) = climb depth ([symbol].filterMap Symbol.terminal?) := by
  have both := derives_induction
    (fun symbol lexemes _ => ∀ depth,
      climb depth (lexemes.map Lexeme.kind) = climb depth ([symbol].filterMap Symbol.terminal?))
    (fun symbols lexemes _ => ∀ depth,
      climb depth (lexemes.map Lexeme.kind) = climb depth (symbols.filterMap Symbol.terminal?))
    (fun lexeme depth => rfl)
    (fun rule lexemes children known _ parts depth => by
      rw [parts, climb_rule known]
      rfl)
    (fun depth => rfl)
    (fun symbol lexemes derivation symbols rest derivations _ _ first others depth => by
      have split : symbol :: symbols = [symbol] ++ symbols := rfl
      rw [List.map_append, climb_append, first, split, List.filterMap_append, climb_append]
      simp only [others])
  exact both.1 symbol lexemes derivation derives depth

end Grammar

/-- A program closes all the brackets that it opens, and no others. -/
theorem climb_of_parse (parsed : parse source = .ok tree) :
    climb 0 ((Lexeme.scan source).lexemes.map Lexeme.kind) = some 0 := by
  obtain ⟨_, derivation, derives, _⟩ := (derive_tree_iff automaton_belongs _ tree).mp parsed
  exact derives.climb_eq 0

namespace Lexeme

theorem openDepth_of_whole (whole : (scan source).bad = none) :
    openDepth source = openCount (scan source).lexemes := by
  simp [openDepth, whole]

theorem whole_of_openDepth (opened : 0 < openDepth source) : (scan source).bad = none := by
  by_contra stops
  have isBad : (scan source).bad.isSome = true := Option.isSome_iff_ne_none.mpr stops
  rw [openDepth, if_pos isBad] at opened
  exact Nat.lt_irrefl 0 opened

/-- A new line and blanks add no lexemes. -/
theorem openDepth_newLine (whole : (scan source).bad = none) (size : Nat) :
    openDepth (source ++ String.ofList ('\n' :: List.replicate size ' ')) = openDepth source := by
  have blanks : ∀ c ∈ List.replicate size ' ', isGap c = true := by
    intro c member
    rw [List.eq_of_mem_replicate member]
    rfl
  have scanned := scanFrom_append whole (List.replicate size ' ')
  have nothing := scanFrom_gaps blanks (Place.start.afterAll (source.toList ++ ['\n'])) []
  rw [List.append_nil, scanFrom] at nothing
  rw [nothing, List.append_nil] at scanned
  have split :
      scan (source ++ String.ofList ('\n' :: List.replicate size ' ')) = ⟨(scan source).lexemes, none⟩ := by
    rw [scan, String.toList_append, String.toList_ofList, scanned, scan]
  rw [openDepth_of_whole whole, openDepth_of_whole (by rw [split]), split]

end Lexeme

theorem onEnter_eq_submit (closed : Lexeme.openDepth text = 0) : onEnter text = .submit := by
  rw [onEnter, closed]
  rfl

theorem onEnter_eq_insert (opened : 0 < Lexeme.openDepth text) :
    onEnter text = .insert (String.ofList ('\n' :: List.replicate (4 * Lexeme.openDepth text) ' ')) := by
  unfold onEnter
  split
  · rename_i closed
    rw [closed] at opened
    cases opened
  · rfl

/-- After some lexemes of a program, as many brackets are open as the others close and do not open. -/
theorem openDepth_of_beginning (parsed : parse source = .ok tree)
    (split : (Lexeme.scan source).lexemes = before ++ rest) (whole : (Lexeme.scan text).bad = none)
    (sameKinds : (Lexeme.scan text).lexemes.map Lexeme.kind = before.map Lexeme.kind) :
    (Lexeme.openDepth text : Int) = rest.countP (·.kind.closes) - rest.countP (·.kind.opens) ∧
      Lexeme.Nested (Lexeme.scan text).lexemes := by
  have climbs := climb_of_parse parsed
  rw [split, List.map_append, climb_append] at climbs
  obtain ⟨depth, first, others⟩ := Option.bind_eq_some_iff.mp climbs
  rw [← sameKinds] at first
  have counted := Terminal.climb_counts others
  rw [List.countP_map, List.countP_map] at counted
  rw [Lexeme.openDepth_of_whole whole, Lexeme.openCount_of_climb first]
  refine ⟨?_, Lexeme.nested_of_climb first⟩
  simp only [Function.comp_def] at counted
  omega

theorem openDepth_of_parse (parsed : parse source = .ok tree) : Lexeme.openDepth source = 0 := by
  have whole := ((derive_tree_iff automaton_belongs _ tree).mp parsed).1
  rw [Lexeme.openDepth_of_whole whole]
  exact Lexeme.openCount_of_climb (climb_of_parse parsed)

/-- Enter submits every program. On a text with the lexemes that a program begins with, the count of open
brackets is the number of those that the rest closes, less those that it opens, and no closing bracket is
left out of it. A text on which the count is not zero is no program: Enter starts an indented line, after
which the count is the same. -/
theorem openDepth_is_exact :
    (∀ source tree, parse source = .ok tree →
      Lexeme.openDepth source = 0 ∧ onEnter source = .submit ∧
      ∀ text before rest, (Lexeme.scan source).lexemes = before ++ rest → (Lexeme.scan text).bad = none →
        (Lexeme.scan text).lexemes.map Lexeme.kind = before.map Lexeme.kind →
        (Lexeme.openDepth text : Int) = rest.countP (·.kind.closes) - rest.countP (·.kind.opens) ∧
          Lexeme.Nested (Lexeme.scan text).lexemes) ∧
    ∀ text, 0 < Lexeme.openDepth text →
      let line := String.ofList ('\n' :: List.replicate (4 * Lexeme.openDepth text) ' ')
      (∀ tree, parse text ≠ .ok tree) ∧ onEnter text = .insert line ∧
        Lexeme.openDepth (text ++ line) = Lexeme.openDepth text := by
  constructor
  · intro source tree parsed
    have closed := openDepth_of_parse parsed
    exact ⟨closed, onEnter_eq_submit closed, fun text before rest => openDepth_of_beginning parsed⟩
  · intro text opened line
    refine ⟨fun tree parsed => ?_, onEnter_eq_insert opened, ?_⟩
    · rw [openDepth_of_parse parsed] at opened
      cases opened
    · exact Lexeme.openDepth_newLine (Lexeme.whole_of_openDepth opened) _

/-- The beginning of an array in an array, with a bracket in a comment: two brackets are open, as the rest of
the program closes two. -/
theorem openDepth_is_exact_of_nested_array :
    let text := "[1, // ]\n["
    (∃ tree, parse "[1, [2]]" = .ok tree) ∧ onEnter "[1, [2]]" = .submit ∧ Lexeme.openDepth text = 2 ∧
      (∀ tree, parse text ≠ .ok tree) ∧ onEnter text = .insert "\n        " ∧
      Lexeme.openDepth (text ++ "\n        ") = 2 := by
  intro text
  have data : (Value.array [.int 1, .array [.int 2]]).IsData := by
    refine ⟨.array (List.forall_mem_cons.mpr ⟨.int 1, List.forall_mem_singleton.mpr (.array ?_)⟩), ?_⟩
    · exact List.forall_mem_singleton.mpr (.int 2)
    · simp [Value.kind]
  have rendered : (Value.array [.int 1, .array [.int 2]]).render = "[1, [2]]" := by decide +kernel
  have parsed := derive_render automaton_belongs data
  rw [rendered] at parsed
  let before : List Lexeme := [⟨.leftBracket, "[", ⟨1, 1⟩, ⟨1, 2⟩⟩, ⟨.integer, "1", ⟨1, 2⟩, ⟨1, 3⟩⟩,
    ⟨.comma, ",", ⟨1, 3⟩, ⟨1, 4⟩⟩, ⟨.leftBracket, "[", ⟨1, 5⟩, ⟨1, 6⟩⟩]
  let rest : List Lexeme := [⟨.integer, "2", ⟨1, 6⟩, ⟨1, 7⟩⟩, ⟨.rightBracket, "]", ⟨1, 7⟩, ⟨1, 8⟩⟩,
    ⟨.rightBracket, "]", ⟨1, 8⟩, ⟨1, 9⟩⟩]
  have split : (Lexeme.scan "[1, [2]]").lexemes = before ++ rest := by decide +kernel
  have whole : (Lexeme.scan text).bad = none := by decide +kernel
  have sameKinds : (Lexeme.scan text).lexemes.map Lexeme.kind = before.map Lexeme.kind := by decide +kernel
  obtain ⟨_, submitted, beginnings⟩ := openDepth_is_exact.1 _ _ parsed
  obtain ⟨counted, _⟩ := beginnings text before rest split whole sameKinds
  have missing : rest.countP (·.kind.closes) = 2 ∧ rest.countP (·.kind.opens) = 0 := by decide
  rw [missing.1, missing.2] at counted
  have two : Lexeme.openDepth text = 2 := Int.ofNat_inj.mp counted
  have opened := openDepth_is_exact.2 text (by rw [two]; decide)
  rw [two] at opened
  exact ⟨⟨_, parsed⟩, submitted, two, opened⟩

end TreeWalk
