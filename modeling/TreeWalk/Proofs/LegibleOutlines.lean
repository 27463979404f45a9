import TreeWalk.Proofs.Joining
import TreeWalk.Proofs.Numerals
import Mathlib.Data.List.Nodup

/-! An outline determines its tree.

The outline of a tree has one line for each of its parts, from the root on and from the first child to the last.
Where a part belongs shows in its margin alone, and texts stand there as they are, with all line breaks and
blanks in them. Two facts make up for that. A line tells how far in it is and what it shows, because what stands
after the margin begins with a word, and only the text of a leaf comes after its word. And a list of such rows
can be divided among the trees of a forest in one way only: a tree goes on for as long as rows are further in
than its first one. -/
namespace TreeWalk

open Grammar

namespace Tree

/-- What one line of an outline shows. -/
inductive Head where
  | node (label : Label)
  | leaf (kind : LeafKind) (text : String)
  | absent

/-- A line of an outline, before it is written: how far in it is, and what it shows. -/
structure Row where
  depth : Nat
  head : Head

mutual

/-- The rows of a tree. -/
def rows (depth : Nat) : Tree → List Row
  | node label children => ⟨depth, .node label⟩ :: rowsAll (depth + 1) children
  | leaf kind text => [⟨depth, .leaf kind text⟩]
  | absent => [⟨depth, .absent⟩]

/-- The rows of the trees of a list, one after the other. -/
def rowsAll (depth : Nat) : List Tree → List Row
  | [] => []
  | tree :: trees => rows depth tree ++ rowsAll depth trees

end

/-- What a tree shows in its first row. -/
def head : Tree → Head
  | node label _ => .node label
  | leaf kind text => .leaf kind text
  | absent => .absent

def offspring : Tree → List Tree
  | node _ children => children
  | leaf .. | absent => []

theorem rows_eq (depth : Nat) (tree : Tree) :
    rows depth tree = ⟨depth, tree.head⟩ :: rowsAll (depth + 1) tree.offspring := by
  cases tree <;> rfl

theorem eq_of_head_of_offspring {tree other : Tree} (head : tree.head = other.head)
    (offspring : tree.offspring = other.offspring) : tree = other := by
  cases tree <;> cases other <;> simp_all [Tree.head, Tree.offspring]

/-- What comes after the trees of a list: nothing, or a row that is not as far in. -/
def Closes (depth : Nat) (rest : List Row) : Prop := ∀ row ∈ rest.head?, row.depth < depth

theorem Closes.nil (depth : Nat) : Closes depth [] := by
  intro row none
  cases none

/-- The next tree of a list closes all that is inside the one before. -/
theorem Closes.append (closes : Closes depth rest) (trees : List Tree) :
    Closes (depth + 1) (rowsAll depth trees ++ rest) := by
  intro row first
  cases trees with
  | nil => exact Nat.lt_succ_of_lt (closes row first)
  | cons tree trees =>
    rw [rowsAll, rows_eq, List.append_assoc, List.cons_append, List.head?_cons] at first
    cases first
    exact Nat.lt_succ_self depth

theorem rowsAll_cons (depth : Nat) (tree : Tree) (trees : List Tree) (rest : List Row) :
    rowsAll depth (tree :: trees) ++ rest =
      ⟨depth, tree.head⟩ :: (rowsAll (depth + 1) tree.offspring ++ (rowsAll depth trees ++ rest)) := by
  rw [rowsAll, rows_eq, List.append_assoc, List.cons_append]

theorem length_rowsAll_cons (depth : Nat) (tree : Tree) (trees : List Tree) :
    (rowsAll depth (tree :: trees)).length =
      (rowsAll (depth + 1) tree.offspring).length + (rowsAll depth trees).length + 1 := by
  rw [rowsAll, rows_eq, List.length_append, List.length_cons, Nat.add_right_comm]

/-- Rows can be divided into those of a list of trees and a rest that closes it in one way only. -/
theorem eq_of_rowsAll {trees others : List Tree}
    (same : rowsAll depth trees ++ rest = rowsAll depth others ++ rest') (closes : Closes depth rest)
    (closes' : Closes depth rest') : trees = others ∧ rest = rest' := by
  induction size : (rowsAll depth trees).length using Nat.strongRecOn
    generalizing depth trees others rest rest' with
  | ind count ih =>
    cases trees with
    | nil =>
      cases others with
      | nil => exact ⟨rfl, same⟩
      | cons other others =>
        rw [rowsAll_cons] at same
        cases same
        exact absurd (closes _ rfl) (Nat.lt_irrefl depth)
    | cons tree trees =>
      rw [length_rowsAll_cons] at size
      cases others with
      | nil =>
        rw [rowsAll_cons] at same
        cases same
        exact absurd (closes' _ rfl) (Nat.lt_irrefl depth)
      | cons other others =>
        rw [rowsAll_cons, rowsAll_cons, List.cons.injEq, Row.mk.injEq] at same
        obtain ⟨⟨_, sameHead⟩, sameRest⟩ := same
        -- What is inside the first tree is closed by the next tree, or else by the rest.
        obtain ⟨sameChildren, sameMore⟩ :=
          ih _ (by omega) sameRest (closes.append trees) (closes'.append others) rfl
        obtain ⟨sameTrees, sameEnd⟩ := ih _ (by omega) sameMore closes closes' rfl
        rw [eq_of_head_of_offspring sameHead sameChildren, sameTrees]
        exact ⟨rfl, sameEnd⟩

theorem eq_of_rows {tree other : Tree} (same : rows depth tree = rows depth other) : tree = other := by
  have whole : rowsAll depth [tree] ++ [] = rowsAll depth [other] ++ [] := by simp [rowsAll, same]
  simpa using (eq_of_rowsAll whole (.nil depth) (.nil depth)).1

/-- The margin of a row. -/
def margin : Nat → String
  | 0 => ""
  | depth + 1 => margin depth ++ "  "

namespace Head

/-- The first word after the margin. -/
def word : Head → String
  | .node label => label.name
  | .leaf kind _ => Text.lower kind.name
  | .absent => "-"

/-- What comes after the first word. -/
def afterWord : Head → String
  | .leaf _ text => "  " ++ text
  | .node _ | .absent => ""

end Head

/-- The line of a row. -/
def Row.line (row : Row) : String := margin row.depth ++ (row.head.word ++ row.head.afterWord)

mutual

theorem outlineFrom_eq (depth : Nat) (tree : Tree) :
    outlineFrom (margin depth) tree = (rows depth tree).map Row.line := by
  cases tree with
  | node label children =>
    rw [outlineFrom, rows, List.map_cons, ← outlineAll_eq (depth + 1) children, Row.line]
    simp [Head.word, Head.afterWord, margin]
  | leaf kind text => simp [outlineFrom, rows, Row.line, Head.word, Head.afterWord, String.append_assoc]
  | absent => simp [outlineFrom, rows, Row.line, Head.word, Head.afterWord]

theorem outlineAll_eq (depth : Nat) (trees : List Tree) :
    outlineAll (margin depth) trees = (rowsAll depth trees).map Row.line := by
  cases trees with
  | nil => rfl
  | cons tree trees =>
    rw [outlineAll, rowsAll, List.map_append, outlineFrom_eq depth tree, outlineAll_eq depth trees]

end

/-- A text without blanks that is not empty. -/
def IsWord (text : String) : Prop := text.toList ≠ [] ∧ ∀ c ∈ text.toList, (c == ' ') = false

theorem toList_margin (depth : Nat) : (margin depth).toList = List.replicate (2 * depth) ' ' := by
  induction depth with
  | zero => rfl
  | succ depth ih =>
    rw [margin, String.toList_append, ih, Nat.mul_succ, ← List.replicate_append_replicate]
    rfl

/-- A line that begins with blanks and a word tells how many blanks there are, and what the word is. -/
theorem eq_of_blanks_word {size size' : Nat} {word word' after after' : List Char}
    (same : List.replicate size ' ' ++ (word ++ after) = List.replicate size' ' ' ++ (word' ++ after'))
    (filled : word ≠ []) (filled' : word' ≠ []) (solid : ∀ c ∈ word, (c == ' ') = false)
    (solid' : ∀ c ∈ word', (c == ' ') = false) (ends : ∀ c ∈ after.head?, c = ' ')
    (ends' : ∀ c ∈ after'.head?, c = ' ') : size = size' ∧ word = word' ∧ after = after' := by
  have noBlanks : ∀ (size : Nat) {word after : List Char}, word ≠ [] → (∀ c ∈ word, (c == ' ') = false) →
      (List.replicate size ' ' ++ (word ++ after)).dropWhile (· == ' ') = word ++ after := by
    intro size word after filled solid
    refine Decimal.dropWhile_append_eq (fun c member => ?_) (fun c first => ?_)
    · rw [List.eq_of_mem_replicate member]
      rfl
    · rw [Decimal.head?_append_of_filled filled] at first
      exact solid c (List.mem_of_mem_head? first)
  have noWord : ∀ {word after : List Char}, (∀ c ∈ word, (c == ' ') = false) →
      (∀ c ∈ after.head?, c = ' ') → (word ++ after).dropWhile (!· == ' ') = after := by
    intro word after solid ends
    refine Decimal.dropWhile_append_eq (fun c member => ?_) (fun c first => ?_)
    · rw [solid c member]
      rfl
    · rw [ends c first]
      rfl
  have rest : word ++ after = word' ++ after' := by
    rw [← noBlanks size filled solid, same, noBlanks size' filled' solid']
  have last : after = after' := by rw [← noWord solid ends, rest, noWord solid' ends']
  rw [rest] at same
  have lengths := congrArg List.length (List.append_cancel_right same)
  rw [List.length_replicate, List.length_replicate] at lengths
  rw [last] at rest
  exact ⟨lengths, List.append_cancel_right rest, last⟩

namespace Head

/-- What the rows of a legible tree show. -/
def Legible : Head → Prop
  | .node label => label ∈ Label.known
  | .leaf kind _ => ∃ t : Terminal, kind = .terminal t
  | .absent => True

theorem names_nodup : (Label.known.map Label.name).Nodup := by decide

theorem kinds_nodup : (Terminal.all.map fun t => Text.lower t.name).Nodup := by decide +kernel

theorem names_words : ∀ label ∈ Label.known, (label.name.toList ≠ [] ∧ label.name.toList.all (· ≠ ' ')) ∧
    label.name ≠ "-" := by decide

theorem kinds_words : ∀ t ∈ Terminal.all, (Text.lower t.name).toList ≠ [] ∧
    (Text.lower t.name).toList.all (· ≠ ' ') := by decide +kernel

theorem Legible.isWord {head : Head} (legible : head.Legible) : IsWord head.word := by
  have of_all : ∀ text : String, (text.toList ≠ [] ∧ text.toList.all (· ≠ ' ')) → IsWord text := by
    rintro text ⟨filled, solid⟩
    exact ⟨filled, by simpa using solid⟩
  cases head with
  | node label => exact of_all _ (names_words label legible).1
  | leaf kind text =>
    obtain ⟨t, rfl⟩ := legible
    exact of_all _ (kinds_words t t.mem_all)
  | absent => exact of_all _ (by decide)

theorem head?_afterWord (head : Head) : ∀ c ∈ head.afterWord.toList.head?, c = ' ' := by
  intro c first
  cases head with
  | leaf kind text =>
    rw [afterWord, String.toList_append] at first
    cases first
    rfl
  | node | absent => cases first

theorem append_ne_empty (text : String) : "  " ++ text ≠ "" := by
  intro empty
  have none := congrArg String.toList empty
  rw [String.toList_append] at none
  cases none

/-- The words and what comes after tell legible heads apart. -/
theorem Legible.eq_of_word {head other : Head} (legible : head.Legible) (legible' : other.Legible)
    (sameWord : head.word = other.word) (sameAfter : head.afterWord = other.afterWord) : head = other := by
  cases head with
  | node label =>
    cases other with
    | node label' => rw [List.inj_on_of_nodup_map names_nodup legible legible' sameWord]
    | leaf kind' text' => exact absurd sameAfter.symm (append_ne_empty text')
    | absent => exact absurd sameWord (names_words label legible).2
  | leaf kind text =>
    cases other with
    | leaf kind' text' =>
      obtain ⟨t, rfl⟩ := legible
      obtain ⟨t', rfl⟩ := legible'
      have sameKind := List.inj_on_of_nodup_map kinds_nodup t.mem_all t'.mem_all sameWord
      rw [sameKind, (String.append_right_inj "  ").mp sameAfter]
    | node | absent => exact absurd sameAfter (append_ne_empty text)
  | absent =>
    cases other with
    | node label' => exact absurd sameWord.symm (names_words label' legible').2
    | leaf kind' text' => exact absurd sameAfter.symm (append_ne_empty text')
    | absent => rfl

end Head

theorem Row.eq_of_line {row other : Row} (legible : row.head.Legible) (legible' : other.head.Legible)
    (same : row.line = other.line) : row = other := by
  obtain ⟨depth, head⟩ := row
  obtain ⟨depth', head'⟩ := other
  have chars := congrArg String.toList same
  simp only [line, String.toList_append, toList_margin] at chars
  obtain ⟨sameSize, sameWord, sameAfter⟩ := eq_of_blanks_word chars legible.isWord.1 legible'.isWord.1
    legible.isWord.2 legible'.isWord.2 head.head?_afterWord head'.head?_afterWord
  have sameDepth : depth = depth' := by omega
  have sameHead : head = head' :=
    legible.eq_of_word legible' (String.toList_inj.mp sameWord) (String.toList_inj.mp sameAfter)
  rw [sameDepth, sameHead]

theorem eq_of_lines {rows others : List Row} (legible : ∀ row ∈ rows, row.head.Legible)
    (legible' : ∀ row ∈ others, row.head.Legible) (same : rows.map Row.line = others.map Row.line) :
    rows = others := by
  induction rows generalizing others with
  | nil => exact (List.map_eq_nil_iff.mp same.symm).symm
  | cons row rows ih =>
    obtain ⟨other, others, rfl, sameLine, sameLines⟩ := List.map_eq_cons_iff.mp same.symm
    obtain ⟨first, further⟩ := List.forall_mem_cons.mp legible
    obtain ⟨first', further'⟩ := List.forall_mem_cons.mp legible'
    rw [Row.eq_of_line first first' sameLine.symm, ih further further' sameLines.symm]

/-- Trees with labels and leaf kinds of the language. -/
inductive Legible : Tree → Prop where
  | node (known : label ∈ Label.known) (inside : ∀ child ∈ parts, Legible child) : Legible (.node label parts)
  | leaf (kind : Terminal) (text : String) : Legible (.leaf (.terminal kind) text)
  | absent : Legible .absent

namespace Legible

theorem pair {first second : Tree} (known : label ∈ Label.known) (inFirst : first.Legible)
    (inSecond : second.Legible) : Legible (.node label [first, second]) :=
  .node known (List.forall_mem_cons.mpr ⟨inFirst, List.forall_mem_singleton.mpr inSecond⟩)

theorem triple {first second third : Tree} (known : label ∈ Label.known) (inFirst : first.Legible)
    (inSecond : second.Legible) (inThird : third.Legible) : Legible (.node label [first, second, third]) := by
  refine .node known (List.forall_mem_cons.mpr ⟨inFirst, List.forall_mem_cons.mpr ⟨inSecond, ?_⟩⟩)
  exact List.forall_mem_singleton.mpr inThird

mutual

theorem rows_legible {tree : Tree} (legible : tree.Legible) (depth : Nat) :
    ∀ row ∈ rows depth tree, row.head.Legible := by
  cases tree with
  | node label children =>
    cases legible with
    | node known inside => exact List.forall_mem_cons.mpr ⟨known, rowsAll_legible inside (depth + 1)⟩
  | leaf kind text =>
    cases legible with
    | leaf t => exact List.forall_mem_singleton.mpr ⟨t, rfl⟩
  | absent => exact List.forall_mem_singleton.mpr trivial

theorem rowsAll_legible {trees : List Tree} (legible : ∀ tree ∈ trees, tree.Legible) (depth : Nat) :
    ∀ row ∈ rowsAll depth trees, row.head.Legible := by
  cases trees with
  | nil => exact List.forall_mem_nil _
  | cons tree trees =>
    obtain ⟨first, others⟩ := List.forall_mem_cons.mp legible
    exact List.forall_mem_append.mpr ⟨rows_legible first depth, rowsAll_legible others depth⟩

end

/-- The outline of a legible tree is that of no other legible tree. -/
theorem eq_of_outline {tree other : Tree} (legible : tree.Legible) (legible' : other.Legible)
    (same : tree.outline = other.outline) : tree = other := by
  have lines : (rows 0 tree).map Row.line = (rows 0 other).map Row.line := by
    rw [← outlineFrom_eq, ← outlineFrom_eq]
    exact same
  exact eq_of_rows (eq_of_lines (legible.rows_legible 0) (legible'.rows_legible 0) lines)

end Legible

variable {spelled : Terminal → String → Prop}

theorem IsLeaf.legible (isLeaf : IsLeaf spelled kinds tree) : tree.Legible := by
  obtain ⟨kind, _, text, _, rfl⟩ := isLeaf
  exact .leaf kind text

mutual

theorem IsExpression.legible {tree : Tree} : IsExpression spelled tree → tree.Legible
  | .atom isAtom => isAtom.legible
  | .array items => .node (by decide) fun item member => (items item member).legible
  | .function names block => by
    have params : Legible (.node .params _) := .node (by decide) fun name member => (names name member).legible
    exact .pair (by decide) params block.legible
  | .call called passed => by
    have args : Legible (.node .args _) := .node (by decide) fun arg member => (passed arg member).legible
    exact .pair (by decide) called.legible args
  | .index left right => .pair (by decide) left.legible right.legible
  | .binary left between right => .triple (by decide) left.legible between.legible right.legible
  | .unary before right => .pair (by decide) before.legible right.legible
  | .branch tested block => .triple (by decide) tested.legible block.legible .absent
  | .branchElse tested block other => .triple (by decide) tested.legible block.legible other.legible

theorem IsStatement.legible {tree : Tree} : IsStatement spelled tree → tree.Legible
  | .evaluation value | .returning value => .node (by decide) (List.forall_mem_singleton.mpr value.legible)
  | .declaration target value | .assignment target value => .pair (by decide) target.legible value.legible
  | .loop origin each counted block => by
    refine .node (by decide) (List.forall_mem_cons.mpr ⟨origin.legible, ?_⟩)
    refine List.forall_mem_cons.mpr ⟨each.legible, ?_⟩
    refine List.forall_mem_cons.mpr ⟨?_, List.forall_mem_singleton.mpr block.legible⟩
    rcases counted with rfl | isName
    · exact .absent
    · exact isName.legible

theorem IsBlock.legible {tree : Tree} : IsBlock spelled tree → tree.Legible
  | .block steps => .node (by decide) fun step member => (steps step member).legible

end

theorem IsProgram.legible {tree : Tree} (isProgram : IsProgram spelled tree) : tree.Legible := by
  obtain ⟨statements, steps, rfl⟩ := isProgram
  exact .node (by decide) fun step member => (steps step member).legible

end Tree

/-- Two parsed trees with the same outline are the same tree. -/
theorem outline_determines_parsed_tree (parsed : parse source = .ok tree) (parsed' : parse source' = .ok tree')
    (same : tree.outline = tree'.outline) : tree = tree' := by
  have wellFormed : tree.WellFormed := wellFormed_of_derive automaton_belongs parsed
  have wellFormed' : tree'.WellFormed := wellFormed_of_derive automaton_belongs parsed'
  exact wellFormed.legible.eq_of_outline wellFormed'.legible same

/-- Two ways to write a string with a line break and what looks like a line of an outline in it. -/
theorem outline_determines_parsed_tree_of_misleading_string :
    let tree : Tree := .node .program [.node .evaluation [.leaf (.terminal .string) "\n    ident  x"]]
    let tree' : Tree := .node .program [.node .evaluation [.leaf (.terminal .string) "\n    ident  x"]]
    parse "\"\\n    ident  x\"" = .ok tree ∧ parse " \"\\n\\    \\ident  \\x\" // x" = .ok tree' ∧
      tree.outline = ["program", "  expr_stmt", "    string  \n    ident  x"] ∧
      tree'.outline = ["program", "  expr_stmt", "    string  \n    ident  x"] ∧ tree = tree' := by
  intro tree tree'
  have scanned : Lexeme.scan "\"\\n    ident  x\"" =
      ⟨[⟨.string, "\"\\n    ident  x\"", ⟨1, 1⟩, ⟨1, 17⟩⟩], none⟩ := by decide +kernel
  have scanned' : Lexeme.scan " \"\\n\\    \\ident  \\x\" // x" =
      ⟨[⟨.string, "\"\\n\\    \\ident  \\x\"", ⟨1, 2⟩, ⟨1, 21⟩⟩], none⟩ := by decide +kernel
  have parsed : parse "\"\\n    ident  x\"" = .ok tree := derive_atom automaton_belongs scanned (by decide)
  have parsed' : parse " \"\\n\\    \\ident  \\x\" // x" = .ok tree' :=
    derive_atom automaton_belongs scanned' (by decide)
  have outline : tree.outline = ["program", "  expr_stmt", "    string  \n    ident  x"] := by decide +kernel
  exact ⟨parsed, parsed', outline, outline, outline_determines_parsed_tree parsed parsed' rfl⟩

end TreeWalk
