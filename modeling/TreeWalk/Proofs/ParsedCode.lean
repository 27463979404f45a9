import TreeWalk.Proofs.Numerals
import TreeWalk.Proofs.ReturnPlacement
import Mathlib.Data.List.Nodup

/-! The code of parsed programs.

Code can report a fault, for the sake of trees that were put together by hand. The code of a well-formed
tree has no fault in it anywhere: numerals can be read, names are where they are asked for, nodes have
all their children. All parts of such code are again code of well-formed trees, which makes it something
that a run can keep. -/
namespace TreeWalk

open TreeWalk.Tree

namespace Code

/-- Code of a well-formed tree. -/
inductive Parsed : Code → Prop where
  | expression (form : IsExpression Terminal.Spells tree) : Parsed (ofTree tree)
  | statement (form : IsStatement Terminal.Spells tree) : Parsed (ofTree tree)
  | block (form : IsBlock Terminal.Spells tree) : Parsed (ofTree tree)
  | program (form : IsProgram Terminal.Spells tree) : Parsed (ofTree tree)

/-- The statements of a well-formed block. -/
def IsBody (body : List Code) : Prop :=
  ∃ statements, (∀ statement ∈ statements, IsStatement Terminal.Spells statement) ∧ body = ofTrees statements

/-- Code that has no fault, and neither have its parts; a function literal repeats no parameter. -/
structure Faultless (code : Code) : Prop where
  notFault : ∀ fault, code ≠ .fault fault
  operands : ∀ part ∈ code.operands, part.Parsed
  statements : ∀ part ∈ code.statements, part.Parsed
  enclosed : ∀ part ∈ code.enclosed, part.Parsed
  literal : ∀ params body, code = .function params body → params.Nodup ∧ IsBody body

namespace Faultless

/-- Code that is neither a fault nor a function literal has no parts but those it runs. -/
theorem of_parts {code : Code} (notFault : ∀ fault, code ≠ .fault fault)
    (notFunction : ∀ params body, code ≠ .function params body)
    (operands : ∀ part ∈ code.operands, part.Parsed) (statements : ∀ part ∈ code.statements, part.Parsed)
    (enclosed : ∀ part ∈ code.enclosed, part.Parsed) : code.Faultless :=
  ⟨notFault, operands, statements, enclosed, fun params body same => absurd same (notFunction params body)⟩

theorem leaf (isAtom : IsLeaf Terminal.Spells atoms tree) : (ofTree tree).Faultless := by
  obtain ⟨kind, member, text, spells, rfl⟩ := isAtom
  have known : kind = .integer ∨ kind = .string ∨ kind = .trueWord ∨ kind = .falseWord ∨ kind = .identifier := by
    simpa [atoms] using member
  rcases known with rfl | rfl | rfl | rfl | rfl
  · have isInt : ofTree (.leaf (.terminal .integer) text) = .int (Nat.ofDigitChars 10 text.toList 0 : Nat) := by
      simp [ofTree, ofLeaf, Decimal.read?_of_isNumeral spells]
    rw [isInt]
    exact of_parts nofun nofun nofun nofun nofun
  all_goals exact of_parts nofun nofun nofun nofun nofun

end Faultless

theorem parsed_of_expressions (form : ∀ tree ∈ trees, IsExpression Terminal.Spells tree) :
    ∀ part ∈ ofTrees trees, part.Parsed :=
  forall_mem_ofTrees.mpr fun tree member => .expression (form tree member)

theorem parsed_of_statements (form : ∀ tree ∈ trees, IsStatement Terminal.Spells tree) :
    ∀ part ∈ ofTrees trees, part.Parsed :=
  forall_mem_ofTrees.mpr fun tree member => .statement (form tree member)

/-- Parameters are read as distinct names, or the first one that repeats is reported as an error. -/
theorem paramsAfter_of_names (names : ∀ tree ∈ trees, IsName Terminal.Spells tree) (distinct : seen.Nodup) :
    (∃ params, paramsAfter seen trees = .ok params ∧ params.Nodup) ∨
      ∃ name, paramsAfter seen trees = .error (.fail (.repeatedParameter name)) := by
  induction trees generalizing seen with
  | nil => exact .inl ⟨seen.reverse, rfl, List.nodup_reverse.mpr distinct⟩
  | cons tree trees ih =>
    obtain ⟨isName, others⟩ := List.forall_mem_cons.mp names
    obtain ⟨name, rfl⟩ := isName.text
    by_cases repeats : name ∈ seen
    · exact .inr ⟨name, by simp [paramsAfter, nameIn, identifier?, repeats]⟩
    · have rest := ih others (List.nodup_cons.mpr ⟨repeats, distinct⟩)
      simpa [paramsAfter, nameIn, identifier?, repeats] using rest

namespace Faultless

theorem function (names : ∀ param ∈ params, IsName Terminal.Spells param)
    (steps : ∀ statement ∈ trees, IsStatement Terminal.Spells statement) :
    (ofTree (.node .function [.node .params params, .node .block trees])).Faultless := by
  rw [ofTree, makeFunction, paramsOf]
  rcases paramsAfter_of_names names List.nodup_nil with ⟨params', read, distinct⟩ | ⟨name, read⟩
  · rw [read]
    refine ⟨nofun, nofun, nofun, parsed_of_statements steps, ?_⟩
    rintro params body ⟨rfl, rfl⟩
    exact ⟨distinct, trees, steps, rfl⟩
  · rw [read]
    exact of_parts nofun nofun nofun nofun nofun

theorem expression (form : IsExpression Terminal.Spells tree) : (ofTree tree).Faultless := by
  cases form with
  | atom isAtom => exact leaf isAtom
  | array items => exact of_parts nofun nofun (parsed_of_expressions items) nofun nofun
  | function names isBlock =>
    cases isBlock with
    | block steps => exact function names steps
  | call called passed =>
    refine of_parts nofun nofun ?_ nofun nofun
    exact List.forall_mem_cons.mpr ⟨.expression called, parsed_of_expressions passed⟩
  | index left right =>
    refine of_parts nofun nofun ?_ nofun nofun
    exact List.forall_mem_cons.mpr ⟨.expression left, List.forall_mem_singleton.mpr (.expression right)⟩
  | binary left _ right =>
    refine of_parts nofun nofun ?_ nofun nofun
    exact List.forall_mem_cons.mpr ⟨.expression left, List.forall_mem_singleton.mpr (.expression right)⟩
  | unary _ right => exact of_parts nofun nofun (List.forall_mem_singleton.mpr (.expression right)) nofun nofun
  | branch tested isBlock =>
    have empty : Parsed (ofTree (.node .block [])) := .block (.block nofun)
    refine of_parts nofun nofun (List.forall_mem_singleton.mpr (.expression tested)) ?_ nofun
    exact List.forall_mem_cons.mpr ⟨.block isBlock, List.forall_mem_singleton.mpr empty⟩
  | @branchElse condition consequence alternative tested isBlock other =>
    have reads : ofTree (.node .branch [condition, consequence, alternative]) =
        .branch (ofTree condition) (ofTree consequence) (ofTree alternative) := by
      cases other with
      | block => rfl
    rw [reads]
    refine of_parts nofun nofun (List.forall_mem_singleton.mpr (.expression tested)) ?_ nofun
    exact List.forall_mem_cons.mpr ⟨.block isBlock, List.forall_mem_singleton.mpr (.block other)⟩

theorem block (form : IsBlock Terminal.Spells tree) : (ofTree tree).Faultless := by
  cases form with
  | block steps => exact of_parts nofun nofun nofun (parsed_of_statements steps) nofun

theorem statement (form : IsStatement Terminal.Spells tree) : (ofTree tree).Faultless := by
  cases form with
  | @evaluation tree value =>
    have faultless : (ofTree tree).Faultless := expression value
    exact faultless
  | declaration target value | assignment target value =>
    obtain ⟨name, rfl⟩ := target.text
    exact of_parts nofun nofun (List.forall_mem_singleton.mpr (.expression value)) nofun nofun
  | returning value => exact of_parts nofun nofun (List.forall_mem_singleton.mpr (.expression value)) nofun nofun
  | loop origin each counted isBlock =>
    obtain ⟨source, element, index, reads⟩ := ofTree_loop origin each counted isBlock
    rw [reads]
    exact of_parts nofun nofun nofun (block isBlock).statements nofun

end Faultless

/-- What it takes for a function literal to have no fault. -/
theorem faultless_function_iff : (function params body).Faultless ↔ params.Nodup ∧ IsBody body := by
  refine ⟨fun faultless => faultless.literal params body rfl, ?_⟩
  rintro ⟨distinct, trees, steps, rfl⟩
  refine ⟨nofun, nofun, nofun, parsed_of_statements steps, ?_⟩
  rintro params' body' ⟨rfl, rfl⟩
  exact ⟨distinct, trees, steps, rfl⟩

/-- The code of a well-formed tree has no fault anywhere. -/
theorem Parsed.faultless {code : Code} (parsed : code.Parsed) : code.Faultless := by
  cases parsed with
  | expression form => exact .expression form
  | statement form => exact .statement form
  | block form => exact .block form
  | program form =>
    obtain ⟨statements, steps, rfl⟩ := form
    exact .of_parts nofun nofun nofun nofun (parsed_of_statements steps)

end Code

end TreeWalk
