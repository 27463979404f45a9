import TreeWalk.Proofs.ReturnDiscipline
import TreeWalk.Proofs.TreeForm

/-! Where a `return` may stand in a program.

Of all expressions only a branch has statements of its own, so only a branch can hold a `return` that is
not inside a function literal. In a well-formed program it is therefore enough to keep branches with a
`return` out of the places where a value is worked on: the code of such a program is disciplined. -/
namespace TreeWalk

namespace Tree

/-- There is a `return` in the tree, outside of all function literals in it. -/
inductive ContainsReturn : Tree → Prop where
  | here : ContainsReturn (.node .returning children)
  | inside (around : label ≠ .function) (member : child ∈ children) (deeper : ContainsReturn child) :
      ContainsReturn (.node label children)

/-- The trees in value position under a node: operands, callee and arguments, elements, the value that is
bound or returned, and the condition of a branch. -/
def valueParts : Label → List Tree → List Tree
  | .binary, [first, _, second] => [first, second]
  | .unary, [_, operand] => [operand]
  | .index, [whole, place] => [whole, place]
  | .call, [callee, .node _ args] => callee :: args
  | .array, elements => elements
  | .declaration, [_, value] | .assignment, [_, value] => [value]
  | .returning, [value] => [value]
  | .branch, condition :: _ => [condition]
  | _, _ => []

/-- No branch in value position contains a `return`. -/
inductive ReturnDisciplined : Tree → Prop where
  | leaf : ReturnDisciplined (.leaf kind text)
  | absent : ReturnDisciplined .absent
  | node (values : ∀ part ∈ valueParts label children, part.label? = some .branch → ¬ part.ContainsReturn)
      (parts : ∀ child ∈ children, ReturnDisciplined child) : ReturnDisciplined (.node label children)

theorem ReturnDisciplined.child (disciplined : ReturnDisciplined (.node label children))
    (member : tree ∈ children) : ReturnDisciplined tree := by
  cases disciplined with
  | node _ parts => exact parts tree member

/-- The code of the tree is disciplined, and if it holds a `return`, so does the tree. -/
def Transfers (tree : Tree) : Prop :=
  (Code.ofTree tree).Disciplined ∧ ((Code.ofTree tree).HoldsReturn → tree.ContainsReturn)

/-- The code of an expression holds no `return`, unless the expression is a branch. -/
def ValueTransfers (tree : Tree) : Prop :=
  (Code.ofTree tree).Steady ∨ tree.label? = some .branch ∧ tree.Transfers

theorem transfers_of_steady {tree : Tree} (steady : (Code.ofTree tree).Steady) : tree.Transfers :=
  ⟨steady.1, fun holds => absurd holds steady.2⟩

theorem ValueTransfers.transfers {tree : Tree} (transfers : tree.ValueTransfers) : tree.Transfers := by
  rcases transfers with steady | ⟨_, transfers⟩
  · exact transfers_of_steady steady
  · exact transfers

theorem ReturnDisciplined.steady (disciplined : ReturnDisciplined (.node label children))
    (position : part ∈ valueParts label children) (transfers : ValueTransfers part) :
    (Code.ofTree part).Steady := by
  cases disciplined with
  | node values _ =>
    rcases transfers with steady | ⟨isBranch, transfers⟩
    · exact steady
    · exact ⟨transfers.1, fun holds => values part position isBranch (transfers.2 holds)⟩

end Tree

namespace Code

theorem fault_steady (fault : Fault) : (Code.fault fault).Steady :=
  Ordinary.steady trivial (by simp [operands]) rfl

theorem ofLeaf_steady (kind : LeafKind) (text : String) : (ofLeaf kind text).Steady := by
  have bare : ∀ code : Code, code.Ordinary → code.operands = [] → code.enclosed = [] → code.Steady :=
    fun code ordinary operands enclosed => ordinary.steady (by simp [operands]) enclosed
  unfold ofLeaf
  split
  · split
    · exact bare _ trivial rfl rfl
    · exact fault_steady _
  · exact bare _ trivial rfl rfl
  · exact bare _ trivial rfl rfl
  · exact bare _ trivial rfl rfl
  · exact bare _ trivial rfl rfl
  · exact fault_steady _

theorem ofTrees_eq_map (trees : List Tree) : ofTrees trees = trees.map ofTree := by
  induction trees with
  | nil => rfl
  | cons tree trees ih => rw [ofTrees, ih, List.map_cons]

/-- A property of the code of all trees in a row. -/
theorem forall_mem_ofTrees {property : Code → Prop} :
    (∀ part ∈ ofTrees trees, property part) ↔ ∀ tree ∈ trees, property (ofTree tree) := by
  rw [ofTrees_eq_map, List.forall_mem_map]

theorem paramsAfter_error (refused : paramsAfter seen trees = .error code) : code.Steady := by
  fun_induction paramsAfter seen trees with
  | case1 => cases refused
  | case2 seen tree trees reason missing =>
    rw [nameIn] at missing
    split at missing
    · cases missing
    · cases missing
      cases refused
      exact fault_steady _
  | case3 =>
    cases refused
    exact Ordinary.steady trivial (by simp [operands]) rfl
  | case4 seen tree trees name found unseen ih => exact ih refused

/-- A function literal whose body is disciplined. -/
theorem makeFunction_steady (params : Tree) {body : List Code}
    (disciplined : ∀ part ∈ body, part.Disciplined) :
    (makeFunction params body).Steady := by
  unfold makeFunction
  split
  · rename_i names _
    have literal : (function names body).Disciplined :=
      .of_steady (by simp [operands]) (by simp [statements]) disciplined
    exact ⟨literal, Ordinary.not_holdsReturn trivial literal⟩
  · rename_i refused
    unfold paramsOf at refused
    split at refused
    · exact paramsAfter_error refused
    · cases refused

end Code

namespace Tree

/-- A branch transfers if its condition may be worked on and its arms transfer. -/
theorem transfers_branch (reads : Code.ofTree (.node .branch [condition, consequence, alternative]) =
      .branch (Code.ofTree condition) (Code.ofTree consequence) otherwise)
    (steady : (Code.ofTree condition).Steady) (first : consequence.Transfers)
    (second : otherwise.Disciplined ∧ (otherwise.HoldsReturn → alternative.ContainsReturn)) :
    Transfers (.node .branch [condition, consequence, alternative]) := by
  have notFunction : Label.branch ≠ .function := by decide
  rw [Transfers, reads]
  constructor
  · refine .of_steady ?_ ?_ (by simp [Code.enclosed])
    · simpa [Code.operands] using steady
    · simpa [Code.statements] using ⟨first.1, second.1⟩
  · intro holds
    cases holds with
    | operand member inside =>
      rw [List.mem_singleton.mp member] at inside
      exact absurd inside steady.2
    | @statement part _ member inside =>
      have arm : part = Code.ofTree consequence ∨ part = otherwise := by
        simpa [Code.statements] using member
      rcases arm with rfl | rfl
      · exact .inside notFunction (by simp) (first.2 inside)
      · exact .inside notFunction (by simp) (second.2 inside)

/-- A loop runs the statements of its body, so it transfers if its body does. -/
theorem transfers_loop (reads : Code.ofTree (.node .loop children) =
      .loop source element index (Code.ofTree body).statements)
    (member : body ∈ children) (transfers : body.Transfers) : Transfers (.node .loop children) := by
  rw [Transfers, reads]
  constructor
  · refine .of_steady (by simp [Code.operands]) ?_ (by simp [Code.enclosed])
    exact fun part => transfers.1.statement
  · intro holds
    cases holds with
    | operand member => cases member
    | statement run inside => exact .inside (by decide) member (transfers.2 (.statement run inside))

variable {spelled : Terminal → String → Prop}

theorem ofTree_loop (origin : IsName spelled source) (each : IsName spelled element)
    (counted : index = .absent ∨ IsName spelled index) (isBlock : IsBlock spelled body) :
    ∃ source' element' index', Code.ofTree (.node .loop [source, element, index, body]) =
      .loop source' element' index' (Code.ofTree body).statements := by
  obtain ⟨source', rfl⟩ := origin.text
  obtain ⟨element', rfl⟩ := each.text
  cases isBlock with
  | block =>
    rcases counted with rfl | isName
    · exact ⟨source', element', none, rfl⟩
    · obtain ⟨index', rfl⟩ := isName.text
      exact ⟨source', element', some index', rfl⟩

mutual

/-- The discipline of an expression carries over to its code, and only a branch can hold a `return`. -/
theorem IsExpression.transfers {tree : Tree} :
    IsExpression spelled tree → tree.ReturnDisciplined → tree.ValueTransfers
  | .atom isAtom, _ => by
    obtain ⟨kind, _, text, _, rfl⟩ := isAtom
    exact .inl (Code.ofLeaf_steady _ text)
  | .array items, disciplined => by
    refine .inl (Code.Ordinary.steady trivial (Code.forall_mem_ofTrees.mpr ?_) rfl)
    intro item member
    exact disciplined.steady member ((items item member).transfers (disciplined.child member))
  | .function _ isBlock, disciplined => by
    have body := isBlock.transfers (disciplined.child (by simp))
    cases isBlock with
    | block steps => exact .inl (Code.makeFunction_steady _ fun part => body.1.statement)
  | .call called passed, disciplined => by
    refine .inl (Code.Ordinary.steady trivial (List.forall_mem_cons.mpr ⟨?_, ?_⟩) rfl)
    · exact disciplined.steady List.mem_cons_self (called.transfers (disciplined.child List.mem_cons_self))
    · refine Code.forall_mem_ofTrees.mpr fun arg member => ?_
      have arguments := disciplined.child (List.mem_cons_of_mem _ List.mem_cons_self)
      exact disciplined.steady (List.mem_cons_of_mem _ member)
        ((passed arg member).transfers (arguments.child member))
  | .index left right, disciplined => by
    have first := disciplined.steady (by simp [valueParts]) (left.transfers (disciplined.child (by simp)))
    have second := disciplined.steady (by simp [valueParts]) (right.transfers (disciplined.child (by simp)))
    refine .inl (Code.Ordinary.steady trivial ?_ rfl)
    exact List.forall_mem_cons.mpr ⟨first, List.forall_mem_singleton.mpr second⟩
  | .binary left _ right, disciplined => by
    have first := disciplined.steady (by simp [valueParts]) (left.transfers (disciplined.child (by simp)))
    have second := disciplined.steady (by simp [valueParts]) (right.transfers (disciplined.child (by simp)))
    refine .inl (Code.Ordinary.steady trivial ?_ rfl)
    exact List.forall_mem_cons.mpr ⟨first, List.forall_mem_singleton.mpr second⟩
  | .unary _ right, disciplined => by
    have only := disciplined.steady (by simp [valueParts]) (right.transfers (disciplined.child (by simp)))
    exact .inl (Code.Ordinary.steady trivial (List.forall_mem_singleton.mpr only) rfl)
  | .branch tested isBlock, disciplined => by
    have condition :=
      disciplined.steady (by simp [valueParts]) (tested.transfers (disciplined.child (by simp)))
    have consequence := isBlock.transfers (disciplined.child (by simp))
    refine .inr ⟨rfl, transfers_branch rfl condition consequence ⟨.of_no_parts rfl rfl rfl, fun holds => ?_⟩⟩
    cases holds with
    | operand member | statement member => cases member
  | .branchElse tested isBlock other, disciplined => by
    have condition :=
      disciplined.steady (by simp [valueParts]) (tested.transfers (disciplined.child (by simp)))
    have consequence := isBlock.transfers (disciplined.child (by simp))
    have alternative := other.transfers (disciplined.child (by simp))
    cases other with
    | block => exact .inr ⟨rfl, transfers_branch rfl condition consequence alternative⟩

/-- The discipline of a statement carries over to its code. -/
theorem IsStatement.transfers {tree : Tree} :
    IsStatement spelled tree → tree.ReturnDisciplined → tree.Transfers
  | .evaluation value, disciplined => by
    have transfers := (value.transfers (disciplined.child List.mem_cons_self)).transfers
    exact ⟨transfers.1, fun holds => .inside (by decide) List.mem_cons_self (transfers.2 holds)⟩
  | .declaration target value, disciplined | .assignment target value, disciplined => by
    have bound := disciplined.steady (by simp [valueParts]) (value.transfers (disciplined.child (by simp)))
    obtain ⟨name, rfl⟩ := target.text
    exact transfers_of_steady
      (Code.Ordinary.steady trivial (List.forall_mem_singleton.mpr bound) rfl)
  | .returning value, disciplined => by
    have returned := disciplined.steady (by simp [valueParts]) (value.transfers (disciplined.child (by simp)))
    refine ⟨.of_steady (List.forall_mem_singleton.mpr returned) ?_ ?_, fun _ => .here⟩
    · exact List.forall_mem_nil _
    · exact List.forall_mem_nil _
  | .loop origin each counted isBlock, disciplined => by
    have body := isBlock.transfers (disciplined.child (by simp))
    obtain ⟨source, element, index, reads⟩ := ofTree_loop origin each counted isBlock
    exact transfers_loop reads (by simp) body

/-- The discipline of a block carries over to its code. -/
theorem IsBlock.transfers {tree : Tree} :
    IsBlock spelled tree → tree.ReturnDisciplined → tree.Transfers
  | .block steps, disciplined => by
    have each := fun step member => (steps step member).transfers (disciplined.child member)
    constructor
    · refine .of_steady (List.forall_mem_nil _) ?_ (List.forall_mem_nil _)
      exact Code.forall_mem_ofTrees.mpr fun step member => (each step member).1
    · intro holds
      cases holds with
      | operand member => cases member
      | @statement part _ member inside =>
        have written : part ∈ Code.ofTrees _ := member
        rw [Code.ofTrees_eq_map] at written
        obtain ⟨step, below, rfl⟩ := List.mem_map.mp written
        exact .inside (by decide) below ((each step below).2 inside)

end

/-- The code of a disciplined program is disciplined. -/
theorem IsProgram.disciplined {tree : Tree} (isProgram : IsProgram spelled tree)
    (disciplined : tree.ReturnDisciplined) :
    (Code.ofTree tree).Disciplined := by
  obtain ⟨statements, steps, rfl⟩ := isProgram
  refine .of_steady (List.forall_mem_nil _) (List.forall_mem_nil _) (Code.forall_mem_ofTrees.mpr ?_)
  intro step member
  exact ((steps step member).transfers (disciplined.child member)).1

end Tree

end TreeWalk
