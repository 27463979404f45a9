import TreeWalk.Proofs.Ownership

/-! Names that are not mentioned.

A run that never mentions a name cannot tell what the name is bound to in some scope, or whether it is bound
there at all. Two such runs, in worlds that differ in this one binding only, take the same actions, since a
name is looked up and bound only where code mentions it. The code is that of the tree that runs and of the
functions that the world stores; what the name itself is bound to may mention it. -/
namespace TreeWalk

open Value (Alike)

namespace Tree

mutual

/-- The names in a tree. -/
def identifiers : Tree → List String
  | node _ children => identifiersAll children
  | leaf (.terminal .identifier) text => [text]
  | leaf _ _ => []
  | absent => []

/-- The names in the trees of a list. -/
def identifiersAll : List Tree → List String
  | [] => []
  | tree :: trees => identifiers tree ++ identifiersAll trees

end

theorem not_mem_child (absent : name ∉ (node label children).identifiers) (member : child ∈ children) :
    name ∉ child.identifiers := by
  rw [identifiers] at absent
  induction children with
  | nil => cases member
  | cons first others ih =>
    rw [identifiersAll, List.mem_append, not_or] at absent
    rcases List.mem_cons.mp member with rfl | later
    · exact absent.1
    · exact ih absent.2 later

end Tree

namespace Code

/-- Code in which a name does not occur. -/
inductive Avoids (name : String) : Code → Prop where
  | intro {code : Code} (own : name ∉ code.names) (operands : ∀ part ∈ code.operands, Avoids name part)
      (statements : ∀ part ∈ code.statements, Avoids name part)
      (enclosed : ∀ part ∈ code.enclosed, Avoids name part) : Avoids name code

namespace Avoids

theorem of_operands {code : Code} (names : code.names = []) (operands : ∀ part ∈ code.operands, part.Avoids name)
    (statements : code.statements = []) (enclosed : code.enclosed = []) : code.Avoids name := by
  refine .intro ?_ operands ?_ ?_
  · simp [names]
  · simp [statements]
  · simp [enclosed]

theorem of_no_parts {code : Code} (names : code.names = []) (operands : code.operands = [])
    (statements : code.statements = []) (enclosed : code.enclosed = []) : code.Avoids name :=
  of_operands names (by simp [operands]) statements enclosed

theorem fault (fault : Fault) : (Code.fault fault).Avoids name := of_no_parts rfl rfl rfl rfl

end Avoids

/-- A place for an identifier holds one, or the code reports that it does not. -/
theorem nameIn_cases (slot : NameSlot) (tree : Tree) :
    (∃ found, nameIn slot tree = .ok found ∧ tree.identifiers = [found]) ∨
      ∃ fault, nameIn slot tree = .error (.fault fault) := by
  unfold nameIn Tree.identifier?
  split
  · rename_i isSome
    split at isSome
    · cases isSome
      exact .inl ⟨_, rfl, rfl⟩
    · cases isSome
  · exact .inr ⟨_, rfl⟩

theorem makeBind_avoids (absent : name ∉ target.identifiers) (value : code.Avoids name) :
    (makeBind slot target code).Avoids name := by
  unfold makeBind
  rcases nameIn_cases slot target with ⟨found, read, isName⟩ | ⟨fault, read⟩
  · rw [read]
    rw [isName] at absent
    exact .intro absent (List.forall_mem_singleton.mpr value) (List.forall_mem_nil _) (List.forall_mem_nil _)
  · rw [read]
    exact .fault fault

theorem indexName_cases (tree : Tree) :
    (∃ found, indexName tree = .ok found ∧ found.toList = tree.identifiers) ∨
      ∃ fault, indexName tree = .error (.fault fault) := by
  unfold indexName
  split
  · exact .inl ⟨none, rfl, rfl⟩
  · rcases nameIn_cases .loopIndex tree with ⟨found, read, isName⟩ | ⟨fault, read⟩
    · rw [read, isName]
      exact .inl ⟨some found, rfl, rfl⟩
    · rw [read]
      exact .inr ⟨fault, rfl⟩

theorem makeLoop_avoids (absent : name ∉ source.identifiers ++ element.identifiers ++ index.identifiers)
    (steps : ∀ part ∈ body, part.Avoids name) : (makeLoop source element index body).Avoids name := by
  unfold makeLoop
  rcases nameIn_cases .loopSource source with ⟨_, read, isSource⟩ | ⟨fault, read⟩ <;> rw [read]
  · rcases nameIn_cases .loopElement element with ⟨_, read, isElement⟩ | ⟨fault, read⟩ <;> rw [read]
    · rcases indexName_cases index with ⟨_, read, isIndex⟩ | ⟨fault, read⟩ <;> rw [read]
      · rw [isSource, isElement, ← isIndex] at absent
        exact .intro absent (List.forall_mem_nil _) steps (List.forall_mem_nil _)
      · exact .fault fault
    · exact .fault fault
  · exact .fault fault

/-- Parameters are names in the tree. -/
theorem paramsAfter_avoids (absent : name ∉ Tree.identifiersAll trees) (unseen : name ∉ seen) :
    match paramsAfter seen trees with
    | .ok params => name ∉ params
    | .error code => code.Avoids name := by
  induction trees generalizing seen with
  | nil => simpa [paramsAfter] using unseen
  | cons tree trees ih =>
    rw [Tree.identifiersAll, List.mem_append, not_or] at absent
    rw [paramsAfter]
    rcases nameIn_cases .parameter tree with ⟨found, read, isName⟩ | ⟨fault, read⟩ <;> rw [read]
    · rw [isName, List.mem_singleton] at absent
      by_cases repeats : found ∈ seen
      · simp only [repeats, ↓reduceIte]
        exact .of_no_parts rfl rfl rfl rfl
      · simp only [repeats, ↓reduceIte]
        exact ih absent.2 (by simp [absent.1, unseen])
    · exact .fault fault

theorem makeFunction_avoids (absent : name ∉ params.identifiers) (steps : ∀ part ∈ body, part.Avoids name) :
    (makeFunction params body).Avoids name := by
  have names : match paramsOf params with
      | .ok names => name ∉ names
      | .error code => code.Avoids name := by
    cases params with
    | node label children => exact paramsAfter_avoids absent List.not_mem_nil
    | leaf | absent => exact List.not_mem_nil
  unfold makeFunction
  revert names
  cases paramsOf params with
  | ok names => exact fun unnamed => .intro unnamed (List.forall_mem_nil _) (List.forall_mem_nil _) steps
  | error code => exact id

theorem ofLeaf_avoids (absent : name ∉ (Tree.leaf kind text).identifiers) : (ofLeaf kind text).Avoids name := by
  unfold ofLeaf
  split
  · split <;> exact .of_no_parts rfl rfl rfl rfl
  · exact .of_no_parts rfl rfl rfl rfl
  · exact .of_no_parts rfl rfl rfl rfl
  · exact .of_no_parts rfl rfl rfl rfl
  · exact .intro absent (List.forall_mem_nil _) (List.forall_mem_nil _) (List.forall_mem_nil _)
  · exact .fault _

mutual

/-- The code of a tree mentions only names in the tree. -/
theorem ofTree_avoids (tree : Tree) (absent : name ∉ tree.identifiers) : (ofTree tree).Avoids name := by
  fun_cases ofTree tree with
  | case1 => exact .fault _
  | case2 => exact ofLeaf_avoids absent
  | case3 children =>
    exact .intro List.not_mem_nil (List.forall_mem_nil _) (List.forall_mem_nil _) (ofTrees_avoids children absent)
  | case4 children =>
    exact .intro List.not_mem_nil (List.forall_mem_nil _) (ofTrees_avoids children absent) (List.forall_mem_nil _)
  | case5 children => exact .of_operands rfl (ofTrees_avoids children absent) rfl rfl
  | case6 child => exact ofTree_avoids child (Tree.not_mem_child absent (by simp))
  | case8 child =>
    have value := ofTree_avoids child (Tree.not_mem_child absent (by simp))
    exact .of_operands rfl (List.forall_mem_singleton.mpr value) rfl rfl
  | case10 target value | case12 target value =>
    exact makeBind_avoids (Tree.not_mem_child absent (by simp))
      (ofTree_avoids value (Tree.not_mem_child absent (by simp)))
  | case14 source element index body =>
    refine makeLoop_avoids ?_ (ofChildren_avoids body (Tree.not_mem_child absent (by simp)))
    simp only [List.mem_append, not_or]
    exact ⟨⟨Tree.not_mem_child absent (by simp), Tree.not_mem_child absent (by simp)⟩,
      Tree.not_mem_child absent (by simp)⟩
  | case16 condition consequence =>
    have tested := ofTree_avoids condition (Tree.not_mem_child absent (by simp))
    have first := ofTree_avoids consequence (Tree.not_mem_child absent (by simp))
    refine .intro List.not_mem_nil (List.forall_mem_singleton.mpr tested) ?_ (List.forall_mem_nil _)
    exact List.forall_mem_cons.mpr ⟨first, List.forall_mem_singleton.mpr (.of_no_parts rfl rfl rfl rfl)⟩
  | case17 condition consequence alternative =>
    have tested := ofTree_avoids condition (Tree.not_mem_child absent (by simp))
    have first := ofTree_avoids consequence (Tree.not_mem_child absent (by simp))
    have second := ofTree_avoids alternative (Tree.not_mem_child absent (by simp))
    refine .intro List.not_mem_nil (List.forall_mem_singleton.mpr tested) ?_ (List.forall_mem_nil _)
    exact List.forall_mem_cons.mpr ⟨first, List.forall_mem_singleton.mpr second⟩
  | case19 params body =>
    have inBlock : name ∉ (Tree.node .block body).identifiers := Tree.not_mem_child absent (by simp)
    exact makeFunction_avoids (Tree.not_mem_child absent (by simp)) (ofTrees_avoids body inBlock)
  | case22 callee args =>
    have called := ofTree_avoids callee (Tree.not_mem_child absent (by simp))
    have passed := ofChildren_avoids args (Tree.not_mem_child absent (by simp))
    exact .of_operands rfl (List.forall_mem_cons.mpr ⟨called, passed⟩) rfl rfl
  | case24 left index | case26 left _ index =>
    have first := ofTree_avoids left (Tree.not_mem_child absent (by simp))
    have second := ofTree_avoids index (Tree.not_mem_child absent (by simp))
    exact .of_operands rfl (List.forall_mem_cons.mpr ⟨first, List.forall_mem_singleton.mpr second⟩) rfl rfl
  | case28 _ operand =>
    have value := ofTree_avoids operand (Tree.not_mem_child absent (by simp))
    exact .of_operands rfl (List.forall_mem_singleton.mpr value) rfl rfl
  -- All that is left are nodes of the wrong shape.
  | _ => exact .fault _
termination_by sizeOf tree

theorem ofTrees_avoids (trees : List Tree) (absent : name ∉ Tree.identifiersAll trees) :
    ∀ code ∈ ofTrees trees, code.Avoids name := by
  cases trees with
  | nil => exact List.forall_mem_nil _
  | cons tree trees =>
    rw [Tree.identifiersAll, List.mem_append, not_or] at absent
    exact List.forall_mem_cons.mpr ⟨ofTree_avoids tree absent.1, ofTrees_avoids trees absent.2⟩
termination_by sizeOf trees

theorem ofChildren_avoids (tree : Tree) (absent : name ∉ tree.identifiers) :
    ∀ code ∈ ofChildren tree, code.Avoids name := by
  cases tree with
  | node label children => exact ofTrees_avoids children absent
  | leaf | absent => exact List.forall_mem_singleton.mpr (.fault _)
termination_by sizeOf tree

end

end Code

/-- All functions in a value are of code in which a name does not occur. -/
def Value.Avoids (name : String) : Value → Prop :=
  Built (fun _ => True) fun params body _ => (Code.function params body).Avoids name

/-- The same scope but for what one name is bound to. -/
def Scope.SameBut (name : String) (own own' : Scope) : Prop :=
  own.outer = own'.outer ∧ own.bindings.filter (·.1 ≠ name) = own'.bindings.filter (·.1 ≠ name)

namespace Scope

theorem lookup_filter (other : given ≠ name) (bindings : List (String × Value)) :
    (bindings.filter (·.1 ≠ name)).lookup given = bindings.lookup given := by
  induction bindings with
  | nil => rfl
  | cons binding bindings ih =>
    obtain ⟨bound, value⟩ := binding
    by_cases isName : bound = name
    · have notBound : (given == bound) = false := by simp [isName, other]
      rw [List.filter_cons_of_neg (by simp [isName]), ih, List.lookup_cons, notBound]
    · rw [List.filter_cons_of_pos (by simp [isName]), List.lookup_cons, List.lookup_cons, ih]

theorem put_filter (other : given ≠ name) (value : Value) (bindings : List (String × Value)) :
    (put given value bindings).filter (·.1 ≠ name) = put given value (bindings.filter (·.1 ≠ name)) := by
  induction bindings with
  | nil => simp [put, other]
  | cons binding bindings ih =>
    obtain ⟨bound, old⟩ := binding
    by_cases isGiven : bound = given
    · have kept : bound ≠ name := isGiven ▸ other
      simp [put, isGiven, other]
    · by_cases isName : bound = name
      · simpa [put, isGiven, isName, Ne.symm other] using ih
      · simpa [put, isGiven, isName] using ih

namespace SameBut

theorem refl (own : Scope) : SameBut name own own := ⟨rfl, rfl⟩

/-- Other names are bound alike. -/
theorem get?_eq (same : SameBut name own own') (other : given ≠ name) : own.get? given = own'.get? given := by
  rw [Scope.get?, Scope.get?, ← lookup_filter other own.bindings, same.2, lookup_filter other]

theorem set (same : SameBut name own own') (other : given ≠ name) (value : Value) :
    SameBut name (own.set given value) (own'.set given value) := by
  refine ⟨same.1, ?_⟩
  rw [Scope.set, Scope.set, put_filter other, put_filter other, same.2]

end SameBut

end Scope

namespace World

/-- Two worlds that differ at most in what one name is bound to in one scope. -/
structure AgreeBut (name : String) (scope : Nat) (w w' : World) : Prop where
  size : w.scopes.size = w'.scopes.size
  own : Option.Rel (Scope.SameBut name) w.scopes[scope]? w'.scopes[scope]?
  others : ∀ i ≠ scope, w.scopes[i]? = w'.scopes[i]?
  serials : w.nextSerial = w'.nextSerial
  input : w.input = w'.input
  output : w.output = w'.output
  notes : w.notes = w'.notes

/-- Apart from what a name is bound to in a scope, the functions that a world stores do not mention it. -/
def AvoidsBut (name : String) (scope : Nat) (world : World) : Prop :=
  ∀ (i : Nat) (own : Scope), world.scopes[i]? = some own → ∀ binding ∈ own.bindings,
    i = scope ∧ binding.1 = name ∨ binding.2.Avoids name

namespace AgreeBut

/-- Each scope is the same but for the name. -/
theorem scopes (agree : AgreeBut name scope w w') (i : Nat) :
    Option.Rel (Scope.SameBut name) w.scopes[i]? w'.scopes[i]? := by
  by_cases isOwn : i = scope
  · rw [isOwn]
    exact agree.own
  · rw [agree.others i isOwn]
    cases w'.scopes[i]? with
    | none => exact .none
    | some own => exact .some (.refl own)

/-- Other names are looked up alike. -/
theorem find?_eq (agree : AgreeBut name scope w w') (other : given ≠ name) (inner : Nat) :
    w.find? given inner = w'.find? given inner := by
  induction inner using Nat.strongRecOn with
  | ind inner ih =>
    have same := agree.scopes inner
    rw [World.find?, World.find?]
    generalize w.scopes[inner]? = present at same
    generalize w'.scopes[inner]? = present' at same
    cases same with
    | none => rfl
    | @some own own' same =>
      dsimp only
      rw [same.get?_eq other, same.1]
      cases own'.get? given with
      | some value => rfl
      | none =>
        cases own'.outer with
        | none => rfl
        | some outer =>
          dsimp only
          by_cases older : outer < inner
          · rw [if_pos older, if_pos older, ih outer older]
          · rw [if_neg older, if_neg older]

theorem bind (agree : AgreeBut name scope w w') (other : given ≠ name) (inner : Nat) (value : Value) :
    AgreeBut name scope (w.bind inner given value) (w'.bind inner given value) := by
  refine ⟨?_, ?_, ?_, ?_, ?_, ?_, ?_⟩
  · rw [bind_size, bind_size, agree.size]
  · rw [bind_getElem?, bind_getElem?]
    split
    · have same := agree.own
      generalize w.scopes[scope]? = present at same
      generalize w'.scopes[scope]? = present' at same
      cases same with
      | none => exact .none
      | some same => exact .some (same.set other value)
    · exact agree.own
  · intro i isOther
    rw [bind_getElem?, bind_getElem?, agree.others i isOther]
  · simpa using agree.serials
  · simpa using agree.input
  · simpa using agree.output
  · simpa using agree.notes

theorem addScope (agree : AgreeBut name scope w w') (added : Scope) :
    AgreeBut name scope (w.addScope added).2 (w'.addScope added).2 := by
  refine ⟨?_, ?_, ?_, agree.serials, agree.input, agree.output, agree.notes⟩
  · simp [World.addScope, agree.size]
  · simp only [World.addScope, Array.getElem?_push, agree.size]
    split
    · exact .some (.refl added)
    · exact agree.own
  · intro i isOther
    simp only [World.addScope, Array.getElem?_push, agree.size, agree.others i isOther]

end AgreeBut

namespace AvoidsBut

theorem found (avoids : AvoidsBut name scope world) (other : given ≠ name)
    (found : world.find? given i = some value) : value.Avoids name := by
  obtain ⟨holder, own, present, member⟩ := mem_of_find? found
  exact (avoids holder own present _ member).resolve_left fun isName => other isName.2

theorem bind (avoids : AvoidsBut name scope world) (inner : Nat) (given : String)
    (without : Value.Avoids name value) : AvoidsBut name scope (world.bind inner given value) := by
  intro i holder present binding member
  rw [bind_getElem?] at present
  split at present
  · obtain ⟨own, wasPresent, rfl⟩ := Option.map_eq_some_iff.mp present
    rcases Scope.mem_put member with new | old
    · exact .inr (new ▸ without)
    · exact avoids i own wasPresent binding old
  · exact avoids i holder present binding member

theorem addScope (avoids : AvoidsBut name scope world)
    (without : ∀ binding ∈ added.bindings, binding.2.Avoids name) :
    AvoidsBut name scope (world.addScope added).2 := by
  intro i holder present binding member
  rw [World.addScope, Array.getElem?_push] at present
  split at present
  · cases present
    exact .inr (without binding member)
  · exact avoids i holder present binding member

end AvoidsBut

end World

/-- Everything stands for itself, but a name is not mentioned. -/
def without (name : String) : Matching where
  serial s s' := s = s'
  scope s s' := s = s'
  name given := given ≠ name
  code := Code.Avoids name
  serial_eq_iff first second := by rw [first, second]
  operand avoids member := by
    cases avoids with
    | intro _ operands _ _ => exact operands _ member
  statement avoids member := by
    cases avoids with
    | intro _ _ statements _ => exact statements _ member
  enclosed avoids member := by
    cases avoids with
    | intro _ _ _ enclosed => exact enclosed _ member
  mentions avoids member := by
    cases avoids with
    | intro own _ _ _ => exact fun same => own (same ▸ member)

theorem without_diagonal (name : String) : (without name).Diagonal fun _ => True :=
  ⟨by simp [without], .rfl⟩

/-- Runs in worlds that differ only in what a name, which is not mentioned, is bound to in one scope. -/
def unmentioned (name : String) (scope : Nat) : Simulation where
  toMatching := without name
  world w w' := w.AgreeBut name scope w' ∧ w.AvoidsBut name scope
  lost _ := False
  lost_kept lost _ := lost
  takeSerial_kept := by
    rintro w w' ⟨agree, avoids⟩
    refine .inr ⟨agree.serials, ⟨agree.size, agree.own, agree.others, ?_, agree.input, agree.output, agree.notes⟩,
      avoids⟩
    rw [World.takeSerial, World.takeSerial, agree.serials]
  addScope_kept := by
    rintro w w' outer _ bindings _ ⟨agree, avoids⟩ rfl bound
    obtain ⟨rfl, built⟩ := (without_diagonal name).binds_eq bound
    exact ⟨agree.size, agree.addScope _, avoids.addScope fun binding member => (built binding member).2⟩
  bind_kept := by
    rintro w w' s _ given value _ ⟨agree, avoids⟩ rfl other alike
    obtain ⟨rfl, built⟩ := (without_diagonal name).alike_iff.mp alike
    exact ⟨agree.bind other s value, avoids.bind s given built⟩
  find_kept := by
    rintro w w' s _ given ⟨agree, avoids⟩ rfl other
    rw [← agree.find?_eq other s]
    cases found : w.find? given s with
    | none => exact .none
    | some value => exact .some ((without_diagonal name).alike_iff.mpr ⟨rfl, avoids.found other found⟩)
  print_kept := by
    rintro w w' text ⟨agree, avoids⟩
    refine ⟨⟨agree.size, agree.own, agree.others, agree.serials, agree.input, ?_, agree.notes⟩, avoids⟩
    rw [World.print, World.print, agree.output]
  readLine_kept := by
    rintro w w' ⟨agree, avoids⟩
    refine .inr ⟨?_, ⟨agree.size, agree.own, agree.others, agree.serials, ?_, agree.output, agree.notes⟩, avoids⟩
    · rw [World.readLine, World.readLine, agree.input]
    · rw [World.readLine, World.readLine, agree.input]
  log_kept := by
    rintro w w' note ⟨agree, avoids⟩
    refine ⟨⟨agree.size, agree.own, agree.others, agree.serials, agree.input, agree.output, ?_⟩, avoids⟩
    rw [World.log, World.log, agree.notes]

/-- The results of runs that end alike are the same. -/
theorem evaluateTo_unmentioned (avoided : Code.Avoids name code)
    (worlds : (unmentioned name scope).world w w') (depth : Nat) (what : String) (inner : Nat) :
    let first := evaluateTo depth code what inner w
    let second := evaluateTo depth code what inner w'
    first.1 = second.1 ∧ (unmentioned name scope).world first.2 second.2 := by
  have request : Request.Parallel (without name) (.eval code inner) (.eval code inner) := .eval avoided rfl
  have follows : (unmentioned name scope).Follows (Alike (without name))
      ((Request.eval code inner).perform depth w) ((Request.eval code inner).perform depth w') :=
    Request.perform_parallel depth request worlds
  unfold evaluateTo
  generalize (Request.eval code inner).perform depth w = ending at follows
  generalize (Request.eval code inner).perform depth w' = ending' at follows
  rcases follows with lost | alike
  · exact lost.elim
  · cases alike with
    | ok kept after =>
      obtain ⟨rfl, -⟩ := (without_diagonal name).alike_iff.mp kept
      exact ⟨rfl, after⟩
    | failed serials after =>
      cases serials
      exact ⟨rfl, after⟩
    | malformed _ after => exact ⟨rfl, after⟩
    | @tooDeep left left' after =>
      have logged : (unmentioned name scope).world (left.log (.depthReached what))
          (left'.log (.depthReached what)) := (unmentioned name scope).log_kept after
      obtain ⟨serials, taken⟩ := ((unmentioned name scope).takeSerial_kept logged).resolve_left id
      refine ⟨?_, taken⟩
      exact congrArg (fun serial => Except.ok (Value.error serial .tooDeep)) serials

/-- What a name is bound to in one scope makes no difference to a tree that does not mention it, as long as no
function that the world stores elsewhere does. Two runs from worlds that differ in this binding at most give
the same result, print and read the same, and leave worlds that differ in this binding at most. -/
theorem unmentioned_binding_makes_no_difference (absent : name ∉ Tree.identifiers tree)
    (agree : World.AgreeBut name scope w w') (avoids : w.AvoidsBut name scope) (depth inner : Nat) :
    let first := evaluateTo depth (.ofTree tree) tree.describe inner w
    let second := evaluateTo depth (.ofTree tree) tree.describe inner w'
    first.1 = second.1 ∧ first.2.output = second.2.output ∧ first.2.input = second.2.input ∧
      first.2.AgreeBut name scope second.2 ∧ first.2.AvoidsBut name scope := by
  intro first second
  obtain ⟨results, after, avoids'⟩ :=
    evaluateTo_unmentioned (Code.ofTree_avoids tree absent) ⟨agree, avoids⟩ depth tree.describe inner
  exact ⟨results, after.output, after.input, after, avoids'⟩

/-- A function that prints its argument is called the same whether `x` is bound, to a function that calls
itself, or not. -/
theorem unmentioned_binding_makes_no_difference_to_call :
    let name : String → Tree := .leaf (.terminal .identifier)
    let shown : Tree := .node .evaluation [.node .call [name "print", .node .args [name "a"]]]
    let literal : Tree := .node .function [.node .params [name "a"], .node .block [shown]]
    let tree : Tree := .node .call [name "f", .node .args [.leaf (.terminal .integer) "2"]]
    let f : Value := .function 0 ["a"] (Code.ofTrees [shown]) 0
    let x : Value := .function 1 [] (Code.ofTrees [.node .call [name "x", .node .args []]]) 0
    let w : World := ⟨#[⟨none, [("x", x), ("f", f)]⟩], 2, [], "", []⟩
    let w' : World := ⟨#[⟨none, [("f", f)]⟩], 2, [], "", []⟩
    Code.ofTree literal = .function ["a"] (Code.ofTrees [shown]) ∧
      "x" ∉ tree.identifiers ∧ w.AgreeBut "x" 0 w' ∧ w.AvoidsBut "x" 0 ∧
      ∀ depth, (evaluateTo depth (.ofTree tree) tree.describe 0 w).1 =
          (evaluateTo depth (.ofTree tree) tree.describe 0 w').1 ∧
        (evaluateTo depth (.ofTree tree) tree.describe 0 w).2.output =
          (evaluateTo depth (.ofTree tree) tree.describe 0 w').2.output := by
  intro name shown literal tree f x w w'
  have isLiteral : Code.ofTree literal = .function ["a"] (Code.ofTrees [shown]) := rfl
  have absent : "x" ∉ tree.identifiers := by decide
  have agree : w.AgreeBut "x" 0 w' := by
    refine ⟨rfl, .some ⟨rfl, rfl⟩, fun i other => ?_, rfl, rfl, rfl, rfl⟩
    simp [w, w', other]
  have avoids : w.AvoidsBut "x" 0 := by
    intro i own present binding member
    cases i with
    | succ i => simp [w] at present
    | zero =>
      obtain rfl : ⟨none, [("x", x), ("f", f)]⟩ = own := Option.some.inj present
      rcases List.mem_cons.mp member with rfl | later
      · exact .inl ⟨rfl, rfl⟩
      · rw [List.mem_singleton.mp later]
        exact .inr (.function trivial (isLiteral ▸ Code.ofTree_avoids literal (by decide)))
  refine ⟨isLiteral, absent, agree, avoids, fun depth => ?_⟩
  obtain ⟨results, output, -⟩ := unmentioned_binding_makes_no_difference absent agree avoids depth 0
  exact ⟨results, output⟩

end TreeWalk
