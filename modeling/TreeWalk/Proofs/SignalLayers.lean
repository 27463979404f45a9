import TreeWalk.Proofs.Invariant
import TreeWalk.Proofs.Joining
import TreeWalk.Proofs.Printing

/-! How a signal gets out of a program.

At the end of a program a signal gives up its value, and so does a second one at the end of the evaluation.
A third one around the same value gets out. Signals get into one another where a `return` ends code whose
value is worked on, and its signal is returned again. A program is guarded if such a `return` has nothing to
return that can be a signal itself: then what is stored is never a signal in a signal, what a statement gives
has one signal more at most, and the program gives none. -/
namespace TreeWalk

namespace Code

/-- Code that cannot give a signal. -/
inductive Firm : Code → Prop where
  | intro (made : whole.carries = false) (statements : ∀ part ∈ whole.statements, Firm part) : Firm whole

/-- Running the code can end in a `return` of its own that gives the value of a part. Those inside a function
literal are not its own, nor are those that end a part whose value is worked on. -/
inductive Returns : Code → Code → Prop where
  | here : Returns (giveBack value) value
  | statement (member : part ∈ whole.statements) (inside : Returns part value) : Returns whole value

/-- Neither here nor further inside does a part whose value is worked on return what can be a signal. -/
inductive Guarded : Code → Prop where
  | intro (firm : ∀ part ∈ whole.operands, ∀ value, part.Returns value → value.Firm)
      (operands : ∀ part ∈ whole.operands, Guarded part)
      (statements : ∀ part ∈ whole.statements, Guarded part)
      (enclosed : ∀ part ∈ whole.enclosed, Guarded part) : Guarded whole

/-! Where a `return` of its own can end the code. -/

theorem returns_iff :
    Returns code value ↔ code = giveBack value ∨ ∃ part ∈ code.statements, part.Returns value := by
  constructor
  · intro returns
    cases returns with
    | here => exact .inl rfl
    | statement member inside => exact .inr ⟨_, member, inside⟩
  · rintro (rfl | ⟨part, member, inside⟩)
    · exact .here
    · exact .statement member inside

theorem returns_giveBack_iff : (giveBack part).Returns value ↔ part = value := by
  rw [returns_iff]
  simp [statements]

theorem returns_block_iff : (block body).Returns value ↔ ∃ part ∈ body, part.Returns value := by
  rw [returns_iff]
  simp [statements]

theorem returns_branch_iff :
    (branch condition consequence alternative).Returns value ↔
      consequence.Returns value ∨ alternative.Returns value := by
  rw [returns_iff]
  simp [statements]

theorem Firm.statement (firm : Firm whole) (member : part ∈ whole.statements) : part.Firm := by
  cases firm with
  | intro _ statements => exact statements part member

theorem Firm.carries (firm : Firm whole) : whole.carries = false := by
  cases firm with
  | intro made => exact made

theorem Firm.not_returns (firm : Firm code) : ¬ code.Returns value := by
  intro returns
  induction returns with
  | here => cases firm.carries
  | statement member _ ih => exact ih (firm.statement member)

namespace Guarded

theorem firm (guarded : Guarded whole) (member : part ∈ whole.operands) (returns : part.Returns value) :
    value.Firm := by
  cases guarded with
  | intro firm => exact firm part member value returns

theorem operand (guarded : Guarded whole) (member : part ∈ whole.operands) : part.Guarded := by
  cases guarded with
  | intro _ operands => exact operands part member

theorem statement (guarded : Guarded whole) (member : part ∈ whole.statements) : part.Guarded := by
  cases guarded with
  | intro _ _ statements => exact statements part member

theorem enclosed (guarded : Guarded whole) (member : part ∈ whole.enclosed) : part.Guarded := by
  cases guarded with
  | intro _ _ _ enclosed => exact enclosed part member

theorem of_leaf (operands : code.operands = []) (statements : code.statements = [])
    (enclosed : code.enclosed = []) : Guarded code :=
  .intro (by simp [operands]) (by simp [operands]) (by simp [statements]) (by simp [enclosed])

theorem of_giveBack (guarded : part.Guarded) (firm : ∀ value, part.Returns value → value.Firm) :
    (giveBack part).Guarded :=
  .intro (List.forall_mem_singleton.mpr firm) (List.forall_mem_singleton.mpr guarded) (List.forall_mem_nil _)
    (List.forall_mem_nil _)

theorem of_branch (guarded : condition.Guarded) (firm : condition.Firm)
    (consequence : yes.Guarded) (alternative : no.Guarded) : (branch condition yes no).Guarded :=
  .intro (List.forall_mem_singleton.mpr fun _ returns => absurd returns firm.not_returns)
    (List.forall_mem_singleton.mpr guarded)
    (List.forall_mem_cons.mpr ⟨consequence, List.forall_mem_singleton.mpr alternative⟩) (List.forall_mem_nil _)

theorem of_block (statements : ∀ part ∈ body, part.Guarded) : (block body).Guarded :=
  .intro (List.forall_mem_nil _) (List.forall_mem_nil _) statements (List.forall_mem_nil _)

end Guarded

end Code

/-- A value in which no signal is inside another, and no function has an unguarded body. -/
inductive Value.Shallow : Value → Prop where
  | plain (plain : value.Plain) : Shallow value
  | error (serial : Nat) (failure : Failure) : Shallow (.error serial failure)
  | function (body : ∀ part ∈ statements, part.Guarded) : Shallow (.function serial params statements scope)
  | array (items : ∀ item ∈ elements, Shallow item) : Shallow (.array elements)
  | signal (inner : Shallow value) (last : value.isSignal = false) : Shallow (.signal serial value)

namespace Value.Shallow

theorem array_iff : Shallow (.array elements) ↔ ∀ item ∈ elements, Shallow item := by
  refine ⟨fun shallow => ?_, .array⟩
  cases shallow with
  | plain plain => cases plain
  | array items => exact items

theorem functionBody (shallow : Shallow (.function serial params statements scope)) :
    ∀ part ∈ statements, part.Guarded := by
  cases shallow with
  | plain plain => cases plain
  | function body => exact body

/-- What a signal gives up is no signal. -/
theorem unwrap (shallow : Shallow value) : value.unwrap.Shallow ∧ value.unwrap.isSignal = false := by
  cases shallow with
  | plain plain =>
    cases value with
    | signal => cases plain
    | _ => exact ⟨.plain plain, rfl⟩
  | error serial failure => exact ⟨.error serial failure, rfl⟩
  | function body => exact ⟨.function body, rfl⟩
  | array items => exact ⟨.array items, rfl⟩
  | signal inner last => exact ⟨inner, last⟩

end Value.Shallow

/-- Every stored value is shallow. -/
def World.Shallow (world : World) : Prop := ∀ value, world.Stores value → value.Shallow

/-- What guarded code may give: a shallow value, which is no signal if the code is firm, or a signal more
around a shallow value, from a `return` of what can be a signal. -/
structure Code.Delivers (code : Code) (value : Value) : Prop where
  quiet : code.Firm → value.isSignal = false
  layers : value.Shallow ∨
    ∃ part serial inner, code.Returns part ∧ ¬ part.Firm ∧ value = .signal serial inner ∧ inner.Shallow

namespace Code.Delivers

theorem of_statement (given : Delivers part value) (member : part ∈ whole.statements) :
    Delivers whole value := by
  refine ⟨fun firm => given.quiet (firm.statement member), given.layers.imp_right ?_⟩
  rintro ⟨origin, serial, inner, returns, loose⟩
  exact ⟨origin, serial, inner, .statement member returns, loose⟩

/-- A part whose value is worked on gives nothing but shallow values. -/
theorem of_operand {whole : Code} (given : Delivers part value) (guarded : whole.Guarded)
    (member : part ∈ whole.operands) : value.Shallow := by
  rcases given.layers with shallow | ⟨origin, _, _, returns, loose, _⟩
  · exact shallow
  · exact absurd (guarded.firm member returns) loose

/-- Where a signal gives up its value, the value is shallow. -/
theorem unwrap (given : Delivers code value) : value.unwrap.Shallow := by
  rcases given.layers with shallow | ⟨_, _, inner, _, _, rfl, shallow⟩
  · exact shallow.unwrap.1
  · exact shallow

/-- A `return` puts one signal more around what it is given. -/
theorem signal (given : Delivers part value) (guarded : (giveBack part).Guarded) :
    Delivers (giveBack part) (.signal serial value) := by
  have shallow : value.Shallow := given.of_operand guarded List.mem_cons_self
  have notFirm : ¬ (giveBack part).Firm := fun firm => by cases firm.carries
  refine ⟨fun firm => absurd firm notFirm, ?_⟩
  by_cases firm : part.Firm
  · exact .inl (.signal shallow (given.quiet firm))
  · exact .inr ⟨part, serial, value, .here, firm, rfl, shallow⟩

end Code.Delivers

/-- Runs of guarded code keep shallow worlds shallow. -/
def signalLayers : Invariant where
  value _ value := value.Shallow
  scope _ _ := True
  outer _ _ := True
  code := Code.Guarded
  result _ := Code.Delivers
  world := World.Shallow
  least := 0
  value_later _ shallow := shallow
  scope_later _ _ := trivial
  plain := .plain
  array_iff := Value.Shallow.array_iff
  result_of_value shallow quiet := ⟨fun firm => quiet firm.carries, .inl shallow⟩
  operand guarded member := ⟨guarded.operand member, fun _ _ given => given.of_operand guarded member⟩
  statement guarded member := ⟨guarded.statement member, fun _ _ given => given.of_statement member⟩
  program guarded member := ⟨guarded.enclosed member, fun _ _ given => given.unwrap⟩
  signal guarded given := given.signal guarded
  closure guarded _ := .function fun _ => guarded.enclosed
  functionBody shallow member := ⟨shallow.functionBody _ member, fun _ _ given => given.unwrap⟩
  opened _ := trivial
  fresh _ _ := trivial
  enough _ := Nat.zero_le _
  found shallow _ found := shallow _ (World.stores_of_find? found)
  bind_kept shallow _ new value stored := by
    rcases World.stores_of_bind stored with rfl | old
    · exact new
    · exact shallow value old
  addScope_kept shallow _ new value stored := by
    rcases World.stores_of_addScope stored with ⟨binding, member, rfl⟩ | old
    · exact new binding member
    · exact shallow value old
  same_scopes shallow same value stored := shallow value (by rwa [World.Stores, same] at stored)

/-- A guarded program gives no signal, and leaves a shallow world shallow. -/
theorem evaluateTo_shallow (guarded : (Code.program body).Guarded) (depth scope : Nat) (what : String)
    (shallow : World.Shallow world) :
    (evaluateTo depth (.program body) what scope world).2.Shallow ∧
      ∀ value, (evaluateTo depth (.program body) what scope world).1 = .ok value →
        value.isSignal = false := by
  have asked : signalLayers.asks world.scopes.size (.eval (.program body) scope) := ⟨guarded, trivial⟩
  obtain ⟨shallowAfter, given⟩ := evaluateTo_keeps signalLayers depth what shallow asked
  refine ⟨shallowAfter, fun value ended => ?_⟩
  rcases given value ended with ⟨serial, reason, rfl⟩ | ⟨_, inner, delivers, rfl⟩
  · rfl
  · rcases delivers.layers with shallow | ⟨_, _, _, returns, _⟩
    · exact shallow.unwrap.2
    · cases returns with
      | statement member => cases member

theorem Value.unwrap_eq_signal {given : Value} :
    given.unwrap = .signal serial value ↔ ∃ outer, given = .signal outer (.signal serial value) := by
  cases given <;> simp [unwrap]

/-- A signal gets out if it is in two others when the statements of the program end. -/
theorem conclude_signal_iff (what : String) (ending : Ending Value) (serial : Nat) (value : Value) :
    (conclude what ending).1 = .ok (.signal serial value) ↔
      ∃ outer middle, ending.1 = .ok (.signal outer (.signal middle (.signal serial value))) := by
  obtain ⟨result, after⟩ := ending
  cases result with
  | ok given => simpa [conclude, Value.unwrap_eq_signal] using exists_comm
  | error reason => cases reason <;> simp [conclude, outcome]

/-- A parsed source gives what its program gives. -/
theorem run_eq_ok_iff (parsed : parse source = .ok tree) (scope : Nat) (world : World) (value : Value) :
    (run source scope world).1 = .ok value ↔
      (evaluateTo depthLimit (.ofTree tree) tree.describe scope world).1 = .ok value := by
  simp only [run, runTo, parsed]
  cases (evaluateTo depthLimit (.ofTree tree) tree.describe scope world).1 <;> simp [Except.mapError]

/-- A source whose program is guarded, if it parses. -/
def GuardedSource (source : String) : Prop := ∀ tree, parse source = .ok tree → (Code.ofTree tree).Guarded

theorem run_shallow (guarded : GuardedSource source) (scope : Nat) (shallow : World.Shallow world) :
    (run source scope world).2.Shallow ∧
      ∀ value, (run source scope world).1 = .ok value → value.isSignal = false := by
  cases parsed : parse source with
  | error error =>
    simp only [run, runTo, parsed]
    exact ⟨shallow, fun value ended => by cases ended⟩
  | ok tree =>
    obtain ⟨statements, _, rfl⟩ := parse_isProgram parsed
    obtain ⟨shallowAfter, quiet⟩ :=
      evaluateTo_shallow (guarded _ parsed) depthLimit scope (Tree.describe (.node .program statements)) shallow
    refine ⟨?_, fun value ended => quiet value ((run_eq_ok_iff parsed scope world value).mp ended)⟩
    simp only [run, runTo, parsed]
    exact shallowAfter

/-- The world that sources leave behind that are run one after the other in a scope. -/
def runAll (scope : Nat) (world : World) (sources : List String) : World :=
  sources.foldl (fun world source => (run source scope world).2) world

theorem runAll_shallow (guarded : ∀ source ∈ sources, GuardedSource source) (scope : Nat)
    (shallow : World.Shallow world) : (runAll scope world sources).Shallow := by
  induction sources generalizing world with
  | nil => exact shallow
  | cons source sources ih =>
    obtain ⟨first, others⟩ := List.forall_mem_cons.mp guarded
    exact ih others (run_shallow first scope shallow).1

/-- A parsed source, run after others in a new scope, gives a signal exactly if its statements give one that is
in two others; and it gives none if it is guarded and so are all that were run before it. -/
theorem run_gives_signal_iff (input : String) (earlier : List String) (source : String) (tree : Tree)
    (parsed : parse source = .ok tree) :
    let fresh := (World.start input).addScope (.empty none)
    let before := runAll fresh.1 fresh.2 earlier
    ∃ body, Code.ofTree tree = .program body ∧
      (∀ serial value, (run source fresh.1 before).1 = .ok (.signal serial value) ↔
        ∃ outer middle, ((Plan.sequence fresh.1 .null body).carryOut (Request.perform (depthLimit - 1)) before).1 =
          .ok (.signal outer (.signal middle (.signal serial value)))) ∧
      ((∀ given ∈ source :: earlier, GuardedSource given) →
        ∀ serial value, (run source fresh.1 before).1 ≠ .ok (.signal serial value)) := by
  intro fresh before
  obtain ⟨statements, _, rfl⟩ := parse_isProgram parsed
  refine ⟨Code.ofTrees statements, rfl, fun serial value => ?_, fun guarded serial value ended => ?_⟩
  · rw [run_eq_ok_iff parsed]
    have unfolded := evaluateTo_program (depthLimit - 1) (Code.ofTrees statements)
      (Tree.describe (.node .program statements)) fresh.1 before
    exact (congrArg (fun ran => ran.1 = .ok (.signal serial value)) unfolded).to_iff.trans
      (conclude_signal_iff ..)
  · obtain ⟨last, others⟩ := List.forall_mem_cons.mp guarded
    have nothing : World.Shallow fresh.2 := by
      rintro stored ⟨scope, member, binding, bound, _⟩
      simp [fresh, World.addScope, World.start] at member
      subst member
      cases bound
    have shallow : before.Shallow := runAll_shallow others fresh.1 nothing
    cases (run_shallow last fresh.1 shallow).2 _ ended

/-- A `return` in a branch that is always taken, in the place of a value. -/
def Tree.returned (value : Tree) : Tree :=
  .node .branch [.leaf (.terminal .trueWord) "true", .node .block [.node .returning [value]], .absent]

theorem Tree.returned_isExpression (isValue : IsExpression Terminal.Spells value) :
    IsExpression Terminal.Spells value.returned :=
  .branch (.atom ⟨.trueWord, by decide, "true", rfl, rfl⟩)
    (.block (List.forall_mem_singleton.mpr (.returning isValue)))

/-- The program that returns an expression is what its text parses to. -/
theorem parse_returning (isValue : Tree.IsExpression Terminal.Spells value) :
    parse (Tree.node .program [.node .returning [value]]).print =
      .ok (.node .program [.node .returning [value]]) :=
  derive_print automaton_belongs ⟨_, List.forall_mem_singleton.mpr (.returning isValue), rfl⟩

theorem isExpression_numeral : Tree.IsExpression Terminal.Spells (.leaf (.terminal .integer) "1") :=
  .atom ⟨.integer, by decide, "1", ⟨by decide, List.all_eq_true.mp rfl⟩, rfl⟩

/-- In `return if (true) { return 1 }` one signal is in another, and both give up their values. -/
theorem run_gives_signal_iff_of_two_returns :
    let value : Tree := .leaf (.terminal .integer) "1"
    let tree : Tree := .node .program [.node .returning [value.returned]]
    let fresh := (World.start "").addScope (.empty none)
    parse tree.print = .ok tree ∧
      ∀ serial value, (run tree.print fresh.1 fresh.2).1 ≠ .ok (.signal serial value) := by
  intro value tree fresh
  have parsed : parse tree.print = .ok tree := parse_returning (Tree.returned_isExpression isExpression_numeral)
  refine ⟨parsed, ?_⟩
  obtain ⟨_, _, _, quiet⟩ := run_gives_signal_iff "" [] tree.print tree parsed
  refine quiet (List.forall_mem_singleton.mpr fun other again => ?_)
  cases parsed.symm.trans again
  have firm : (Code.bool true).Firm ∧ (Code.int 1).Firm :=
    ⟨.intro rfl (List.forall_mem_nil _), .intro rfl (List.forall_mem_nil _)⟩
  have inner : (Code.giveBack (.int 1)).Guarded :=
    .of_giveBack (.of_leaf rfl rfl rfl) fun _ returns => absurd returns firm.2.not_returns
  have branch : (Code.branch (.bool true) (.block [.giveBack (.int 1)]) (.block [])).Guarded :=
    .of_branch (.of_leaf rfl rfl rfl) firm.1 (.of_block (List.forall_mem_singleton.mpr inner))
      (.of_leaf rfl rfl rfl)
  have outer : (Code.giveBack (.branch (.bool true) (.block [.giveBack (.int 1)]) (.block []))).Guarded := by
    refine .of_giveBack branch fun value returns => ?_
    simp [Code.returns_branch_iff, Code.returns_block_iff, Code.returns_giveBack_iff] at returns
    exact returns ▸ firm.2
  exact .intro (List.forall_mem_nil _) (List.forall_mem_nil _) (List.forall_mem_nil _)
    (List.forall_mem_singleton.mpr outer)

/-- In `return if (true) { return if (true) { return 1 } }` the innermost signal gets out. -/
theorem signal_gets_out_of_three_returns :
    let value : Tree := .leaf (.terminal .integer) "1"
    let tree : Tree := .node .program [.node .returning [value.returned.returned]]
    let fresh := (World.start "").addScope (.empty none)
    parse tree.print = .ok tree ∧ (run tree.print fresh.1 fresh.2).1 = .ok (.signal 0 (.int 1)) := by
  intro value tree fresh
  have parsed : parse tree.print = .ok tree :=
    parse_returning (Tree.returned_isExpression (Tree.returned_isExpression isExpression_numeral))
  have evaluated : ∀ depth, (evaluateTo (depth + 12) (.ofTree tree) tree.describe fresh.1 fresh.2).1 =
      .ok (.signal 0 (.int 1)) := fun _ => rfl
  exact ⟨parsed, (run_eq_ok_iff parsed fresh.1 fresh.2 _).mpr (evaluated 9988)⟩

end TreeWalk
