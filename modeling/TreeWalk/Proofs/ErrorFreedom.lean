import TreeWalk.Proofs.Invariant

/-! Errors are never stored.

An error ends the run that meets it, so it is not a value that anything else is made of: it is not bound
to a name, not put into an array, not carried by a signal, and not passed to an application. A world into
which no error has been put from outside therefore never gets one, also where a run ends with an error
or is cut off. -/
namespace TreeWalk

namespace Value

/-- A value is inside another: it is that value itself, or inside an element of an array, or inside what
a signal carries. -/
inductive Inside : Value → Value → Prop where
  | here : Inside value value
  | element (member : item ∈ items) (inside : Inside part item) : Inside part (.array items)
  | carried (inside : Inside part value) : Inside part (.signal serial value)

/-- No error is inside the value, at any depth. -/
def ErrorFree (value : Value) : Prop := ∀ part : Value, part.Inside value → part.kind ≠ .error

namespace ErrorFree

/-- A value without parts is free of errors unless it is one. -/
theorem of_no_parts {value : Value} (noArray : value.kind ≠ .array) (noSignal : value.kind ≠ .signal)
    (noError : value.kind ≠ .error) : value.ErrorFree := by
  intro part inside
  cases inside with
  | here => exact noError
  | element => exact absurd rfl noArray
  | carried => exact absurd rfl noSignal

theorem plain {value : Value} (plain : value.Plain) : value.ErrorFree := by
  cases value with
  | array | function | signal | error => cases plain
  | _ => exact of_no_parts nofun nofun nofun

theorem array_iff : ErrorFree (.array items) ↔ ∀ item ∈ items, ErrorFree item := by
  constructor
  · intro whole item member part inside
    exact whole part (.element member inside)
  · intro items part inside
    cases inside with
    | here => exact fun isError => by cases isError
    | element member inside => exact items _ member part inside

theorem signal_iff : ErrorFree (.signal serial value) ↔ ErrorFree value := by
  constructor
  · intro whole part inside
    exact whole part (.carried inside)
  · intro carried part inside
    cases inside with
    | here => exact fun isError => by cases isError
    | carried inside => exact carried part inside

theorem unwrap {value : Value} (errorFree : value.ErrorFree) : value.unwrap.ErrorFree := by
  cases value with
  | signal => exact signal_iff.mp errorFree
  | _ => exact errorFree

end ErrorFree

end Value

/-- No error is inside anything that is bound to a name. -/
def World.ErrorFree (world : World) : Prop := ∀ value, world.Stores value → value.ErrorFree

/-- Runs of any code, in any scope, pass on and store only what is free of errors. -/
def errorFreedom : Invariant where
  value _ value := value.ErrorFree
  scope _ _ := True
  outer _ _ := True
  code _ := True
  result _ _ value := value.ErrorFree
  world := World.ErrorFree
  least := 0
  value_later _ errorFree := errorFree
  scope_later _ _ := trivial
  plain := Value.ErrorFree.plain
  array_iff := Value.ErrorFree.array_iff
  result_of_value errorFree _ := errorFree
  operand _ _ := ⟨trivial, fun _ _ given => given⟩
  statement _ _ := ⟨trivial, fun _ _ given => given⟩
  program _ _ := ⟨trivial, fun _ _ given => given.unwrap⟩
  signal _ errorFree := Value.ErrorFree.signal_iff.mpr errorFree
  closure _ _ := .of_no_parts nofun nofun nofun
  functionBody _ _ := ⟨trivial, fun _ _ given => given.unwrap⟩
  opened _ := trivial
  fresh _ _ := trivial
  enough _ := Nat.zero_le _
  found errorFree _ found := errorFree _ (World.stores_of_find? found)
  bind_kept errorFree _ new value stored := by
    rcases World.stores_of_bind stored with rfl | old
    · exact new
    · exact errorFree value old
  addScope_kept errorFree _ new value stored := by
    rcases World.stores_of_addScope stored with ⟨binding, member, rfl⟩ | old
    · exact new binding member
    · exact errorFree value old
  same_scopes errorFree same value stored := errorFree value (by rwa [World.Stores, same] at stored)

/-- No error is inside what is bound, what is passed to an application or compared, or what a request gives. -/
def Event.ErrorFree : Event → Prop
  | .acted (.bind _ _ value) _ => value.ErrorFree
  | .acted (.addScope scope) _ => ∀ binding ∈ scope.bindings, binding.2.ErrorFree
  | .acted _ _ => True
  | .asked (.eval ..) _ ending => ∀ value, ending.1 = .ok value → value.ErrorFree
  | .asked (.apply callee args) _ ending =>
    callee.ErrorFree ∧ (∀ arg ∈ args, arg.ErrorFree) ∧ ∀ value, ending.1 = .ok value → value.ErrorFree
  | .asked (.compare left right) _ ending =>
    left.ErrorFree ∧ right.ErrorFree ∧ ∀ value, ending.1 = .ok value → value.ErrorFree

theorem Event.errorFree_of_fits (fits : errorFreedom.Fits event) : event.ErrorFree := by
  cases event with
  | acted action start =>
    obtain ⟨_, allowed⟩ := fits
    cases action with
    | bind scope name value => exact allowed.2
    | addScope scope => exact allowed.2
    | _ => trivial
  | asked request start ending =>
    obtain ⟨_, asked, ends⟩ := fits
    cases request with
    | eval code scope => exact ends.result
    | apply callee args => exact ⟨asked.1, asked.2, ends.result⟩
    | compare left right => exact ⟨asked.1, asked.2, fun value given => .plain (ends.result value given)⟩

/-- A request has put no error anywhere: not into the world that its report leaves, not into the value
that is reported, unless the value is an error itself, and not into anything on the way. -/
structure Request.LeavesErrorFree (request : Request) (depth : Nat) (world : World)
    (report : Except Fault Value × World) : Prop where
  stored : report.2.ErrorFree
  reported : ∀ value, report.1 = .ok value → value.kind ≠ .error → value.ErrorFree
  onTheWay : ∀ event ∈ request.trace depth world, event.ErrorFree

/-- What the caller of an application sees is free of errors, if the application ends so. -/
theorem outcome_errorFree (given : ∀ value, ending.1 = .ok value → value.ErrorFree)
    (reported : (outcome ending).1 = .ok value) (noError : value.kind ≠ .error) : value.ErrorFree := by
  obtain ⟨result, after⟩ := ending
  cases result with
  | ok result =>
    cases reported
    exact given value rfl
  | error reason =>
    cases reason with
    | malformed fault => cases reported
    | failed | tooDeep =>
      cases reported
      exact absurd rfl noError

/-- In a world without errors, evaluating any tree in any scope leaves a world without errors, and so does
applying a value without errors to arguments without errors. What is given back has no error inside either
unless it is an error, and nothing that is bound, passed or given on the way has. It makes no difference
how the run ends: with a value, an error, a fault, or because it went too deep. -/
theorem errors_are_never_stored (depth : Nat) (errorFree : World.ErrorFree world) :
    (∀ tree scope, (Request.eval (.ofTree tree) scope).LeavesErrorFree depth world
      (evaluateTo depth (.ofTree tree) tree.describe scope world)) ∧
    ∀ callee args, callee.ErrorFree → (∀ arg ∈ args, arg.ErrorFree) →
      (Request.apply callee args).LeavesErrorFree depth world
        (outcome ((Request.apply callee args).perform depth world)) := by
  constructor
  · intro tree scope
    have asked : errorFreedom.asks world.scopes.size (.eval (.ofTree tree) scope) := ⟨trivial, trivial⟩
    have events := (Request.run_keeps errorFreedom depth _ errorFree asked).2
    obtain ⟨kept, results⟩ := evaluateTo_keeps errorFreedom depth tree.describe errorFree asked
    refine ⟨kept, fun value given noError => ?_, fun event member => Event.errorFree_of_fits (events event member)⟩
    rcases results value given with ⟨serial, failure, rfl⟩ | ⟨_, inner, innerFree, rfl⟩
    · exact absurd rfl noError
    · exact Value.ErrorFree.unwrap innerFree
  · intro callee args calleeFree argsFree
    obtain ⟨ends, events⟩ :=
      Request.run_keeps errorFreedom depth (.apply callee args) errorFree ⟨calleeFree, argsFree⟩
    exact ⟨outcome_keeps errorFreedom ends.world, fun value => outcome_errorFree ends.result,
      fun event member => Event.errorFree_of_fits (events event member)⟩

/-- The second statement of `var a = [1]; var b = [2, -"s"]` ends with an error, because a text cannot be
negated: `b` is not bound, and neither `a` nor the arrays that were there before have an error inside. -/
theorem errors_are_never_stored_of_negated_text :
    let name : String → Tree := .leaf (.terminal .identifier)
    let numeral : String → Tree := .leaf (.terminal .integer)
    let negated : Tree := .node .unary [.leaf (.terminal .minus) "-", .leaf (.terminal .string) "s"]
    let nested : Value := .array [.int 1, .array [.str "s"]]
    let world : World := ⟨#[⟨none, [("xs", nested)]⟩], 0, [], "", []⟩
    let tree : Tree := .node .program [.node .declaration [name "a", .node .array [numeral "1"]],
      .node .declaration [name "b", .node .array [numeral "2", negated]]]
    let report := evaluateTo 5 (.ofTree tree) tree.describe 0 world
    world.ErrorFree ∧ report.1 = .ok (.error 0 (.unknownUnary .negate .string)) ∧
      report.2.scopes = #[⟨none, [("xs", nested), ("a", .array [.int 1])]⟩] ∧ report.2.ErrorFree := by
  intro name numeral negated nested world tree report
  have errorFree : world.ErrorFree := by
    rintro value ⟨scope, inWorld, binding, member, rfl⟩
    cases List.mem_singleton.mp (Array.mem_toList_iff.mpr inWorld)
    rw [List.mem_singleton.mp member]
    have number : Value.ErrorFree (.int 1) := .plain trivial
    have text : Value.ErrorFree (.str "s") := .plain trivial
    simp [nested, Value.ErrorFree.array_iff, number, text]
  exact ⟨errorFree, rfl, rfl, ((errors_are_never_stored 5 errorFree).1 tree 0).stored⟩

end TreeWalk
