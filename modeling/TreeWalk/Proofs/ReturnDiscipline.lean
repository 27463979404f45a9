import TreeWalk.Proofs.Invariant

/-! Where a `return` may stand.

A `return` makes a signal, which blocks, branches and loops hand on and which gives up its value at the
end of a function or a program. Where code works on a value nothing looks for a signal, so there it would
be stored or passed on like any other value. Code is disciplined if no part whose value is worked on
holds a `return`, that of a function literal aside. Disciplined code, in a world without signals, lets no
signal get into a scope, into an array, or into or out of an application. -/
namespace TreeWalk

namespace Code

/-- Running the code can end in a `return` of its own. Those inside a function literal are not its own. -/
inductive HoldsReturn : Code → Prop where
  | here : HoldsReturn (giveBack value)
  | operand (member : part ∈ whole.operands) (inside : HoldsReturn part) : HoldsReturn whole
  | statement (member : part ∈ whole.statements) (inside : HoldsReturn part) : HoldsReturn whole

/-- No part whose value is worked on holds a `return`, neither here nor further inside. -/
inductive Disciplined : Code → Prop where
  | intro (quiet : ∀ part ∈ whole.operands, ¬ part.HoldsReturn)
      (operands : ∀ part ∈ whole.operands, Disciplined part)
      (statements : ∀ part ∈ whole.statements, Disciplined part)
      (enclosed : ∀ part ∈ whole.enclosed, Disciplined part) : Disciplined whole

namespace Disciplined

theorem of_no_parts (operands : whole.operands = []) (statements : whole.statements = [])
    (enclosed : whole.enclosed = []) : Disciplined whole :=
  .intro (by simp [operands]) (by simp [operands]) (by simp [statements]) (by simp [enclosed])

theorem operand_quiet (disciplined : Disciplined whole) (member : part ∈ whole.operands) :
    ¬ part.HoldsReturn := by
  cases disciplined with
  | intro quiet => exact quiet part member

theorem operand (disciplined : Disciplined whole) (member : part ∈ whole.operands) : part.Disciplined := by
  cases disciplined with
  | intro _ operands => exact operands part member

theorem statement (disciplined : Disciplined whole) (member : part ∈ whole.statements) :
    part.Disciplined := by
  cases disciplined with
  | intro _ _ statements => exact statements part member

theorem enclosed (disciplined : Disciplined whole) (member : part ∈ whole.enclosed) : part.Disciplined := by
  cases disciplined with
  | intro _ _ _ enclosed => exact enclosed part member

end Disciplined

/-- Code that neither makes a signal nor hands one on nor has it give up its value. -/
def Ordinary : Code → Prop
  | .program _ | .block _ | .giveBack _ | .loop .. | .branch .. => False
  | _ => True

theorem Ordinary.not_holdsReturn {code : Code} (ordinary : code.Ordinary) (disciplined : code.Disciplined) :
    ¬ code.HoldsReturn := by
  intro holds
  cases holds with
  | here => cases ordinary
  | operand member inside => exact disciplined.operand_quiet member inside
  | statement member inside =>
    cases code with
    | program | block | giveBack | loop | branch => cases ordinary
    | _ => cases member

/-- Disciplined code that holds no `return`. -/
def Steady (code : Code) : Prop := code.Disciplined ∧ ¬ code.HoldsReturn

theorem Disciplined.of_steady {whole : Code} (operands : ∀ part ∈ whole.operands, part.Steady)
    (statements : ∀ part ∈ whole.statements, part.Disciplined)
    (enclosed : ∀ part ∈ whole.enclosed, part.Disciplined) : whole.Disciplined :=
  .intro (fun part member => (operands part member).2) (fun part member => (operands part member).1)
    statements enclosed

theorem Ordinary.steady {whole : Code} (ordinary : whole.Ordinary)
    (operands : ∀ part ∈ whole.operands, part.Steady) (enclosed : whole.enclosed = []) : whole.Steady := by
  have statements : whole.statements = [] := by
    cases whole with
    | program | block | giveBack | loop | branch => cases ordinary
    | _ => rfl
  have disciplined : whole.Disciplined := .of_steady operands (by simp [statements]) (by simp [enclosed])
  exact ⟨disciplined, ordinary.not_holdsReturn disciplined⟩

end Code

/-- A value with no signal in it, and with no function whose body is undisciplined. -/
inductive Value.Clean : Value → Prop where
  | plain (plain : value.Plain) : Clean value
  | error (serial : Nat) (failure : Failure) : Clean (.error serial failure)
  | function (body : ∀ part ∈ statements, part.Disciplined) : Clean (.function serial params statements scope)
  | array (items : ∀ item ∈ elements, Clean item) : Clean (.array elements)

namespace Value.Clean

theorem array_iff : Clean (.array elements) ↔ ∀ item ∈ elements, Clean item := by
  refine ⟨fun clean => ?_, .array⟩
  cases clean with
  | plain plain => cases plain
  | array items => exact items

theorem functionBody (clean : Clean (.function serial params statements scope)) :
    ∀ part ∈ statements, part.Disciplined := by
  cases clean with
  | plain plain => cases plain
  | function body => exact body

theorem not_signal (clean : Clean value) : value.isSignal = false := by
  cases clean with
  | plain plain => exact plain.not_signal
  | error | function | array => rfl

theorem unwrap_eq (clean : Clean value) : value.unwrap = value := by
  have notSignal := clean.not_signal
  cases value with
  | signal => cases notSignal
  | _ => rfl

end Value.Clean

/-- Every stored value is clean. -/
def World.Clean (world : World) : Prop := ∀ value, world.Stores value → value.Clean

/-- What disciplined code may give: a clean value, or a clean value on its way out of code that holds a
`return`. -/
def Code.Gives (code : Code) (value : Value) : Prop :=
  value.Clean ∨ code.HoldsReturn ∧ ∃ serial inner, value = .signal serial inner ∧ inner.Clean

namespace Code.Gives

theorem clean_of_quiet (given : Code.Gives code value) (quiet : ¬ code.HoldsReturn) : value.Clean := by
  rcases given with clean | ⟨holds, _⟩
  · exact clean
  · exact absurd holds quiet

theorem clean_unwrap (given : Code.Gives code value) : value.unwrap.Clean := by
  rcases given with clean | ⟨_, serial, inner, rfl, clean⟩
  · rwa [clean.unwrap_eq]
  · exact clean

theorem of_statement (given : Code.Gives part value) (member : part ∈ whole.statements) :
    Code.Gives whole value :=
  given.imp id (And.imp_left (Code.HoldsReturn.statement member))

end Code.Gives

/-- Runs of disciplined code keep clean worlds clean. -/
def returnDiscipline : Invariant where
  value _ value := value.Clean
  scope _ _ := True
  outer _ _ := True
  code := Code.Disciplined
  result _ := Code.Gives
  world := World.Clean
  least := 0
  value_later _ clean := clean
  scope_later _ _ := trivial
  plain := .plain
  array_iff := Value.Clean.array_iff
  result_of_value clean _ := .inl clean
  operand disciplined member :=
    ⟨disciplined.operand member, fun _ _ given => given.clean_of_quiet (disciplined.operand_quiet member)⟩
  statement disciplined member :=
    ⟨disciplined.statement member, fun _ _ given => given.of_statement member⟩
  program disciplined member := ⟨disciplined.enclosed member, fun _ _ given => given.clean_unwrap⟩
  signal disciplined given :=
    .inr ⟨.here, _, _, rfl, given.clean_of_quiet (disciplined.operand_quiet List.mem_cons_self)⟩
  closure disciplined _ := .function fun _ => disciplined.enclosed
  functionBody clean member := ⟨clean.functionBody _ member, fun _ _ given => given.clean_unwrap⟩
  opened _ := trivial
  fresh _ _ := trivial
  enough _ := Nat.zero_le _
  found clean _ found := clean _ (World.stores_of_find? found)
  bind_kept clean _ new value stored := by
    rcases World.stores_of_bind stored with rfl | old
    · exact new
    · exact clean value old
  addScope_kept clean _ new value stored := by
    rcases World.stores_of_addScope stored with ⟨binding, member, rfl⟩ | old
    · exact new binding member
    · exact clean value old
  same_scopes clean same value stored := clean value (by rwa [World.Stores, same] at stored)

/-- No signal is bound, compared, passed to an application or given back by one, and code gives a signal only
if it holds a `return`. -/
def Event.Clean : Event → Prop
  | .acted (.bind _ _ value) _ => value.Clean
  | .acted (.addScope scope) _ => ∀ binding ∈ scope.bindings, binding.2.Clean
  | .acted _ _ => True
  | .asked (.eval code _) _ ending => ∀ value, ending.1 = .ok value → code.Gives value
  | .asked (.apply callee args) _ ending =>
    callee.Clean ∧ (∀ arg ∈ args, arg.Clean) ∧ ∀ value, ending.1 = .ok value → value.Clean
  | .asked (.compare left right) _ ending =>
    left.Clean ∧ right.Clean ∧ ∀ value, ending.1 = .ok value → value.Clean

theorem Event.clean_of_fits (fits : returnDiscipline.Fits event) : event.Clean := by
  cases event with
  | acted action start =>
    obtain ⟨_, allowed⟩ := fits
    cases action with
    | bind scope name value => exact allowed.2
    | addScope scope => exact allowed.2
    | _ => trivial
  | asked request start ending =>
    obtain ⟨_, asked, ends⟩ := fits
    cases request with
    | eval code scope => exact ends.result
    | apply callee args => exact ⟨asked.1, asked.2, ends.result⟩
    | compare left right =>
      exact ⟨asked.1, asked.2, fun value given => .plain (ends.result value given)⟩

end TreeWalk
