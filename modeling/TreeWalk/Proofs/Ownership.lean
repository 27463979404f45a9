import TreeWalk.Proofs.ParsedCode
import TreeWalk.Proofs.Simulation
import TreeWalk.Proofs.Traffic

/-! What a world owns.

A world hands out identities and scopes in order, so what it has handed out is known by two numbers. A
value belongs to a world if all identities and scopes in it were handed out there, and if every function
in it has distinct parameters and the body of a well-formed block. Runs of faultless code in a world that
owns what it stores only give what the world owns afterwards, and they meet no fault.

That scopes are old enough is an invariant of single runs. Identities are judged by their number at the
end of the run, which is not known on the way; a run that is compared with itself, and counts as lost
once it goes beyond that number, shows both that they are old enough and that there is no fault. -/
namespace TreeWalk

open Value (Alike)

namespace Value

/-- All identities in a value have a property, and all functions in it another. -/
inductive Built (serial : Nat → Prop) (closure : List String → List Code → Nat → Prop) : Value → Prop where
  | plain (plain : value.Plain) : Built serial closure value
  | array (items : ∀ item ∈ elements, Built serial closure item) : Built serial closure (.array elements)
  | function (known : serial s) (formed : closure params body scope) :
      Built serial closure (.function s params body scope)
  | signal (known : serial s) (inner : Built serial closure value) : Built serial closure (.signal s value)
  | error {failure : Failure} (known : serial s) : Built serial closure (.error s failure)

namespace Built

variable {serial serial' : Nat → Prop} {closure closure' : List String → List Code → Nat → Prop}

theorem mono (built : Built serial closure value) (serials : ∀ s, serial s → serial' s)
    (closures : ∀ params body scope, closure params body scope → closure' params body scope) :
    Built serial' closure' value := by
  induction built with
  | plain plain => exact .plain plain
  | array _ ih => exact .array ih
  | function known formed => exact .function (serials _ known) (closures _ _ _ formed)
  | signal known _ ih => exact .signal (serials _ known) ih
  | error known => exact .error (serials _ known)

theorem array_iff : Built serial closure (.array items) ↔ ∀ item ∈ items, Built serial closure item := by
  refine ⟨fun built => ?_, .array⟩
  cases built with
  | plain plain => cases plain
  | array items => exact items

theorem of_function (built : Built serial closure (.function s params body scope)) :
    serial s ∧ closure params body scope := by
  cases built with
  | plain plain => cases plain
  | function known formed => exact ⟨known, formed⟩

theorem of_signal (built : Built serial closure (.signal s value)) :
    serial s ∧ Built serial closure value := by
  cases built with
  | plain plain => cases plain
  | signal known inner => exact ⟨known, inner⟩

theorem of_error {failure : Failure} (built : Built serial closure (.error s failure)) : serial s := by
  cases built with
  | plain plain => cases plain
  | error known => exact known

theorem unwrap (built : Built serial closure value) : Built serial closure value.unwrap := by
  cases value with
  | signal => exact built.of_signal.2
  | _ => exact built

/-- Two judgements of one value as one. -/
theorem and (first : Built serial closure value) (second : Built serial' closure' value) :
    Built (fun s => serial s ∧ serial' s)
      (fun params body scope => closure params body scope ∧ closure' params body scope) value := by
  induction first with
  | plain plain => exact .plain plain
  | array _ ih => exact .array fun item member => ih item member (array_iff.mp second item member)
  | function known formed =>
    exact .function ⟨known, second.of_function.1⟩ ⟨formed, second.of_function.2⟩
  | signal known _ ih => exact .signal ⟨known, second.of_signal.1⟩ (ih second.of_signal.2)
  | error known => exact .error ⟨known, second.of_error⟩

/-- A value is alike to itself if a matching takes its identities and scopes to themselves. -/
theorem alike {m : Matching} (built : Built serial closure value) (serials : ∀ s, serial s → m.serial s s)
    (closures : ∀ params body scope, closure params body scope →
      m.code (.function params body) ∧ m.scope scope scope) : Alike m value value := by
  induction built with
  | plain plain => exact .plain plain
  | array _ ih => exact .array (List.forall₂_same.mpr ih)
  | function known formed =>
    obtain ⟨literal, scopes⟩ := closures _ _ _ formed
    exact .function (serials _ known) scopes literal
  | signal known _ ih => exact .signal (serials _ known) ih
  | error known => exact .error (serials _ known)

end Built

mutual

/-- What a matching says of identities and functions holds in the first of two values that are alike. -/
theorem Alike.built {m : Matching} {value value' : Value} : Alike m value value' →
    Built (fun s => ∃ s', m.serial s s') (fun params body _ => m.code (.function params body)) value
  | .plain plain => .plain plain
  | .array items => .array (built_of_forall₂ items)
  | .function serials _ literal => .function ⟨_, serials⟩ literal
  | .signal serials inner => .signal ⟨_, serials⟩ inner.built
  | .error serials => .error ⟨_, serials⟩

theorem built_of_forall₂ {m : Matching} {items items' : List Value} : List.Forall₂ (Alike m) items items' →
    ∀ item ∈ items,
      Built (fun s => ∃ s', m.serial s s') (fun params body _ => m.code (.function params body)) item
  | .nil => nofun
  | .cons first rest => List.forall_mem_cons.mpr ⟨first.built, built_of_forall₂ rest⟩

end

mutual

/-- Under a matching of everything with itself, what is alike is equal. -/
theorem Alike.eq {m : Matching} {value value' : Value} (serials : ∀ {s s'}, m.serial s s' → s = s')
    (scopes : ∀ {s s'}, m.scope s s' → s = s') : Alike m value value' → value = value'
  | .plain _ => rfl
  | .array items => congrArg _ (eq_of_forall₂ serials scopes items)
  | .function sameSerial sameScope _ => by rw [serials sameSerial, scopes sameScope]
  | .signal sameSerial inner => by rw [serials sameSerial, inner.eq serials scopes]
  | .error sameSerial => by rw [serials sameSerial]

theorem eq_of_forall₂ {m : Matching} {items items' : List Value} (serials : ∀ {s s'}, m.serial s s' → s = s')
    (scopes : ∀ {s s'}, m.scope s s' → s = s') : List.Forall₂ (Alike m) items items' → items = items'
  | .nil => rfl
  | .cons first rest => by rw [first.eq serials scopes, eq_of_forall₂ serials scopes rest]

end

end Value

/-- Everything that is matched is matched with itself; identities have to be of some kind. -/
structure Matching.Diagonal (m : Matching) (serial : Nat → Prop) : Prop where
  serials : m.serial s s' ↔ s = s' ∧ serial s
  scopes : m.scope s s' ↔ s = s'

namespace Matching.Diagonal

variable {m : Matching} {serial : Nat → Prop}

/-- Values that are alike are one value, built of what is matched. -/
theorem alike_iff (diagonal : m.Diagonal serial) :
    Alike m value value' ↔
      value = value' ∧ value.Built serial fun params body _ => m.code (.function params body) := by
  constructor
  · intro alike
    refine ⟨alike.eq (fun same => (diagonal.serials.mp same).1) diagonal.scopes.mp,
      alike.built.mono ?_ fun _ _ _ => id⟩
    rintro s ⟨s', same⟩
    exact (diagonal.serials.mp same).2
  · rintro ⟨rfl, built⟩
    exact built.alike (fun s known => diagonal.serials.mpr ⟨rfl, known⟩)
      fun _ _ _ allowed => ⟨allowed, diagonal.scopes.mpr rfl⟩

/-- Bindings that correspond are the same ones. -/
theorem binds_eq (diagonal : m.Diagonal serial) (bound : List.Forall₂ m.Binds bindings bindings') :
    bindings = bindings' ∧ ∀ binding ∈ bindings, m.name binding.1 ∧
      binding.2.Built serial fun params body _ => m.code (.function params body) := by
  induction bound with
  | nil => exact ⟨rfl, List.forall_mem_nil _⟩
  | @cons first second _ _ binds _ ih =>
    obtain ⟨name, value⟩ := first
    obtain ⟨sameName, allowed, alike⟩ := binds
    obtain ⟨rfl, built⟩ := diagonal.alike_iff.mp alike
    obtain ⟨rfl, others⟩ := ih
    cases sameName
    exact ⟨rfl, List.forall_mem_cons.mpr ⟨⟨allowed, built⟩, others⟩⟩

end Matching.Diagonal

namespace World

/-- Whatever lies inside a scope was added after it. -/
def OutersOlder (world : World) : Prop :=
  ∀ (i : Nat) (scope : Scope) (outer : Nat), world.scopes[i]? = some scope → scope.outer = some outer → outer < i

theorem OutersOlder.bind (older : OutersOlder world) (scope : Nat) (name : String) (value : Value) :
    (world.bind scope name value).OutersOlder := by
  intro i holder outer present isOuter
  rw [World.bind_getElem?] at present
  split at present
  · obtain ⟨own, found, rfl⟩ := Option.map_eq_some_iff.mp present
    exact older i own outer found isOuter
  · exact older i holder outer present isOuter

theorem OutersOlder.addScope (older : OutersOlder world) (scope : Scope)
    (inside : ∀ outer, scope.outer = some outer → outer < world.scopes.size) :
    (world.addScope scope).2.OutersOlder := by
  intro i holder outer present isOuter
  rw [World.addScope, Array.getElem?_push] at present
  split at present
  · rename_i isNew
    cases present
    rw [isNew]
    exact inside outer isOuter
  · exact older i holder outer present isOuter

end World

namespace Value

/-- The functions in a value are faultless and were made in scopes that there are. -/
def Placed (size : Nat) : Value → Prop :=
  Built (fun _ => True) fun params body scope => (Code.function params body).Faultless ∧ scope < size

theorem Placed.later (placed : Placed size value) (grown : size ≤ size') : Placed size' value :=
  placed.mono (fun _ => id) fun _ _ _ formed => ⟨formed.1, Nat.lt_of_lt_of_le formed.2 grown⟩

/-- The functions in a value are faultless, and the identities in it were handed out. -/
def Numbered (bound : Nat) : Value → Prop :=
  Built (· < bound) fun params body _ => (Code.function params body).Faultless

end Value

/-- Runs of faultless code store and give only values whose scopes there are. -/
def placement : Invariant where
  value := Value.Placed
  scope size s := s < size
  outer size s := s < size
  code := Code.Faultless
  result size _ v := v.Placed size
  world w := (∀ v, w.Stores v → v.Placed w.scopes.size) ∧ w.OutersOlder
  least := 0
  value_later grown placed := placed.later grown
  scope_later grown inside := Nat.lt_of_lt_of_le inside grown
  plain := .plain
  array_iff := Value.Built.array_iff
  result_of_value placed _ := placed
  operand allowed member := ⟨(allowed.operands _ member).faultless, fun _ _ placed => placed⟩
  statement allowed member := ⟨(allowed.statements _ member).faultless, fun _ _ placed => placed⟩
  program allowed member := ⟨(allowed.enclosed _ member).faultless, fun _ _ placed => placed.unwrap⟩
  signal _ placed := .signal trivial placed
  closure allowed inside := .function trivial ⟨allowed, inside⟩
  functionBody placed member :=
    ⟨(placed.of_function.2.1.enclosed _ member).faultless, fun _ _ inner => inner.unwrap⟩
  opened placed := placed.of_function.2.2
  fresh _ _ := Nat.lt_succ_self _
  enough _ := Nat.zero_le _
  found kept _ found := kept.1 _ (World.stores_of_find? found)
  bind_kept kept inside placed := by
    refine ⟨fun other stored => ?_, kept.2.bind _ _ _⟩
    rw [World.bind_size]
    rcases World.stores_of_bind stored with rfl | old
    · exact placed
    · exact kept.1 other old
  addScope_kept kept inside placed := by
    refine ⟨fun other stored => ?_, kept.2.addScope _ ?_⟩
    · rcases World.stores_of_addScope stored with ⟨binding, member, rfl⟩ | old
      · exact (placed binding member).later (by simp [World.addScope])
      · exact (kept.1 other old).later (by simp [World.addScope])
    · rintro outer ⟨⟩
      exact inside
  same_scopes kept same := by
    refine ⟨fun other stored => ?_, ?_⟩
    · rw [World.Stores, same] at stored
      rw [same]
      exact kept.1 other stored
    · rw [World.OutersOlder, same]
      exact kept.2

/-- Everything stands for itself; identities below a bound are compared. -/
def sameBelow (bound : Nat) : Matching where
  serial s s' := s = s' ∧ s < bound
  scope s s' := s = s'
  name _ := True
  code := Code.Faultless
  serial_eq_iff first second := by rw [first.1, second.1]
  operand allowed member := (allowed.operands _ member).faultless
  statement allowed member := (allowed.statements _ member).faultless
  enclosed allowed member := (allowed.enclosed _ member).faultless
  mentions _ _ := trivial

theorem sameBelow_diagonal (bound : Nat) : (sameBelow bound).Diagonal (· < bound) := ⟨.rfl, .rfl⟩

theorem alike_sameBelow_iff : Alike (sameBelow bound) value value' ↔ value = value' ∧ value.Numbered bound :=
  (sameBelow_diagonal bound).alike_iff

/-- A run of faultless code, compared with itself until it has handed out all identities below a bound. -/
def identities (bound : Nat) : Simulation where
  toMatching := sameBelow bound
  world w w' := w = w' ∧ w.nextSerial ≤ bound ∧ ∀ v, w.Stores v → v.Numbered bound
  lost w := bound < w.nextSerial
  lost_kept lost action := Nat.lt_of_lt_of_le lost (action.perform_precedes _).serials
  takeSerial_kept := by
    rintro w _ ⟨rfl, within, stored⟩
    rcases Nat.lt_or_ge w.nextSerial bound with below | full
    · exact .inr ⟨⟨rfl, below⟩, rfl, below, stored⟩
    · exact .inl (Nat.lt_succ_of_le full)
  addScope_kept := by
    rintro w _ _ _ _ _ ⟨rfl, within, stored⟩ rfl bound
    obtain ⟨rfl, built⟩ := (sameBelow_diagonal _).binds_eq bound
    refine ⟨rfl, rfl, within, fun value held => ?_⟩
    rcases World.stores_of_addScope held with ⟨binding, member, rfl⟩ | old
    · exact (built binding member).2
    · exact stored value old
  bind_kept := by
    rintro w _ s _ n v _ ⟨rfl, within, stored⟩ rfl _ alike
    obtain ⟨rfl, numbered⟩ := alike_sameBelow_iff.mp alike
    refine ⟨rfl, by rwa [World.bind_nextSerial], fun value held => ?_⟩
    rcases World.stores_of_bind held with rfl | old
    · exact numbered
    · exact stored value old
  find_kept := by
    rintro w _ s _ n ⟨rfl, within, stored⟩ rfl _
    cases found : w.find? n s with
    | none => exact .none
    | some value => exact .some (alike_sameBelow_iff.mpr ⟨rfl, stored value (World.stores_of_find? found)⟩)
  print_kept := by
    rintro w _ text ⟨rfl, within, stored⟩
    exact ⟨rfl, within, stored⟩
  readLine_kept := by
    rintro w _ ⟨rfl, within, stored⟩
    exact .inr ⟨rfl, rfl, within, stored⟩
  log_kept := by
    rintro w _ note ⟨rfl, within, stored⟩
    exact ⟨rfl, within, stored⟩

namespace World

/-- All identities and scopes in a value were handed out by the world, and every function in it has
distinct parameters and the statements of a well-formed block. -/
def Owns (world : World) : Value → Prop :=
  Value.Built (· < world.nextSerial)
    fun params body scope => params.Nodup ∧ Code.IsBody body ∧ scope < world.scopes.size

/-- A world that owns what it stores, and whose scopes lie inside older ones only. -/
structure Sound (world : World) : Prop where
  stored : ∀ value, world.Stores value → world.Owns value
  outers : world.OutersOlder

/-- What has been handed out stays handed out. -/
structure Grows (before after : World) : Prop where
  scopes : before.scopes.size ≤ after.scopes.size
  serials : before.nextSerial ≤ after.nextSerial

theorem Grows.trans (first : Grows before middle) (second : Grows middle after) : Grows before after :=
  ⟨first.scopes.trans second.scopes, first.serials.trans second.serials⟩

theorem Owns.later (owns : Owns before value) (grows : Grows before after) : after.Owns value :=
  owns.mono (fun _ below => Nat.lt_of_lt_of_le below grows.serials)
    fun _ _ _ formed => ⟨formed.1, formed.2.1, Nat.lt_of_lt_of_le formed.2.2 grows.scopes⟩

theorem owns_iff {world : World} :
    world.Owns value ↔ value.Placed world.scopes.size ∧ value.Numbered world.nextSerial := by
  constructor
  · intro owns
    refine ⟨owns.mono (fun _ _ => trivial) ?_, owns.mono (fun _ => id) ?_⟩
    · exact fun _ _ _ formed => ⟨Code.faultless_function_iff.mpr ⟨formed.1, formed.2.1⟩, formed.2.2⟩
    · exact fun _ _ _ formed => Code.faultless_function_iff.mpr ⟨formed.1, formed.2.1⟩
  · rintro ⟨placed, numbered⟩
    refine (placed.and numbered).mono (fun _ => And.right) ?_
    intro params body scope formed
    obtain ⟨distinct, isBody⟩ := Code.faultless_function_iff.mp formed.2
    exact ⟨distinct, isBody, formed.1.2⟩

end World

/-- Everything in a request belongs to the world. -/
def Request.Owned (world : World) : Request → Prop
  | eval code scope => code.Faultless ∧ scope < world.scopes.size
  | apply callee args => world.Owns callee ∧ ∀ arg ∈ args, world.Owns arg
  | compare left right => world.Owns left ∧ world.Owns right

/-- A run that met no fault, and after which the world owns what it stores and what came of the run. -/
structure Settled (before : World) (ending : Ending Value) : Prop where
  grows : before.Grows ending.2
  sound : ending.2.Sound
  value : ∀ value, ending.1 = .ok value → ending.2.Owns value
  failed : ∀ serial failure, ending.1 = .error (.failed serial failure) → serial < ending.2.nextSerial
  faultless : ∀ fault, ending.1 ≠ .error (.malformed fault)

theorem Request.Owned.asks (owned : Owned world request) : placement.asks world.scopes.size request := by
  cases request with
  | eval code scope => exact owned
  | apply callee args =>
    exact ⟨(World.owns_iff.mp owned.1).1, fun arg member => (World.owns_iff.mp (owned.2 arg member)).1⟩
  | compare left right => exact ⟨(World.owns_iff.mp owned.1).1, (World.owns_iff.mp owned.2).1⟩

theorem Request.Owned.parallel (owned : Owned world request) (within : world.nextSerial ≤ bound) :
    request.Parallel (sameBelow bound) request := by
  have alike : ∀ value, world.Owns value → Alike (sameBelow bound) value value := fun value owns =>
    alike_sameBelow_iff.mpr ⟨rfl, (World.owns_iff.mp owns).2.mono
      (fun _ below => Nat.lt_of_lt_of_le below within) fun _ _ _ => id⟩
  cases request with
  | eval code scope => exact .eval owned.1 rfl
  | apply callee args =>
    exact .apply (alike callee owned.1) (List.forall₂_same.mpr fun arg member => alike arg (owned.2 arg member))
  | compare left right => exact .compare (alike left owned.1) (alike right owned.2)

/-- Runs in a sound world settle, at every depth. -/
theorem Request.perform_settled (depth : Nat) (sound : world.Sound) (owned : Owned world request) :
    Settled world (request.perform depth world) := by
  have stored : ∀ value, world.Stores value → value.Placed _ ∧ value.Numbered _ := fun value held =>
    World.owns_iff.mp (sound.stored value held)
  have placed := (run_keeps placement depth request ⟨fun value held => (stored value held).1, sound.outers⟩
    owned.asks).1
  have serials := (perform_precedes depth request world).serials
  -- The bound is the number of identities that have been handed out at the end.
  have worlds : (identities (request.perform depth world).2.nextSerial).world world world :=
    ⟨rfl, serials, fun value held => (stored value held).2.mono
      (fun _ below => Nat.lt_of_lt_of_le below serials) fun _ _ _ => id⟩
  have follows := perform_parallel depth (owned.parallel serials) worlds
  generalize request.perform depth world = ending at *
  rcases follows with lost | alike
  · exact absurd lost (Nat.lt_irrefl _)
  obtain ⟨result, after⟩ := ending
  have grows : world.Grows after := ⟨placed.grown, serials⟩
  have soundAfter : (∀ value, after.Stores value → value.Numbered after.nextSerial) → after.Sound :=
    fun numbered => ⟨fun value held => World.owns_iff.mpr ⟨placed.world.1 value held, numbered value held⟩,
      placed.world.2⟩
  cases alike with
  | @ok value _ _ _ kept worldsAfter =>
    refine ⟨grows, soundAfter worldsAfter.2.2, ?_, nofun, nofun⟩
    rintro _ ⟨⟩
    have isPlaced : value.Placed after.scopes.size := by
      have replied := placed.result value rfl
      cases request with
      | eval | apply => exact replied
      | compare => exact placement.plain replied
    exact World.owns_iff.mpr ⟨isPlaced, (alike_sameBelow_iff.mp kept).2⟩
  | failed sameSerial worldsAfter =>
    refine ⟨grows, soundAfter worldsAfter.2.2, nofun, ?_, nofun⟩
    rintro _ _ ⟨⟩
    exact sameSerial.2
  | malformed allowed => exact absurd rfl (allowed.notFault _)
  | tooDeep worldsAfter => exact ⟨grows, soundAfter worldsAfter.2.2, nofun, nofun, nofun⟩

/-- What a run that settled looks like to its caller: there is always a value, which the world owns. -/
theorem Settled.outcome (settled : Settled before ending) :
    ∃ value after, outcome ending = (.ok value, after) ∧ before.Grows after ∧ after.Sound ∧ after.Owns value := by
  obtain ⟨result, after⟩ := ending
  cases result with
  | ok value => exact ⟨value, after, rfl, settled.grows, settled.sound, settled.value value rfl⟩
  | error reason =>
    cases reason with
    | failed serial failure =>
      exact ⟨_, after, rfl, settled.grows, settled.sound, .error (settled.failed serial failure rfl)⟩
    | malformed fault => exact absurd rfl (settled.faultless fault)
    | tooDeep =>
      have grows : after.Grows after.takeSerial.2 := ⟨Nat.le_refl _, Nat.le_succ _⟩
      refine ⟨_, after.takeSerial.2, rfl, settled.grows.trans grows, ?_, .error (Nat.lt_succ_self _)⟩
      exact ⟨fun value held => (settled.sound.stored value held).later grows, settled.sound.outers⟩

/-- The end of an evaluation is reported like that of an application, once a signal has given up its value
and the end of the depth has been logged. -/
theorem Settled.evaluateTo (settled : Settled world ((Request.eval code scope).perform depth world))
    (what : String) :
    ∃ value after, evaluateTo depth code what scope world = (.ok value, after) ∧ world.Grows after ∧
      after.Sound ∧ after.Owns value := by
  unfold TreeWalk.evaluateTo
  generalize (Request.eval code scope).perform depth world = ending at *
  obtain ⟨result, after⟩ := ending
  cases result with
  | ok value => exact ⟨_, after, rfl, settled.grows, settled.sound, (settled.value value rfl).unwrap⟩
  | error reason =>
    cases reason with
    | failed | malformed => exact settled.outcome
    | tooDeep =>
      have logged : Settled world (.error .tooDeep, after.log (.depthReached what)) :=
        ⟨⟨settled.grows.scopes, settled.grows.serials⟩, ⟨settled.sound.stored, settled.sound.outers⟩, nofun,
          nofun, nofun⟩
      exact logged.outcome

end TreeWalk
