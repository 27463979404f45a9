import TreeWalk.Proofs.ErrorFreedom
import TreeWalk.Proofs.HostSafety

/-! Whatever has an identity is one thing.

A world hands out identities in order. A record of what each of them went to grows at its end and never
changes, so what is known by the record at one time is known by it at all later times. Runs pass on and store
nothing that has an identity but what is on record under it: a function, a signal or an error is put on record
when it is made, and copied as it is. Two values with the same identity, found anywhere and at any time, are
therefore the same value. -/
namespace TreeWalk

namespace Value

/-- The identity of a value, if it has one. -/
def serial? : Value → Option Nat
  | function serial _ _ _ | signal serial _ | error serial _ => some serial
  | int _ | str _ | bool _ | null | array _ | builtin _ => none

/-- What is inside a part of a value is inside the value. -/
theorem Inside.trans {part middle whole : Value} (within : part.Inside middle) (inside : middle.Inside whole) :
    part.Inside whole := by
  induction inside with
  | here => exact within
  | element member _ ih => exact .element member (ih within)
  | carried _ ih => exact .carried (ih within)

/-- Everything inside a value that has an identity is what is on record under it. -/
def Known (record : List Value) (value : Value) : Prop :=
  ∀ part : Value, part.Inside value → ∀ serial, part.serial? = some serial → record[serial]? = some part

namespace Known

variable {record : List Value}

theorem later {after : List Value} (known : Known record value) (grown : record <+: after) :
    Known after value := by
  intro part inside serial isSerial
  obtain ⟨more, rfl⟩ := grown
  have present := known part inside serial isSerial
  rw [List.getElem?_append_left (List.getElem?_eq_some_iff.mp present).1, present]

theorem all_later {values after : List Value} (known : ∀ value ∈ values, Known record value)
    (grown : record <+: after) : ∀ value ∈ values, Known after value :=
  fun value member => (known value member).later grown

theorem plain {value : Value} (plain : value.Plain) : Known record value := by
  intro part inside serial isSerial
  cases inside with
  | here =>
    cases value with
    | array | function | signal | error => cases plain
    | _ => cases isSerial
  | element | carried => cases plain

theorem array_iff : Known record (.array items) ↔ ∀ item ∈ items, Known record item := by
  constructor
  · intro whole item member part inside
    exact whole part (.element member inside)
  · intro items part inside serial isSerial
    cases inside with
    | here => cases isSerial
    | element member inside => exact items _ member part inside serial isSerial

theorem function_iff : Known record (.function serial params body scope) ↔
    record[serial]? = some (.function serial params body scope) := by
  constructor
  · intro known
    exact known _ .here serial rfl
  · intro present part inside given isSerial
    cases inside with
    | here =>
      cases isSerial
      exact present

theorem error_iff {failure : Failure} :
    Known record (.error serial failure) ↔ record[serial]? = some (.error serial failure) := by
  constructor
  · intro known
    exact known _ .here serial rfl
  · intro present part inside given isSerial
    cases inside with
    | here =>
      cases isSerial
      exact present

theorem signal_iff : Known record (.signal serial value) ↔
    record[serial]? = some (.signal serial value) ∧ Known record value := by
  constructor
  · intro known
    exact ⟨known _ .here serial rfl, fun part inside => known part (.carried inside)⟩
  · rintro ⟨present, carried⟩ part inside given isSerial
    cases inside with
    | here =>
      cases isSerial
      exact present
    | carried inside => exact carried part inside given isSerial

/-- There is one value on record under each identity. -/
theorem eq_of_serial {a b : Value} (left : Known record a) (right : Known record b)
    (leftSerial : a.serial? = some serial) (rightSerial : b.serial? = some serial) : a = b :=
  Option.some.inj ((left a .here serial leftSerial).symm.trans (right b .here serial rightSerial))

theorem of_inside {whole : Value} (known : Known record whole) (inside : part.Inside whole) :
    Known record part :=
  fun _ within => known _ (within.trans inside)

theorem unwrap {value : Value} (known : Known record value) : Known record value.unwrap := by
  cases value with
  | signal => exact (signal_iff.mp known).2
  | _ => exact known

end Known

end Value

open Value (Known)

/-- The error in a reason to stop is known. -/
def Stop.Known (record : List Value) : Stop → Prop
  | .failed serial failure => Value.Known record (.error serial failure)
  | .malformed _ | .tooDeep => True

namespace Action

/-- The values that an action stores are known. -/
def Known (record : List Value) : Action → Prop
  | bind _ _ value => value.Known record
  | addScope scope => ∀ binding ∈ scope.bindings, binding.2.Known record
  | _ => True

/-- How many identities an action takes. -/
def taken : Action → Nat
  | takeSerial => 1
  | _ => 0

/-- What an action can give back: the first identity that is not on record, or a value that is known. -/
def Answers (record : List Value) : (action : Action) → action.Answer → Prop
  | takeSerial, answer => answer = record.length
  | find .., answer => ∀ value, answer = some value → value.Known record
  | addScope _, _ | bind .., _ | print _, _ | readLine, _ | log _, _ => True

end Action

/-- The values in a request are known. -/
def Request.Known (record : List Value) : Request → Prop
  | eval .. => True
  | apply callee args => callee.Known record ∧ ∀ arg ∈ args, arg.Known record
  | compare left right => left.Known record ∧ right.Known record

variable {record later : List Value}

namespace Plan

/-- A plan goes by the record if it works with known values only and puts on record what it makes, as long as
the answers that it gets are known. -/
def GoesBy (post : List Value → α → Prop) : Plan α → List Value → Prop
  | done value, record => post record value
  | stop reason, record => reason.Known record
  | act action next, record => action.Known record ∧ ∃ later, record <+: later ∧
      later.length = record.length + action.taken ∧
      ∀ answer, action.Answers record answer → (next answer).GoesBy post later
  | ask request next, record => request.Known record ∧ ∀ later value, record <+: later →
      value.Known later → (next value).GoesBy post later

theorem GoesBy.bind {plan : Plan α} {rest : α → Plan β} (first : plan.GoesBy middle record)
    (second : ∀ later value, record <+: later → middle later value → (rest value).GoesBy post later) :
    (plan >>= rest).GoesBy post record := by
  induction plan generalizing record with
  | done value => exact second record value (List.prefix_refl record) first
  | stop reason => exact first
  | act action next ih =>
    obtain ⟨known, later, grown, size, further⟩ := first
    refine ⟨known, later, grown, size, fun answer answered => ih answer (further answer answered) ?_⟩
    exact fun latest value grownMore => second latest value (grown.trans grownMore)
  | ask request next ih =>
    refine ⟨first.1, fun later value grown known => ih value (first.2 later value grown known) ?_⟩
    exact fun latest given grownMore => second latest given (grown.trans grownMore)

/-- An action that takes no identity. -/
private theorem act_goesBy {action : Action} {next : action.Answer → Plan α} (known : action.Known record)
    (none : action.taken = 0)
    (rest : ∀ answer, action.Answers record answer → (next answer).GoesBy post record) :
    (act action next).GoesBy post record :=
  ⟨known, record, List.prefix_refl record, by rw [none, Nat.add_zero], rest⟩

/-- A new identity goes to what is put on record. -/
private theorem fresh_goesBy {rest : Nat → Plan α} (made : Value)
    (further : (rest record.length).GoesBy post (record ++ [made])) :
    (freshSerial >>= rest).GoesBy post record := by
  refine ⟨trivial, record ++ [made], List.prefix_append .., by simp [Action.taken], fun answer same => ?_⟩
  cases same
  exact further

private theorem run_goesBy {code : Code} : (run code scope).GoesBy Value.Known record :=
  ⟨trivial, fun _ _ _ known => known⟩

private theorem call_goesBy (callee : value.Known record) (args : ∀ arg ∈ list, arg.Known record) :
    (call value list).GoesBy Value.Known record :=
  ⟨⟨callee, args⟩, fun _ _ _ known => known⟩

private theorem fail_goesBy {failure : Failure} : (fail failure : Plan α).GoesBy post record :=
  fresh_goesBy (.error record.length failure) (Value.Known.error_iff.mpr (by simp))

private theorem find_goesBy :
    (find name scope).GoesBy (fun later found => ∀ value, found = some value → value.Known later) record :=
  act_goesBy trivial rfl fun _ answered => answered

private theorem settle_goesBy (known : value.Known record) : (settle value).GoesBy Value.Known record := by
  cases value with
  | error serial failure => exact known
  | _ => exact known

private theorem ofResult_goesBy (made : ∀ value, result = .ok value → value.Known record) :
    (ofResult result).GoesBy Value.Known record := by
  cases result with
  | ok value => exact made value rfl
  | error failure => exact fail_goesBy

private theorem lookup_goesBy : (lookup scope name).GoesBy Value.Known record := by
  refine find_goesBy.bind fun later found grown values => ?_
  cases found with
  | some value => exact values value rfl
  | none =>
    cases Builtin.ofName? name with
    | some b => exact .plain trivial
    | none => exact fail_goesBy

private theorem sequence_goesBy (known : last.Known record) (codes : List Code) :
    (sequence scope last codes).GoesBy Value.Known record := by
  induction codes generalizing last record with
  | nil => exact known
  | cons code codes ih =>
    refine run_goesBy.bind fun later value grown given => ?_
    split
    · exact given
    · exact ih given

private theorem body_goesBy (body : List Code) : (sequence scope .null body).GoesBy Value.Known record := by
  have nothing : Known record .null := .plain trivial
  exact sequence_goesBy nothing body

private theorem collect_goesBy (codes : List Code) :
    (collect scope codes).GoesBy (fun later values => ∀ value ∈ values, value.Known later) record := by
  suffices ∀ values : List Value, (∀ value ∈ values, value.Known record) →
      (collectAfter scope values codes).GoesBy
        (fun later values => ∀ value ∈ values, value.Known later) record from
    this [] (List.forall_mem_nil _)
  induction codes generalizing record with
  | nil => exact fun values known value member => known value (List.mem_reverse.mp member)
  | cons code codes ih =>
    intro values known
    refine run_goesBy.bind fun later value grown given => ?_
    exact ih (value :: values) (List.forall_mem_cons.mpr ⟨given, Known.all_later known grown⟩)

private theorem requireUnbound_goesBy (names : List String) :
    (requireUnbound scope names).GoesBy (fun _ _ => True) record := by
  induction names generalizing record with
  | nil => trivial
  | cons name names ih =>
    refine find_goesBy.bind fun later found _ _ => ?_
    split
    · exact fail_goesBy
    · exact ih

private theorem loopItems_goesBy :
    (loopItems scope source element index).GoesBy
      (fun later items => ∀ item ∈ items, item.Known later) record := by
  refine find_goesBy.bind fun later found _ values => ?_
  split
  · exact fail_goesBy
  · rename_i items
    have known : ∀ item ∈ items, Known later item := Known.array_iff.mp (values (.array items) rfl)
    split
    · exact fail_goesBy
    · exact (requireUnbound_goesBy _).bind fun latest _ grown _ => Known.all_later known grown
  · exact fail_goesBy

private theorem assignAll_goesBy {bindings : List (String × Value)}
    (known : ∀ binding ∈ bindings, binding.2.Known record) :
    (assignAll scope bindings).GoesBy (fun later _ => later = record) record := by
  induction bindings with
  | nil => rfl
  | cons binding bindings ih =>
    obtain ⟨first, others⟩ := List.forall_mem_cons.mp known
    exact act_goesBy first rfl fun _ _ => ih others

private theorem loopBindings_known (known : item.Known record) :
    ∀ binding ∈ loopBindings element index count item, binding.2.Known record := by
  intro binding member
  rcases List.mem_append.mp member with indexed | element
  · simp only [Option.mem_toList, Option.map_eq_some_iff] at indexed
    obtain ⟨name, _, rfl⟩ := indexed
    exact .plain trivial
  · rw [List.mem_singleton.mp element]
    exact known

private theorem passes_goesBy (known : ∀ item ∈ items, item.Known record) :
    (passes scope element index body count items).GoesBy Value.Known record := by
  induction items generalizing count record with
  | nil => exact .plain trivial
  | cons item items ih =>
    obtain ⟨first, others⟩ := List.forall_mem_cons.mp known
    refine (assignAll_goesBy (loopBindings_known first)).bind fun later _ _ same => ?_
    subst same
    refine (body_goesBy body).bind fun latest value grown given => ?_
    split
    · exact given
    · exact ih (Known.all_later others grown)

/-- Both parts of a split hold known values only. -/
private def PartsKnown (record : List Value) (parts : List Value × List Value) : Prop :=
  (∀ item ∈ parts.1, item.Known record) ∧ ∀ item ∈ parts.2, item.Known record

private theorem split_goesBy (callable : predicate.Known record) (known : ∀ item ∈ items, item.Known record) :
    (split predicate items).GoesBy PartsKnown record := by
  suffices ∀ matched others : List Value, (∀ item ∈ matched, item.Known record) →
      (∀ item ∈ others, item.Known record) →
      (splitAfter predicate matched others items).GoesBy PartsKnown record from
    this [] [] (List.forall_mem_nil _) (List.forall_mem_nil _)
  induction items generalizing record with
  | nil =>
    intro matched others inMatched inOthers
    exact ⟨fun item member => inMatched item (List.mem_reverse.mp member),
      fun item member => inOthers item (List.mem_reverse.mp member)⟩
  | cons item items ih =>
    intro matched others inMatched inOthers
    obtain ⟨first, rest⟩ := List.forall_mem_cons.mp known
    have asked : (call predicate [item] >>= settle).GoesBy Value.Known record :=
      (call_goesBy callable (List.forall_mem_singleton.mpr first)).bind fun _ _ _ given => settle_goesBy given
    refine asked.bind fun later verdict grown _ => ?_
    have inMatched := Known.all_later inMatched grown
    have inOthers := Known.all_later inOthers grown
    have further := ih (callable.later grown) (Known.all_later rest grown)
    split
    · exact further _ _ (List.forall_mem_cons.mpr ⟨first.later grown, inMatched⟩) inOthers
    · exact further _ _ inMatched (List.forall_mem_cons.mpr ⟨first.later grown, inOthers⟩)
    · exact fail_goesBy

private theorem runBuiltin_goesBy (known : ∀ arg ∈ args, arg.Known record) :
    (runBuiltin b args).GoesBy Value.Known record := by
  suffices ∀ plan, BuiltinPlan args plan → plan.GoesBy Value.Known record from this _ (runBuiltin_plan b args)
  intro plan shape
  cases shape with
  | makes made => exact made.passes .plain Known.array_iff known
  | fails failure => exact fail_goesBy
  | prints text => exact act_goesBy trivial rfl fun _ _ => .plain trivial
  | reads => exact act_goesBy trivial rfl fun _ _ => .plain trivial
  | divides shape =>
    subst shape
    obtain ⟨array, others⟩ := List.forall_mem_cons.mp known
    refine (split_goesBy (others _ List.mem_cons_self) (Known.array_iff.mp array)).bind
      fun later parts grown inParts => ?_
    refine Known.array_iff.mpr (List.forall_mem_cons.mpr ⟨?_, List.forall_mem_singleton.mpr ?_⟩)
    · exact Known.array_iff.mpr inParts.1
    · exact Known.array_iff.mpr inParts.2

private theorem enter_goesBy (known : ∀ arg ∈ args, arg.Known record) :
    (enter params body outer args).GoesBy Value.Known record := by
  have bindings : ∀ binding ∈ params.zip args, binding.2.Known record :=
    fun binding member => known _ (List.of_mem_zip member).2
  refine act_goesBy bindings rfl fun scope _ => ?_
  exact (body_goesBy body).bind fun _ _ _ given => given.unwrap

private theorem applyStep_goesBy (known : ∀ arg ∈ args, arg.Known record) :
    (applyStep callee args).GoesBy Value.Known record := by
  unfold applyStep
  split
  · split
    · exact enter_goesBy known
    · exact act_goesBy trivial rfl fun _ _ => fail_goesBy
  · exact runBuiltin_goesBy known
  · exact fail_goesBy

private theorem compareAll_goesBy {pairs : List (Value × Value)}
    (known : ∀ pair ∈ pairs, pair.1.Known record ∧ pair.2.Known record) :
    (compareAll pairs).GoesBy Value.Known record := by
  induction pairs generalizing record with
  | nil => exact .plain trivial
  | cons pair pairs ih =>
    obtain ⟨left, right⟩ := pair
    obtain ⟨first, rest⟩ := List.forall_mem_cons.mp known
    have asked : (compare left right).GoesBy Value.Known record := ⟨first, fun _ _ _ given => given⟩
    refine asked.bind fun later verdict grown _ => ?_
    split
    · exact ih fun pair member => ⟨(rest pair member).1.later grown, (rest pair member).2.later grown⟩
    · exact .plain trivial

private theorem combine_goesBy {op : Binary} {a b : Value} (left : a.Known record) (right : b.Known record) :
    (combine op a b).GoesBy Value.Known record := by
  suffices ∀ plan, OperationPlan op a b plan → plan.GoesBy Value.Known record from this _ (combine_plan op a b)
  intro plan shape
  cases shape with
  | atOnce =>
    refine ofResult_goesBy fun value ran => (Value.binaryOp_made ran).passes .plain Known.array_iff ?_
    exact List.forall_mem_cons.mpr ⟨left, List.forall_mem_singleton.mpr right⟩
  | inPairs _ first second =>
    subst first second
    refine compareAll_goesBy fun pair member => ?_
    obtain ⟨inLeft, inRight⟩ := List.of_mem_zip member
    exact ⟨Known.array_iff.mp left _ inLeft, Known.array_iff.mp right _ inRight⟩

/-- A node that works on two operands works with known values. -/
private theorem operands_goBy {combined : Value → Value → Plan Value}
    (known : ∀ record a b, a.Known record → b.Known record → (combined a b).GoesBy Value.Known record) :
    (do
      let a ← run left scope
      combined a (← run right scope) : Plan Value).GoesBy Value.Known record := by
  refine run_goesBy.bind fun later a grown aKnown => ?_
  refine run_goesBy.bind fun latest b grownMore bKnown => ?_
  exact known latest a b (aKnown.later grownMore) bKnown

private theorem step_goesBy (code : Code) : (step scope code).GoesBy Value.Known record := by
  cases code with
  | program body => exact (body_goesBy body).bind fun _ _ _ given => given.unwrap
  | block body => exact body_goesBy body
  | bind name value =>
    refine run_goesBy.bind fun later value grown given => ?_
    exact act_goesBy given rfl fun _ _ => .plain trivial
  | giveBack value =>
    refine run_goesBy.bind fun later value grown given => ?_
    refine fresh_goesBy (.signal later.length value) (Known.signal_iff.mpr ⟨by simp, ?_⟩)
    exact given.later (List.prefix_append ..)
  | loop source element index body =>
    exact loopItems_goesBy.bind fun later items grown known => passes_goesBy known
  | branch condition consequence alternative =>
    refine run_goesBy.bind fun later value grown _ => ?_
    split
    · exact run_goesBy
    · exact run_goesBy
  | function params body =>
    exact fresh_goesBy (.function record.length params body scope) (Known.function_iff.mpr (by simp))
  | call callee args =>
    refine run_goesBy.bind fun later value grown given => ?_
    exact (collect_goesBy args).bind fun latest values grownMore known =>
      call_goesBy (given.later grownMore) known
  | subscript left index =>
    refine operands_goBy fun record a b aKnown bKnown => ?_
    refine ofResult_goesBy fun value ran => (Value.at?_made ran).passes .plain Known.array_iff ?_
    exact List.forall_mem_cons.mpr ⟨aKnown, List.forall_mem_singleton.mpr bKnown⟩
  | binary op left right => exact operands_goBy fun _ _ _ aKnown bKnown => combine_goesBy aKnown bKnown
  | unary op operand =>
    refine run_goesBy.bind fun later value grown given => ?_
    exact ofResult_goesBy fun result ran => .plain (Value.unaryOp_plain ran)
  | array items => exact (collect_goesBy items).bind fun later values grown known => Known.array_iff.mpr known
  | int | str | bool => exact .plain trivial
  | ident name => exact lookup_goesBy
  | fail failure => exact fail_goesBy
  | fault fault => trivial

end Plan

/-- Every request for known values is met by a plan that goes by the record. -/
theorem Request.plan_goesBy {request : Request} (known : request.Known record) :
    request.plan.GoesBy Value.Known record := by
  cases request with
  | apply callee args => exact Plan.applyStep_goesBy known.2
  | compare left right => exact Plan.combine_goesBy known.1 known.2
  | eval code scope => exact (Plan.step_goesBy code).bind fun _ _ _ given => Plan.settle_goesBy given

/-- A record of a world: it tells what each identity went to, and everything that is stored is known by it. -/
structure World.Registered (world : World) (record : List Value) : Prop where
  size : record.length = world.nextSerial
  stored : ∀ value, world.Stores value → value.Known record

namespace World.Registered

theorem of_same {before after : World} (registered : before.Registered record)
    (scopes : after.scopes = before.scopes) (serials : after.nextSerial = before.nextSerial) :
    after.Registered record := by
  refine ⟨by rw [serials, registered.size], fun value stored => registered.stored value ?_⟩
  rwa [Stores, scopes] at stored

theorem takeSerial {world : World} (registered : world.Registered record) (grown : record <+: later)
    (size : later.length = record.length + 1) : world.takeSerial.2.Registered later :=
  ⟨by rw [size, registered.size]; rfl, fun value stored => (registered.stored value stored).later grown⟩

/-- The next identity goes to the value that is put on record next. -/
theorem putOnRecord {world : World} (registered : world.Registered record) (value : Value) :
    record <+: record ++ [value] ∧ world.takeSerial.2.Registered (record ++ [value]) ∧
      (record ++ [value])[world.nextSerial]? = some value := by
  have grown : record <+: record ++ [value] := List.prefix_append record [value]
  refine ⟨grown, registered.takeSerial grown (by simp), ?_⟩
  rw [← registered.size, List.getElem?_concat_length]

theorem bind {world : World} (registered : world.Registered record) (known : value.Known record) (scope : Nat)
    (name : String) : (world.bind scope name value).Registered record := by
  refine ⟨by rw [bind_nextSerial, registered.size], fun other stored => ?_⟩
  rcases stores_of_bind stored with rfl | old
  · exact known
  · exact registered.stored other old

theorem addScope {world : World} (registered : world.Registered record)
    (known : ∀ binding ∈ scope.bindings, binding.2.Known record) :
    (world.addScope scope).2.Registered record := by
  refine ⟨registered.size, fun value stored => ?_⟩
  rcases stores_of_addScope stored with ⟨binding, member, rfl⟩ | old
  · exact known binding member
  · exact registered.stored value old

end World.Registered

/-- What one action does to a world with a record, and what it gives back. -/
theorem Action.perform_registered {action : Action} {world : World} (registered : world.Registered record)
    (known : action.Known record) (grown : record <+: later)
    (size : later.length = record.length + action.taken) :
    (action.perform world).2.Registered later ∧ action.Answers record (action.perform world).1 := by
  have unchanged : action.taken = 0 → record = later := fun none =>
    grown.eq_of_length (by rw [size, none, Nat.add_zero])
  cases action with
  | takeSerial => exact ⟨registered.takeSerial grown size, registered.size.symm⟩
  | addScope scope => exact ⟨unchanged rfl ▸ registered.addScope known, trivial⟩
  | bind scope name value => exact ⟨unchanged rfl ▸ registered.bind known scope name, trivial⟩
  | find name scope =>
    exact ⟨unchanged rfl ▸ registered, fun value found => registered.stored value (World.stores_of_find? found)⟩
  | print text => exact ⟨unchanged rfl ▸ registered.of_same rfl rfl, trivial⟩
  | readLine => exact ⟨unchanged rfl ▸ registered.of_same rfl rfl, trivial⟩
  | log note => exact ⟨unchanged rfl ▸ registered.of_same rfl rfl, trivial⟩

/-- The values that are at hand when something happens: those that are stored before, those that are bound or
passed, and for a request also those that it gives and leaves. -/
inductive Event.Has : Event → Value → Prop where
  | found (stores : event.start.Stores value) : Has event value
  | bound : Has (.acted (.bind scope name value) world) value
  | added (member : binding ∈ scope.bindings) : Has (.acted (.addScope scope) world) binding.2
  | callee : Has (.asked (.apply value args) world ending) value
  | passed (member : value ∈ args) : Has (.asked (.apply callee args) world ending) value
  | given : Has (.asked request world (.ok value, after)) value
  | failed {failure : Failure} :
      Has (.asked request world (.error (.failed serial failure), after)) (.error serial failure)
  | left (stores : after.Stores value) : Has (.asked request world (result, after)) value

/-- All values at hand are known. -/
def Event.Known (record : List Value) (event : Event) : Prop := ∀ value, event.Has value → value.Known record

/-- By a record, a run can be accounted for: how it ends, and all that happens on the way. -/
structure Account (record : List Value) (post : List Value → α → Prop) (ending : Ending α)
    (events : List Event) : Prop where
  world : ending.2.Registered record
  result : ∀ given, ending.1 = .ok given → post record given
  reason : ∀ reason, ending.1 = .error reason → reason.Known record
  events : ∀ event ∈ events, event.Known record

theorem Event.known_of_acted {world : World} (registered : world.Registered record)
    (known : action.Known record) (grown : record <+: later) : (Event.acted action world).Known later := by
  intro value has
  cases has with
  | found stores => exact (registered.stored value stores).later grown
  | bound => exact known.later grown
  | added member => exact (known _ member).later grown

theorem Event.known_of_asked {start : World} (registered : start.Registered record)
    (known : request.Known record) (grown : record <+: later)
    (account : Account later Value.Known ending events) :
    (Event.asked request start ending).Known later := by
  intro value has
  cases has with
  | found stores => exact (registered.stored value stores).later grown
  | callee => exact known.1.later grown
  | passed member => exact (known.2 value member).later grown
  | given => exact account.result value rfl
  | failed => exact account.reason _ rfl
  | left stores => exact account.world.stored value stores

/-- Carrying out a plan that goes by the record is accounted for, if its requests are. -/
theorem Plan.carryOut_account {answer : Request → World → Ending Value} {inside : Request → World → List Event}
    (met : ∀ request start record, start.Registered record → request.Known record →
      ∃ later, record <+: later ∧ Account later Value.Known (answer request start) (inside request start))
    {plan : Plan α} {world : World} (registered : world.Registered record) (goesBy : plan.GoesBy post record) :
    ∃ later, record <+: later ∧
      Account later post (plan.carryOut answer world) (plan.events answer inside world) := by
  induction plan generalizing record world with
  | done value =>
    refine ⟨record, List.prefix_refl record, registered, ?_, ?_, List.forall_mem_nil _⟩
    · intro given same
      cases same
      exact goesBy
    · intro reason same
      cases same
  | stop reason =>
    refine ⟨record, List.prefix_refl record, registered, ?_, ?_, List.forall_mem_nil _⟩
    · intro given same
      cases same
    · intro other same
      cases same
      exact goesBy
  | act action next ih =>
    obtain ⟨known, later, grown, size, further⟩ := goesBy
    obtain ⟨registered', answered⟩ := Action.perform_registered registered known grown size
    obtain ⟨latest, grownMore, account⟩ := ih _ registered' (further _ answered)
    have first := Event.known_of_acted registered known (grown.trans grownMore)
    exact ⟨latest, grown.trans grownMore, account.world, account.result, account.reason,
      List.forall_mem_cons.mpr ⟨first, account.events⟩⟩
  | ask request next ih =>
    obtain ⟨later, grown, asked⟩ := met request world record registered goesBy.1
    rw [carryOut, events]
    cases answered : answer request world with
    | mk result after =>
      rw [answered] at asked
      cases result with
      | error reason =>
        refine ⟨later, grown, asked.world, ?_, ?_, by simpa using asked.events⟩
        · intro given same
          cases same
        · intro other same
          cases same
          exact asked.reason _ rfl
      | ok value =>
        obtain ⟨latest, grownMore, account⟩ :=
          ih value asked.world (goesBy.2 later value grown (asked.result value rfl))
        refine ⟨latest, grown.trans grownMore, account.world, account.result, account.reason, ?_⟩
        refine List.forall_mem_append.mpr ⟨fun event member => ?_, account.events⟩
        exact fun value has => (asked.events event member value has).later grownMore

/-- Every run for known values is accounted for by a record that continues the one before. -/
theorem Request.run_account (depth : Nat) (request : Request) {world : World}
    (registered : world.Registered record) (known : request.Known record) :
    ∃ later, record <+: later ∧
      Account later Value.Known (request.perform depth world) (request.trace depth world) := by
  induction depth generalizing request world record with
  | zero =>
    have account : Account record Value.Known (request.perform 0 world) [] := by
      refine ⟨registered, ?_, ?_, List.forall_mem_nil _⟩
      · intro given same
        cases same
      · intro reason same
        cases same
        trivial
    have whole := Event.known_of_asked registered known (List.prefix_refl record) account
    exact ⟨record, List.prefix_refl record, account.world, account.result, account.reason,
      List.forall_mem_singleton.mpr whole⟩
  | succ depth ih =>
    obtain ⟨later, grown, account⟩ := Plan.carryOut_account
      (fun request start record => ih request) registered (request.plan_goesBy known)
    have whole := Event.known_of_asked registered known grown account
    exact ⟨later, grown, account.world, account.result, account.reason,
      List.forall_mem_append.mpr ⟨account.events, List.forall_mem_singleton.mpr whole⟩⟩

/-- A report of what a run gave and left goes by a record if what is in it is known. -/
structure Reported (record : List Value) (report : Except Fault Value × World) : Prop where
  world : report.2.Registered record
  given : ∀ value ∈ report.1.toOption.toList, value.Known record

namespace Account

variable {ending : Ending Value} {events : List Event}

/-- The error for a run that went too deep is made, and put on record, when the run is reported. -/
theorem outcome (account : Account record Value.Known ending events) :
    ∃ later, record <+: later ∧ Reported later (TreeWalk.outcome ending) := by
  obtain ⟨result, after⟩ := ending
  cases result with
  | ok value =>
    have given := account.result value rfl
    exact ⟨record, List.prefix_refl record, account.world, List.forall_mem_singleton.mpr given⟩
  | error reason =>
    cases reason with
    | failed serial failure =>
      have given := account.reason _ rfl
      exact ⟨record, List.prefix_refl record, account.world, List.forall_mem_singleton.mpr given⟩
    | malformed fault => exact ⟨record, List.prefix_refl record, account.world, List.forall_mem_nil _⟩
    | tooDeep =>
      obtain ⟨grown, registered, isNext⟩ := account.world.putOnRecord (.error after.nextSerial .tooDeep)
      exact ⟨_, grown, registered, List.forall_mem_singleton.mpr (Value.Known.error_iff.mpr isNext)⟩

theorem evaluateTo {code : Code} {world : World}
    (account : Account record Value.Known ((Request.eval code scope).perform depth world) events)
    (what : String) :
    ∃ later, record <+: later ∧ Reported later (TreeWalk.evaluateTo depth code what scope world) := by
  unfold TreeWalk.evaluateTo
  generalize (Request.eval code scope).perform depth world = ending at account
  obtain ⟨result, after⟩ := ending
  cases result with
  | ok value =>
    have given := (account.result value rfl).unwrap
    exact ⟨record, List.prefix_refl record, account.world, List.forall_mem_singleton.mpr given⟩
  | error reason =>
    cases reason with
    | failed | malformed => exact account.outcome
    | tooDeep =>
      have logged : Account record Value.Known (.error .tooDeep, after.log (.depthReached what)) events := by
        refine ⟨account.world.of_same rfl rfl, fun value same => ?_, fun reason same => ?_, account.events⟩
        · cases same
        · cases same
          trivial
      exact logged.outcome

end Account

/-- All is known by a record that a world stores, and all that its host has got. -/
structure World.Catalogued (world : World) (held : List Value) (record : List Value) : Prop where
  world : world.Registered record
  held : ∀ value ∈ held, value.Known record

namespace World.Catalogued

variable {held : List Value}

theorem report {before : World} {report : Except Fault Value × World}
    (catalogued : before.Catalogued held record) (grown : record <+: later)
    (reported : ∃ latest, later <+: latest ∧ Reported latest report) :
    ∃ latest, report.2.Catalogued (report.1.toOption.toList ++ held) latest := by
  obtain ⟨latest, grownMore, reported⟩ := reported
  have kept := Value.Known.all_later catalogued.held (grown.trans grownMore)
  exact ⟨latest, reported.world, List.forall_mem_append.mpr ⟨reported.given, kept⟩⟩

theorem cons {world : World} (catalogued : world.Catalogued held record) (known : value.Known record) :
    world.Catalogued (value :: held) record :=
  ⟨catalogued.world, List.forall_mem_cons.mpr ⟨known, catalogued.held⟩⟩

end World.Catalogued

/-- Whatever a host does, there is a record by which all is known that is stored and that the host has got. -/
theorem Reachable.catalogued (reachable : Reachable world held) : ∃ record, world.Catalogued held record := by
  induction reachable with
  | start input =>
    refine ⟨[], ⟨rfl, ?_⟩, List.forall_mem_nil _⟩
    rintro value ⟨scope, member, _⟩
    simp [World.start] at member
  | root _ ih | child _ _ ih =>
    obtain ⟨record, catalogued⟩ := ih
    exact ⟨record, catalogued.world.addScope (List.forall_mem_nil _), catalogued.held⟩
  | run _ _ _ depth what ih =>
    obtain ⟨record, catalogued⟩ := ih
    obtain ⟨later, grown, account⟩ := Request.run_account depth (.eval (.ofTree _) _) catalogued.world trivial
    exact catalogued.report grown (account.evaluateTo what)
  | apply _ callable passed depth ih =>
    obtain ⟨record, catalogued⟩ := ih
    have known : Request.Known record (.apply _ _) :=
      ⟨catalogued.held _ callable, fun arg member => catalogued.held arg (passed arg member)⟩
    obtain ⟨later, grown, account⟩ := Request.run_account depth _ catalogued.world known
    exact catalogued.report grown account.outcome
  | get _ found ih =>
    obtain ⟨record, catalogued⟩ := ih
    exact ⟨record, catalogued.cons (catalogued.world.stored _ (World.stores_of_find? found))⟩
  | set _ given scope name ih =>
    obtain ⟨record, catalogued⟩ := ih
    exact ⟨record, catalogued.world.bind (catalogued.held _ given) scope name, catalogued.held⟩
  | log _ note ih =>
    obtain ⟨record, catalogued⟩ := ih
    exact ⟨record, catalogued.world.of_same rfl rfl, catalogued.held⟩
  | plain _ plain ih =>
    obtain ⟨record, catalogued⟩ := ih
    exact ⟨record, catalogued.cons (.plain plain)⟩
  | array _ given ih =>
    obtain ⟨record, catalogued⟩ := ih
    have items := Value.Known.array_iff.mpr fun item member => catalogued.held item (given item member)
    exact ⟨record, catalogued.cons items⟩
  | item _ whole member ih =>
    obtain ⟨record, catalogued⟩ := ih
    exact ⟨record, catalogued.cons (Value.Known.array_iff.mp (catalogued.held _ whole) _ member)⟩
  | @signal world held value _ given ih =>
    obtain ⟨record, catalogued⟩ := ih
    obtain ⟨grown, registered, isNext⟩ := catalogued.world.putOnRecord (.signal world.nextSerial value)
    have carried := (catalogued.held value given).later grown
    exact ⟨_, registered, List.forall_mem_cons.mpr
      ⟨Value.Known.signal_iff.mpr ⟨isNext, carried⟩, Value.Known.all_later catalogued.held grown⟩⟩
  | @error world held _ failure ih =>
    obtain ⟨record, catalogued⟩ := ih
    obtain ⟨grown, registered, isNext⟩ := catalogued.world.putOnRecord (.error world.nextSerial failure)
    exact ⟨_, registered, List.forall_mem_cons.mpr
      ⟨Value.Known.error_iff.mpr isNext, Value.Known.all_later catalogued.held grown⟩⟩

/-- What a host can ask for: to run any code, to apply something that it has got to more of that, or to compare
two things that it has got. -/
def Request.Offered (held : List Value) : Request → Prop
  | eval .. => True
  | apply callee args => callee ∈ held ∧ ∀ arg ∈ args, arg ∈ held
  | compare left right => left ∈ held ∧ right ∈ held

theorem Request.Offered.known {request : Request} (offered : request.Offered held)
    (catalogued : World.Catalogued world held record) : request.Known record := by
  cases request with
  | eval => trivial
  | apply => exact ⟨catalogued.held _ offered.1, fun arg member => catalogued.held arg (offered.2 arg member)⟩
  | compare => exact ⟨catalogued.held _ offered.1, catalogued.held _ offered.2⟩

/-- The values that are there, in a world and on the way of a request in it: what is stored, what the host has
got, what the run meets, and all that is inside of these. -/
inductive Present (world : World) (held : List Value) (request : Request) (depth : Nat) : Value → Prop where
  | stored (stores : world.Stores value) : Present world held request depth value
  | held (member : value ∈ held) : Present world held request depth value
  | met (member : event ∈ request.trace depth world) (has : event.Has value) :
      Present world held request depth value
  | part (present : Present world held request depth whole) (inside : value.Inside whole) :
      Present world held request depth value

/-- One record serves for all that is there and for the world that is left. -/
theorem Reachable.known_to_the_end (reachable : Reachable world held) (offered : request.Offered held)
    (depth : Nat) : ∃ record, (request.perform depth world).2.Registered record ∧
      ∀ value, Present world held request depth value → value.Known record := by
  obtain ⟨record, catalogued⟩ := reachable.catalogued
  obtain ⟨later, grown, account⟩ := request.run_account depth catalogued.world (offered.known catalogued)
  refine ⟨later, account.world, fun value present => ?_⟩
  induction present with
  | stored stores => exact (catalogued.world.stored _ stores).later grown
  | held member => exact (catalogued.held _ member).later grown
  | met member has => exact account.events _ member _ has
  | part _ inside ih => exact ih.of_inside inside

/-- One record serves for all that is there. -/
theorem Reachable.known_of_present (reachable : Reachable world held) (offered : request.Offered held)
    (depth : Nat) : ∃ record, ∀ value, Present world held request depth value → value.Known record := by
  obtain ⟨record, _, known⟩ := reachable.known_to_the_end offered depth
  exact ⟨record, known⟩

end TreeWalk
