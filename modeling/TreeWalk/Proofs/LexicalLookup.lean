import TreeWalk.Proofs.HostSafety
import TreeWalk.Proofs.LoopPasses

/-! Lookup by history.

A host makes scopes, by themselves or inside others, and binds names in them, in any order. What a name stands
for, seen from a scope, can be told from the list of these operations alone, without looking at bindings: the
nearest scope in which the name was ever bound decides, and there the last binding does. It does not matter
whether a scope was made before or after a name was bound around it, and what is bound inside a scope or beside
it is never seen from there. -/
namespace TreeWalk

/-- What a host does to scopes. -/
inductive Scope.Operation where
  /-- Makes a scope by itself. -/
  | root
  /-- Makes a scope inside another. -/
  | child (outer : Nat)
  /-- Binds a name in a scope. -/
  | set (scope : Nat) (name : String) (value : Value)

namespace Scope.Operation

def perform : Operation → World → World
  | root, world => (world.addScope (.empty none)).2
  | child outer, world => (world.addScope (.empty (some outer))).2
  | set scope name value, world => world.bind scope name value

/-- Operations one after the other. -/
def performAll (history : List Operation) (world : World) : World :=
  history.foldl (fun world op => op.perform world) world

/-- The scope around the one that an operation makes, if it makes one. -/
def made? : Operation → Option (Option Nat)
  | root => some none
  | child outer => some (some outer)
  | set .. => none

/-- An operation is on scopes that there are. -/
def Allowed (count : Nat) : Operation → Prop
  | root => True
  | child outer => outer < count
  | set scope _ _ => scope < count

/-- Each operation is on scopes that there are by then, given how many there are at first. -/
def Valid : Nat → List Operation → Prop
  | _, [] => True
  | count, op :: later => op.Allowed count ∧ Valid (count + op.made?.toList.length) later

/-- The name was bound in the scope at some time. -/
def EverSet (history : List Operation) (scope : Nat) (name : String) : Prop :=
  ∃ value, .set scope name value ∈ history

/-- What the name was bound to in the scope the last time. -/
def LastSet (history : List Operation) (scope : Nat) (name : String) (value : Value) : Prop :=
  ∃ before after, history = before ++ .set scope name value :: after ∧ ¬ EverSet after scope name

/-- The scope around a scope; scopes are numbered in the order in which they were made. -/
def outerOf (history : List Operation) (scope : Nat) : Option Nat := ((history.filterMap made?)[scope]?).join

/-- The scope so many steps out from a scope. -/
def ancestor (history : List Operation) : Nat → Nat → Option Nat
  | 0, scope => some scope
  | distance + 1, scope => (outerOf history scope).bind (ancestor history distance)

/-- The nearest scope, from a scope outwards, in which a name was ever bound. -/
structure Nearest (history : List Operation) (name : String) (scope distance holder : Nat) : Prop where
  reached : ancestor history distance scope = some holder
  everSet : EverSet history holder name
  unset : ∀ closer < distance, ∀ between, ancestor history closer scope = some between →
    ¬ EverSet history between name

variable {history : List Operation} {scope : Nat} {name : String}

theorem valid_snoc (count : Nat) (history : List Operation) (op : Operation) :
    Valid count (history ++ [op]) ↔
      Valid count history ∧ op.Allowed (count + (history.filterMap made?).length) := by
  induction history generalizing count with
  | nil => simp [Valid]
  | cons first history ih =>
    have size : count + first.made?.toList.length + (history.filterMap made?).length =
        count + ((first :: history).filterMap made?).length := by
      cases made : first.made? with
      | none => simp [made]
      | some around =>
        rw [List.filterMap_cons_some made, List.length_cons, Option.toList_some, List.length_singleton]
        omega
    rw [List.cons_append, Valid, Valid, ih, size, and_assoc]

theorem everSet_append (earlier later : List Operation) :
    EverSet (earlier ++ later) scope name ↔ EverSet earlier scope name ∨ EverSet later scope name := by
  simp only [EverSet, List.mem_append, exists_or]

theorem everSet_singleton (op : Operation) :
    EverSet [op] scope name ↔ ∃ value, op = .set scope name value := by
  simp only [EverSet, List.mem_singleton, eq_comm]

/-- One more operation decides by itself if it binds the name in the scope; otherwise all stays as it was. -/
theorem lastSet_snoc (op : Operation) : LastSet (history ++ [op]) scope name value ↔
    op = .set scope name value ∨ LastSet history scope name value ∧ ¬ EverSet [op] scope name := by
  constructor
  · rintro ⟨before, after, whole, none⟩
    rcases List.eq_nil_or_concat after with rfl | ⟨front, last, rfl⟩
    · obtain ⟨_, same⟩ := List.append_inj' whole rfl
      exact .inl (List.singleton_inj.mp same)
    · have whole' : history ++ [op] = (before ++ .set scope name value :: front) ++ [last] := by
        simpa using whole
      obtain ⟨rfl, same⟩ := List.append_inj' whole' rfl
      rw [List.concat_eq_append, everSet_append, not_or, ← same] at none
      exact .inr ⟨⟨before, front, rfl, none.1⟩, none.2⟩
  · rintro (rfl | ⟨⟨before, after, rfl, none⟩, other⟩)
    · exact ⟨history, [], rfl, by simp [EverSet]⟩
    · refine ⟨before, after ++ [op], by simp, ?_⟩
      rw [everSet_append]
      exact not_or.mpr ⟨none, other⟩

/-- A name that was ever bound was bound a last time. -/
theorem everSet_iff : EverSet history scope name ↔ ∃ value, LastSet history scope name value := by
  constructor
  · intro everSet
    induction history using List.reverseRecOn with
    | nil => simp [EverSet] at everSet
    | append_singleton history op ih =>
      simp only [lastSet_snoc]
      by_cases now : EverSet [op] scope name
      · obtain ⟨value, same⟩ := (everSet_singleton op).mp now
        exact ⟨value, .inl same⟩
      · obtain ⟨value, last⟩ := ih (((everSet_append history [op]).mp everSet).resolve_right now)
        exact ⟨value, .inr ⟨last, now⟩⟩
  · rintro ⟨value, before, after, rfl, _⟩
    exact ⟨value, by simp⟩

/-- The nearest scope is the scope itself if the name was ever bound there, and otherwise the nearest one from
the scope around it. -/
theorem nearest_iff : Nearest history name scope distance holder ↔
    (distance = 0 ∧ holder = scope ∧ EverSet history scope name) ∨
      ¬ EverSet history scope name ∧ ∃ further outer, distance = further + 1 ∧
        outerOf history scope = some outer ∧ Nearest history name outer further holder := by
  constructor
  · rintro ⟨reached, everSet, unset⟩
    cases distance with
    | zero =>
      cases reached
      exact .inl ⟨rfl, rfl, everSet⟩
    | succ further =>
      obtain ⟨outer, around, reached⟩ := Option.bind_eq_some_iff.mp reached
      refine .inr ⟨unset 0 (Nat.succ_pos _) scope rfl, further, outer, rfl, around, reached, everSet, ?_⟩
      intro closer less between isBetween
      refine unset (closer + 1) (Nat.succ_lt_succ less) between ?_
      rw [ancestor, around, Option.bind_some, isBetween]
  · rintro (⟨rfl, rfl, everSet⟩ | ⟨here, further, outer, rfl, around, reached, everSet, unset⟩)
    · exact ⟨rfl, everSet, fun closer less => absurd less (Nat.not_lt_zero closer)⟩
    · refine ⟨by rw [ancestor, around, Option.bind_some, reached], everSet, ?_⟩
      intro closer less between isBetween
      cases closer with
      | zero =>
        cases isBetween
        exact here
      | succ closer =>
        rw [ancestor, around, Option.bind_some] at isBetween
        exact unset closer (Nat.lt_of_succ_lt_succ less) between isBetween

end Scope.Operation

/-- A lookup is one in the scope itself and, failing that, one in the scope around it. -/
theorem World.OutersOlder.find?_eq_or (older : OutersOlder world) (name : String) (scope : Nat) :
    world.find? name scope =
      (world.boundIn scope name).or (((world.scopes[scope]?).bind Scope.outer).bind (world.find? name)) := by
  cases present : world.scopes[scope]? with
  | none =>
    rw [World.find?, World.boundIn, present]
    rfl
  | some own =>
    rw [World.boundIn, present, Option.bind_some, Option.bind_some]
    cases bound : own.get? name with
    | some value =>
      rw [World.find?, present]
      simp only [bound, Option.some_or]
    | none => exact older.find?_eq present bound

open Scope.Operation

/-- The scopes of a world are as its history tells: which scope is around each of them, and what names are
bound to in them. -/
structure World.Records (world : World) (history : List Scope.Operation) : Prop where
  outers : world.scopes.toList.map Scope.outer = history.filterMap made?
  bound : ∀ i name value, world.boundIn i name = some value ↔ LastSet history i name value
  older : world.OutersOlder

namespace World.Records

variable {world : World} {history : List Scope.Operation}

theorem start (input : String) : (World.start input).Records [] where
  outers := rfl
  bound i name value := by simp [World.start, World.boundIn, LastSet]
  older := by
    intro i scope outer present
    simp [World.start] at present

theorem outerOf_eq (records : world.Records history) (scope : Nat) :
    outerOf history scope = (world.scopes[scope]?).bind Scope.outer := by
  rw [outerOf, ← records.outers, List.getElem?_map, Array.getElem?_toList]
  cases world.scopes[scope]? <;> rfl

theorem outer_lt (records : world.Records history) (around : outerOf history scope = some outer) :
    outer < scope := by
  rw [records.outerOf_eq] at around
  obtain ⟨own, present, isOuter⟩ := Option.bind_eq_some_iff.mp around
  exact records.older scope own outer present isOuter

/-- A new scope has no bindings, and the others keep theirs. -/
theorem addScope {op : Scope.Operation} (records : world.Records history) (isMade : op.made? = some around)
    (there : ∀ outer, around = some outer → outer < world.scopes.size) :
    (world.addScope (.empty around)).2.Records (history ++ [op]) where
  outers := by simp [World.addScope, records.outers, isMade, Scope.empty]
  bound i name value := by
    have other : ¬ EverSet [op] i name := by
      rw [everSet_singleton]
      rintro ⟨value, rfl⟩
      cases isMade
    have notSet : op ≠ .set i name value := fun same => other ((everSet_singleton op).mpr ⟨value, same⟩)
    have same : (world.addScope (.empty around)).2.boundIn i name = world.boundIn i name := by
      rw [World.boundIn, World.addScope, Array.getElem?_push]
      split
      · rename_i isNew
        rw [World.boundIn, isNew, Array.getElem?_size]
        rfl
      · rfl
    simp only [lastSet_snoc, notSet, other, not_false_eq_true, and_true, false_or, same, records.bound]
  older := records.older.addScope _ there

/-- A binding is seen under its name in its scope, and nothing else changes. -/
theorem bind (records : world.Records history) (there : scope < world.scopes.size) (name : String)
    (value : Value) : (world.bind scope name value).Records (history ++ [.set scope name value]) where
  outers := by
    have none : [Scope.Operation.set scope name value].filterMap made? = [] := rfl
    rw [List.filterMap_append, none, List.append_nil, ← records.outers]
    refine List.ext_getElem? fun i => ?_
    rw [List.getElem?_map, List.getElem?_map, Array.getElem?_toList, Array.getElem?_toList, bind_getElem?]
    split
    · rw [Option.map_map]
      rfl
    · rfl
  bound i given result := by
    rw [lastSet_snoc, everSet_singleton, ← records.bound]
    by_cases isScope : scope = i
    · subst isScope
      rw [world.boundIn_bind name given value there]
      by_cases isName : given = name
      · simp [isName]
      · simp [isName, Ne.symm isName]
    · have same : (world.bind scope name value).boundIn i given = world.boundIn i given := by
        rw [World.boundIn, bind_getElem?, if_neg isScope, World.boundIn]
      simp [same, isScope]
  older := records.older.bind scope name value

theorem perform {op : Scope.Operation} (records : world.Records history)
    (allowed : op.Allowed world.scopes.size) : (op.perform world).Records (history ++ [op]) := by
  cases op with
  | root => exact records.addScope rfl fun _ same => by cases same
  | child outer => exact records.addScope rfl fun _ same => by cases same; exact allowed
  | set scope name value => exact records.bind allowed name value

theorem of_valid (input : String) (valid : Valid 0 history) :
    (performAll history (.start input)).Records history := by
  induction history using List.reverseRecOn with
  | nil => exact .start input
  | append_singleton history op ih =>
    obtain ⟨validBefore, allowed⟩ := (valid_snoc 0 history op).mp valid
    have records := ih validBefore
    rw [← records.outers, List.length_map, Array.length_toList, Nat.zero_add] at allowed
    rw [performAll, List.foldl_append]
    exact records.perform allowed

theorem boundIn_isSome_iff (records : world.Records history) (scope : Nat) (name : String) :
    (world.boundIn scope name).isSome ↔ EverSet history scope name := by
  simp only [Option.isSome_iff_exists, records.bound, everSet_iff]

/-- A lookup finds the last binding in the nearest scope. -/
theorem find?_eq_some_iff (records : world.Records history) (name : String) (scope : Nat) (value : Value) :
    world.find? name scope = some value ↔
      ∃ distance holder, Nearest history name scope distance holder ∧ LastSet history holder name value := by
  induction scope using Nat.strongRecOn with
  | ind scope ih =>
    rw [records.older.find?_eq_or]
    cases bound : world.boundIn scope name with
    | some found =>
      have last := (records.bound scope name found).mp bound
      have everSet : EverSet history scope name := everSet_iff.mpr ⟨found, last⟩
      rw [Option.some_or, ← bound, records.bound]
      constructor
      · intro isLast
        exact ⟨0, scope, nearest_iff.mpr (.inl ⟨rfl, rfl, everSet⟩), isLast⟩
      · rintro ⟨distance, holder, nearest, isLast⟩
        rcases nearest_iff.mp nearest with ⟨_, rfl, _⟩ | ⟨never, _⟩
        · exact isLast
        · exact absurd everSet never
    | none =>
      have never : ¬ EverSet history scope name := by
        rw [← records.boundIn_isSome_iff, bound]
        exact Bool.false_ne_true
      rw [Option.none_or, ← records.outerOf_eq, Option.bind_eq_some_iff]
      constructor
      · rintro ⟨outer, around, found⟩
        obtain ⟨distance, holder, nearest, isLast⟩ := (ih outer (records.outer_lt around)).mp found
        exact ⟨distance + 1, holder,
          nearest_iff.mpr (.inr ⟨never, distance, outer, rfl, around, nearest⟩), isLast⟩
      · rintro ⟨distance, holder, nearest, isLast⟩
        rcases nearest_iff.mp nearest with ⟨_, rfl, everSet⟩ | ⟨_, further, outer, _, around, nearer⟩
        · exact absurd everSet never
        · exact ⟨outer, around, (ih outer (records.outer_lt around)).mpr ⟨further, holder, nearer, isLast⟩⟩

/-- A lookup finds nothing exactly if the name was never bound on the way out. -/
theorem find?_eq_none_iff (records : world.Records history) (name : String) (scope : Nat) :
    world.find? name scope = none ↔
      ∀ distance holder, ancestor history distance scope = some holder → ¬ EverSet history holder name := by
  induction scope using Nat.strongRecOn with
  | ind scope ih =>
    rw [records.older.find?_eq_or, Option.or_eq_none_iff, ← Option.not_isSome_iff_eq_none,
      records.boundIn_isSome_iff, ← records.outerOf_eq, Option.bind_eq_none_iff]
    constructor
    · rintro ⟨never, further⟩ distance holder reached
      cases distance with
      | zero =>
        cases reached
        exact never
      | succ distance =>
        obtain ⟨outer, around, reached⟩ := Option.bind_eq_some_iff.mp reached
        exact (ih outer (records.outer_lt around)).mp (further outer around) distance holder reached
    · intro never
      refine ⟨never 0 scope rfl, fun outer around => ?_⟩
      refine (ih outer (records.outer_lt around)).mpr fun distance holder reached => ?_
      refine never (distance + 1) holder ?_
      rw [ancestor, around, Option.bind_some, reached]

end World.Records

/-- After every history of operations, a lookup from any scope gives what the name was bound to the last time in
the nearest scope, from there outwards, in which it was ever bound. It gives nothing exactly if there is no such
scope. A name is bound in a scope itself exactly if it was ever bound there. -/
theorem lookup_follows_history (input : String) (valid : Valid 0 history) (scope : Nat) (name : String) :
    let world := performAll history (.start input)
    (∀ value, world.find? name scope = some value ↔ ∃ distance holder,
        Nearest history name scope distance holder ∧ LastSet history holder name value) ∧
      (world.find? name scope = none ↔ ∀ distance holder,
        ancestor history distance scope = some holder → ¬ EverSet history holder name) ∧
      ((world.boundIn scope name).isSome ↔ EverSet history scope name) := by
  intro world
  have records : world.Records history := .of_valid input valid
  exact ⟨records.find?_eq_some_iff name scope, records.find?_eq_none_iff name scope,
    records.boundIn_isSome_iff scope name⟩

/-- A name is bound around a scope that is there already, and bound again after another scope was made inside.
A second name is bound around the scope too, but from inside it is seen as it is bound there. -/
theorem lookup_follows_history_of_late_binding :
    let history : List Scope.Operation :=
      [.root, .child 0, .set 0 "late" (.int 1), .set 1 "own" (.int 2), .set 0 "own" (.int 3), .child 1,
        .set 0 "late" (.int 4)]
    let world := performAll history (.start "")
    Valid 0 history ∧ world.find? "late" 2 = some (.int 4) ∧ world.find? "own" 2 = some (.int 2) ∧
      (world.boundIn 1 "late").isSome = false := by
  intro history world
  have valid : Valid 0 history := by simp [history, Valid, Allowed, made?]
  have never : ∀ scope ∈ [1, 2], ¬ EverSet history scope "late" := by simp [history, EverSet]
  have late : Nearest history "late" 2 2 0 := by
    refine ⟨rfl, ⟨.int 4, by simp [history]⟩, fun closer less between reached => ?_⟩
    obtain rfl | rfl : closer = 0 ∨ closer = 1 := by omega
    · cases reached
      exact never 2 (by simp)
    · cases reached
      exact never 1 (by simp)
  have own : Nearest history "own" 2 1 1 := by
    refine ⟨rfl, ⟨.int 2, by simp [history]⟩, fun closer less between reached => ?_⟩
    obtain rfl : closer = 0 := by omega
    cases reached
    simp [history, EverSet]
  have lastLate : LastSet history 0 "late" (.int 4) := ⟨history.dropLast, [], rfl, by simp [EverSet]⟩
  have lastOwn : LastSet history 1 "own" (.int 2) :=
    ⟨history.take 3, history.drop 4, rfl, by simp [history, EverSet]⟩
  refine ⟨valid, ?_, ?_, ?_⟩
  · exact ((lookup_follows_history "" valid 2 "late").1 _).mpr ⟨2, 0, late, lastLate⟩
  · exact ((lookup_follows_history "" valid 2 "own").1 _).mpr ⟨1, 1, own, lastOwn⟩
  · have iff := (lookup_follows_history "" valid 1 "late").2.2
    exact Bool.eq_false_iff.mpr fun isSome => never 1 (by simp) (iff.mp isSome)

end TreeWalk
