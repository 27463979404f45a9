import TreeWalk.Proofs.Simulation
import TreeWalk.Proofs.Traffic

/-! The same run, later.

Between two runs a world may have handed out more identities and scopes. The second run then gets other
ones than the first, all of them further on by the same distance, while everything that was there before
the first run has stayed where it was. So two runs of the same request correspond by a renaming that
leaves old identities and scopes alone and moves new ones, as long as the first one reads no input. -/
namespace TreeWalk

open Value (Alike)

/-- Numbers from a limit on are moved by a distance. -/
def shift (limit distance i : Nat) : Nat := if i < limit then i else i + distance

theorem shift_of_lt (below : i < limit) : shift limit distance i = i := if_pos below

theorem shift_of_le (beyond : limit ≤ i) : shift limit distance i = i + distance :=
  if_neg (Nat.not_lt.mpr beyond)

/-- The limit itself is moved to where the distance was measured from. -/
theorem shift_limit (grown : limit ≤ target) : shift limit (target - limit) limit = target := by
  rw [shift_of_le (Nat.le_refl limit)]
  omega

theorem shift_lt_iff : shift limit distance i < shift limit distance j ↔ i < j := by
  unfold shift
  split <;> split <;> omega

theorem shift_inj : shift limit distance i = shift limit distance j ↔ i = j := by
  unfold shift
  split <;> split <;> omega

theorem shift_succ (beyond : limit ≤ i) : shift limit distance (i + 1) = shift limit distance i + 1 := by
  rw [shift_of_le beyond, shift_of_le (Nat.le_succ_of_le beyond)]
  omega

/-- Other identities and other scopes for those in a value. -/
structure Renaming where
  serial : Nat → Nat
  scope : Nat → Nat

namespace Value

mutual

/-- A value with other identities and scopes. -/
def rename (renames : Renaming) : Value → Value
  | array items => array (renameAll renames items)
  | function serial params body scope =>
    function (renames.serial serial) params body (renames.scope scope)
  | signal serial value => signal (renames.serial serial) (rename renames value)
  | error serial failure => error (renames.serial serial) failure
  | value => value

/-- Values in a row with other identities and scopes. -/
def renameAll (renames : Renaming) : List Value → List Value
  | [] => []
  | value :: values => rename renames value :: renameAll renames values

end

theorem rename_of_plain {value : Value} (plain : value.Plain) : value.rename renames = value := by
  cases value with
  | array | function | signal | error => cases plain
  | _ => rfl

mutual

/-- What is alike by a renaming is renamed. -/
theorem Alike.eq_rename {m : Matching} {value value' : Value}
    (serials : ∀ {s s'}, m.serial s s' → s' = renames.serial s)
    (scopes : ∀ {s s'}, m.scope s s' → s' = renames.scope s) :
    Alike m value value' → value' = value.rename renames
  | .plain plain => (rename_of_plain plain).symm
  | .array items => by rw [rename, eq_renameAll serials scopes items]
  | .function sameSerial sameScope _ => by rw [rename, serials sameSerial, scopes sameScope]
  | .signal sameSerial inner => by rw [rename, serials sameSerial, inner.eq_rename serials scopes]
  | .error sameSerial => by rw [rename, serials sameSerial]

theorem eq_renameAll {m : Matching} {items items' : List Value}
    (serials : ∀ {s s'}, m.serial s s' → s' = renames.serial s)
    (scopes : ∀ {s s'}, m.scope s s' → s' = renames.scope s) :
    List.Forall₂ (Alike m) items items' → items' = renameAll renames items
  | .nil => rfl
  | .cons first rest => by
    rw [renameAll, first.eq_rename serials scopes, eq_renameAll serials scopes rest]

end

end Value

/-- A scope with other identities and scopes in what it holds. -/
def Scope.rename (renames : Renaming) (own : Scope) : Scope where
  outer := own.outer.map renames.scope
  bindings := own.bindings.map fun binding => (binding.1, binding.2.rename renames)

namespace Matching

variable {m : Matching}

theorem lookup_alike (bound : List.Forall₂ m.Binds bindings bindings') (name : String) :
    Option.Rel (Alike m) (bindings.lookup name) (bindings'.lookup name) := by
  induction bound with
  | nil => exact .none
  | @cons first second _ _ binds _ ih =>
    obtain ⟨other, value⟩ := first
    obtain ⟨other', value'⟩ := second
    obtain ⟨same, _, alike⟩ := binds
    cases same
    rw [List.lookup_cons, List.lookup_cons]
    split
    · exact .some alike
    · exact ih

theorem put_alike {name : String} (bound : List.Forall₂ m.Binds bindings bindings')
    (allowed : m.name name) (alike : Alike m value value') :
    List.Forall₂ m.Binds (Scope.put name value bindings) (Scope.put name value' bindings') := by
  induction bound with
  | nil => exact .cons ⟨rfl, allowed, alike⟩ .nil
  | @cons first second _ _ binds rest ih =>
    obtain ⟨other, old⟩ := first
    obtain ⟨other', old'⟩ := second
    obtain ⟨same, mentioned, alikeOld⟩ := binds
    cases same
    rw [Scope.put, Scope.put]
    split
    · exact .cons ⟨rfl, mentioned, alike⟩ rest
    · exact .cons ⟨rfl, mentioned, alikeOld⟩ ih

/-- Scopes with the same names, bound to values that are alike, inside scopes that correspond. -/
structure ScopesAlike (m : Matching) (own own' : Scope) : Prop where
  outer : Option.Rel m.scope own.outer own'.outer
  bindings : List.Forall₂ m.Binds own.bindings own'.bindings

section Renamed

variable {renames : Renaming} (serials : ∀ {s s'}, m.serial s s' → s' = renames.serial s)
  (scopes : ∀ {s s'}, m.scope s s' → s' = renames.scope s)

include serials scopes

theorem eq_rename_of_binds (bound : List.Forall₂ m.Binds bindings bindings') :
    bindings' = bindings.map fun binding => (binding.1, binding.2.rename renames) := by
  induction bound with
  | nil => rfl
  | @cons binding binding' _ _ first _ ih =>
    obtain ⟨sameName, _, alike⟩ := first
    have sameBinding : binding' = (binding.1, binding.2.rename renames) :=
      Prod.ext sameName.symm (alike.eq_rename serials scopes)
    rw [List.map_cons, ← ih, sameBinding]

/-- Where identities and scopes correspond by a renaming, a scope that is alike is the scope renamed. -/
theorem ScopesAlike.eq_rename (alike : m.ScopesAlike own own') : own' = own.rename renames := by
  obtain ⟨outer', bindings'⟩ := own'
  obtain ⟨around, bound⟩ := alike
  have sameOuter : outer' = own.outer.map renames.scope := by
    generalize own.outer = outer at around
    cases around with
    | none => rfl
    | some same => rw [scopes same, Option.map_some]
  have sameBindings : bindings' = _ := eq_rename_of_binds serials scopes bound
  rw [Scope.rename, sameOuter, sameBindings]

end Renamed

end Matching

/-- What a run in an earlier world gets becomes what it gets in a later one. -/
def moved (first second : World) : Renaming where
  serial := shift first.nextSerial (second.nextSerial - first.nextSerial)
  scope := shift first.scopes.size (second.scopes.size - first.scopes.size)

theorem moved_scope_lt_iff {first second : World} :
    (moved first second).scope i < (moved first second).scope j ↔ i < j :=
  shift_lt_iff

theorem moved_scope_inj {first second : World} :
    (moved first second).scope i = (moved first second).scope j ↔ i = j :=
  shift_inj

/-- Identities and scopes are moved; any code may run. -/
def movedBetween (first second : World) : Matching where
  serial s s' := s' = (moved first second).serial s
  scope s s' := s' = (moved first second).scope s
  name _ := True
  code _ := True
  serial_eq_iff := by
    rintro a _ b _ rfl rfl
    exact shift_inj.symm
  operand _ _ := trivial
  statement _ _ := trivial
  enclosed _ _ := trivial
  mentions _ _ := trivial

/-- The scopes of one world are those of another, moved. -/
structure Displaced (first second : World) (w w' : World) : Prop where
  scopesFrom : first.scopes.size ≤ w.scopes.size
  sizes : w'.scopes.size = (moved first second).scope w.scopes.size
  serialsFrom : first.nextSerial ≤ w.nextSerial
  serials : w'.nextSerial = (moved first second).serial w.nextSerial
  scopes : ∀ i, Option.Rel (movedBetween first second).ScopesAlike w.scopes[i]?
    w'.scopes[(moved first second).scope i]?

namespace Displaced

variable {first second : World}

/-- Only scopes and the next identity matter. -/
theorem of_eq {v v' : World} (kept : Displaced first second w w') (scopes : v.scopes = w.scopes)
    (scopes' : v'.scopes = w'.scopes) (serial : v.nextSerial = w.nextSerial)
    (serial' : v'.nextSerial = w'.nextSerial) : Displaced first second v v' := by
  obtain ⟨scopesFrom, sizes, serialsFrom, serials, alike⟩ := kept
  constructor <;> simp only [scopes, scopes', serial, serial'] <;> assumption

/-- Scopes that correspond are the same up to a renaming, in what they bind and what they stand in. -/
theorem scopes_eq (kept : Displaced first second w w') (i : Nat) :
    w'.scopes[(moved first second).scope i]? = (w.scopes[i]?).map (Scope.rename (moved first second)) := by
  have alike := kept.scopes i
  generalize w.scopes[i]? = present at alike
  generalize w'.scopes[(moved first second).scope i]? = present' at alike
  cases alike with
  | none => rfl
  | some alike => rw [Matching.ScopesAlike.eq_rename (m := movedBetween first second) id id alike, Option.map_some]

/-- Names are looked up alike: outer scopes are older in both worlds, or in neither. -/
theorem find?_alike (kept : Displaced first second w w') (name : String) (scope : Nat) :
    Option.Rel (Alike (movedBetween first second)) (w.find? name scope)
      (w'.find? name ((moved first second).scope scope)) := by
  induction scope using Nat.strongRecOn with
  | ind scope ih =>
    have alike := kept.scopes scope
    rw [World.find?, World.find?]
    generalize w.scopes[scope]? = present at alike
    generalize w'.scopes[(moved first second).scope scope]? = present' at alike
    cases alike with
    | none => exact .none
    | @some own own' scopesAlike =>
      have found := Matching.lookup_alike scopesAlike.bindings name
      have outers := scopesAlike.outer
      simp only [Scope.get?]
      generalize own.bindings.lookup name = bound at found
      generalize own'.bindings.lookup name = bound' at found
      cases found with
      | some alikeValues => exact .some alikeValues
      | none =>
        dsimp only
        generalize own.outer = outer at outers
        generalize own'.outer = outer' at outers
        cases outers with
        | none => exact .none
        | @some outer outer' same =>
          cases same
          dsimp only
          by_cases older : outer < scope
          · rw [if_pos older, if_pos (moved_scope_lt_iff.mpr older)]
            exact ih outer older
          · rw [if_neg older, if_neg (mt moved_scope_lt_iff.mp older)]
            exact .none

/-- The next identities correspond, and so do the worlds that have taken them. -/
theorem takeSerial (kept : Displaced first second w w') :
    Displaced first second w.takeSerial.2 w'.takeSerial.2 := by
  refine ⟨kept.scopesFrom, kept.sizes, Nat.le_succ_of_le kept.serialsFrom, ?_, kept.scopes⟩
  rw [World.takeSerial, World.takeSerial, kept.serials]
  exact (shift_succ kept.serialsFrom).symm

theorem addScope (kept : Displaced first second w w')
    (alike : (movedBetween first second).ScopesAlike own own') :
    Displaced first second (w.addScope own).2 (w'.addScope own').2 := by
  have sizes : (w'.addScope own').2.scopes.size = (moved first second).scope (w.addScope own).2.scopes.size := by
    simp only [World.addScope, Array.size_push]
    rw [kept.sizes]
    exact (shift_succ kept.scopesFrom).symm
  refine ⟨?_, sizes, kept.serialsFrom, kept.serials, fun i => ?_⟩
  · simpa [World.addScope] using Nat.le_succ_of_le kept.scopesFrom
  · simp only [World.addScope, Array.getElem?_push, kept.sizes]
    by_cases isNew : i = w.scopes.size
    · rw [if_pos isNew, if_pos (congrArg _ isNew)]
      exact .some alike
    · rw [if_neg isNew, if_neg fun same => isNew (moved_scope_inj.mp same)]
      exact kept.scopes i

theorem bind (kept : Displaced first second w w') (scope : Nat) (name : String)
    (alike : Alike (movedBetween first second) value value') :
    Displaced first second (w.bind scope name value)
      (w'.bind ((moved first second).scope scope) name value') := by
  refine ⟨?_, ?_, ?_, ?_, fun i => ?_⟩
  · rw [World.bind_size]
    exact kept.scopesFrom
  · rw [World.bind_size, World.bind_size]
    exact kept.sizes
  · rw [World.bind_nextSerial]
    exact kept.serialsFrom
  · rw [World.bind_nextSerial, World.bind_nextSerial]
    exact kept.serials
  · rw [World.bind_getElem?, World.bind_getElem?]
    have old := kept.scopes i
    by_cases same : scope = i
    · rw [if_pos same, if_pos (congrArg _ same)]
      generalize w.scopes[i]? = present at old
      generalize w'.scopes[(moved first second).scope i]? = present' at old
      cases old with
      | none => exact .none
      | some scopesAlike =>
        exact .some ⟨scopesAlike.outer, Matching.put_alike scopesAlike.bindings trivial alike⟩
    · rw [if_neg same, if_neg fun sameMoved => same (moved_scope_inj.mp sameMoved)]
      exact old

end Displaced

/-- A run that started in one world corresponds, so far, to one that started in a later one: it has read
nothing, and the other has printed the same. -/
structure Relocated (first second : World) (w w' : World) : Prop extends Displaced first second w w' where
  printed : ∃ text, w.output = first.output ++ text ∧ w'.output = second.output ++ text
  unread : w.input = first.input ∧ w'.input = second.input
  exhausted : first.input = [] → second.input = []

/-- Reading takes something from the input unless there is none. -/
theorem World.readLine_lt (world : World) (filled : world.input ≠ []) :
    world.readLine.2.input.length < world.input.length := by
  have rest : world.readLine.2.input = (world.input.dropWhile (· ≠ '\n')).drop 1 := rfl
  have shorter := (List.dropWhile_suffix (l := world.input) (· ≠ '\n')).length_le
  have positive := List.length_pos_iff.mpr filled
  rw [rest, List.length_drop]
  omega

/-- At the end of the input an empty line is read, and nothing is taken. -/
theorem World.readLine_of_empty {world : World} (empty : world.input = []) : world.readLine = ("", world) := by
  obtain ⟨scopes, nextSerial, input, output, notes⟩ := world
  subst empty
  rfl

/-- A run in an earlier world and the same run in a later one, until the first one reads. -/
def relocation (first second : World) : Simulation where
  toMatching := movedBetween first second
  world := Relocated first second
  lost w := w.input.length < first.input.length
  lost_kept lost action := Nat.lt_of_le_of_lt (action.perform_precedes _).unread.length_le lost
  takeSerial_kept kept :=
    .inr ⟨kept.serials, ⟨kept.toDisplaced.takeSerial, kept.printed, kept.unread, kept.exhausted⟩⟩
  addScope_kept kept scopes bound :=
    ⟨kept.sizes, ⟨kept.toDisplaced.addScope ⟨.some scopes, bound⟩, kept.printed, kept.unread, kept.exhausted⟩⟩
  bind_kept := by
    rintro w w' s _ n v v' kept rfl _ alike
    refine ⟨kept.toDisplaced.bind s n alike, ?_, ?_, kept.exhausted⟩
    · rw [World.bind_output, World.bind_output]
      exact kept.printed
    · rw [World.bind_input, World.bind_input]
      exact kept.unread
  find_kept := by
    rintro w w' s _ n kept rfl _
    exact kept.find?_alike n s
  print_kept := by
    intro w w' line kept
    obtain ⟨text, printed, printed'⟩ := kept.printed
    refine ⟨kept.toDisplaced.of_eq rfl rfl rfl rfl, ⟨text ++ (line ++ "\n"), ?_, ?_⟩, kept.unread,
      kept.exhausted⟩
    · rw [World.print, printed, String.append_assoc, String.append_assoc]
    · rw [World.print, printed', String.append_assoc, String.append_assoc]
  readLine_kept := by
    intro w w' kept
    by_cases filled : first.input = []
    · have empty : w.input = [] := kept.unread.1.trans filled
      have empty' : w'.input = [] := kept.unread.2.trans (kept.exhausted filled)
      rw [World.readLine_of_empty empty, World.readLine_of_empty empty']
      exact .inr ⟨rfl, kept⟩
    · left
      rw [← kept.unread.1] at filled ⊢
      exact w.readLine_lt filled
  log_kept kept :=
    ⟨kept.toDisplaced.of_eq rfl rfl rfl rfl, kept.printed, kept.unread, kept.exhausted⟩

end TreeWalk
