import TreeWalk.World

/-! What is stored in a world.

Values get into the scopes of a world when a name is bound and when a scope is added, and a lookup gives
only what has got there. Which scope holds a value does not matter here. -/
namespace TreeWalk

/-- Some scope binds a name to the value. -/
def World.Stores (world : World) (value : Value) : Prop :=
  ∃ scope ∈ world.scopes, ∃ binding ∈ scope.bindings, binding.2 = value

theorem Scope.mem_put {bindings : List (String × Value)}
    (member : binding ∈ Scope.put name value bindings) :
    binding.2 = value ∨ binding ∈ bindings := by
  induction bindings with
  | nil =>
    rw [Scope.put, List.mem_singleton] at member
    exact .inl (by rw [member])
  | cons head rest ih =>
    obtain ⟨other, old⟩ := head
    rw [Scope.put] at member
    split at member
    · rcases List.mem_cons.mp member with rfl | inRest
      · exact .inl rfl
      · exact .inr (List.mem_cons_of_mem _ inRest)
    · rcases List.mem_cons.mp member with rfl | inPut
      · exact .inr List.mem_cons_self
      · exact (ih inPut).imp id (List.mem_cons_of_mem _)

/-- A binding changes what one name stands for. -/
theorem Scope.get?_set (scope : Scope) (name : String) (value : Value) (given : String) :
    (scope.set name value).get? given = if given = name then some value else scope.get? given := by
  obtain ⟨outer, bindings⟩ := scope
  simp only [Scope.set, Scope.get?]
  induction bindings with
  | nil =>
    by_cases same : given = name
    · simp [Scope.put, same]
    · have notName : (given == name) = false := by simp [same]
      simp [Scope.put, List.lookup_cons, same, notName]
  | cons binding rest ih =>
    obtain ⟨other, old⟩ := binding
    rw [Scope.put]
    by_cases isName : other = name
    · by_cases same : given = name
      · simp [isName, same]
      · have notName : (given == name) = false := by simp [same]
        simp [isName, List.lookup_cons, same, notName]
    · by_cases isOther : given = other
      · simp [isName, isOther]
      · have notOther : (given == other) = false := by simp [isOther]
        simpa [isName, List.lookup_cons, notOther] using ih

theorem Scope.mem_of_get? {scope : Scope} (found : scope.get? name = some value) :
    (name, value) ∈ scope.bindings := by
  obtain ⟨before, after, split, _⟩ := List.lookup_eq_some_iff.mp found
  simp [split]

namespace World

/-- A lookup gives what some scope binds the name to. -/
theorem mem_of_find? {world : World} (found : world.find? name scope = some value) :
    ∃ (i : Nat) (own : Scope), world.scopes[i]? = some own ∧ (name, value) ∈ own.bindings := by
  fun_induction World.find? world name scope with
  | case1 scope missing => cases found
  | case2 scope own present value' bound =>
    cases found
    exact ⟨scope, own, present, Scope.mem_of_get? bound⟩
  | case3 scope own present unbound outer isOuter older ih => exact ih found
  | case4 => cases found
  | case5 => cases found

/-- A lookup looks at nothing but the scopes up to the one it starts from. -/
theorem find?_congr {world world' : World} {scope : Nat}
    (same : ∀ i ≤ scope, world'.scopes[i]? = world.scopes[i]?) (name : String) :
    world'.find? name scope = world.find? name scope := by
  fun_induction World.find? world name scope with
  | case1 scope missing => rw [World.find?, same scope (Nat.le_refl _), missing]
  | case2 scope own present value bound =>
    rw [World.find?]
    simp only [same scope (Nat.le_refl _), present, bound]
  | case3 scope own present unbound outer isOuter older ih =>
    rw [World.find?]
    have inner := ih fun i inside => same i (Nat.le_trans inside (Nat.le_of_lt older))
    simp only [same scope (Nat.le_refl _), present, unbound, isOuter, older, if_true, inner]
  | case4 scope own present unbound outer isOuter notOlder =>
    rw [World.find?]
    simp only [same scope (Nat.le_refl _), present, unbound, isOuter, notOlder, if_false]
  | case5 scope own present unbound noOuter =>
    rw [World.find?]
    simp only [same scope (Nat.le_refl _), present, unbound, noOuter]

theorem find?_of_scopes {world world' : World} (same : world'.scopes = world.scopes) (name : String)
    (scope : Nat) : world'.find? name scope = world.find? name scope :=
  find?_congr (fun i _ => by rw [same]) name

theorem stores_of_find? {world : World} (found : world.find? name scope = some value) :
    world.Stores value := by
  obtain ⟨i, own, present, member⟩ := mem_of_find? found
  exact ⟨own, Array.mem_of_getElem? present, _, member, rfl⟩

theorem bind_size (world : World) (scope : Nat) (name : String) (value : Value) :
    (world.bind scope name value).scopes.size = world.scopes.size := by
  unfold World.bind
  split <;> simp

/-- A binding changes one scope, and nothing but scopes. -/
theorem bind_getElem? (world : World) (scope : Nat) (name : String) (value : Value) (i : Nat) :
    (world.bind scope name value).scopes[i]? =
      if scope = i then (world.scopes[i]?).map (·.set name value) else world.scopes[i]? := by
  unfold World.bind
  split
  · rename_i own found
    by_cases same : scope = i
    · subst same
      have inBounds := (Array.getElem?_eq_some_iff.mp found).1
      simp [Array.getElem?_setIfInBounds_self_of_lt inBounds, found]
    · simp [Array.getElem?_setIfInBounds_ne same, same]
  · rename_i missing
    by_cases same : scope = i
    · subst same
      simp [missing]
    · simp [same]

/-- Seen from the scope of a binding, a name stands for what has been bound or for what it did before. -/
theorem find?_of_bind {world : World} {scope : Nat}
    (found : (world.bind scope name value).find? given scope = some result) :
    result = value ∨ world.find? given scope = some result := by
  rw [World.find?, bind_getElem?, if_pos rfl] at found
  rw [World.find?]
  cases present : world.scopes[scope]? with
  | none => simp [present] at found
  | some own =>
    simp only [present, Option.map_some, Scope.get?_set] at found
    by_cases isName : given = name
    · rw [if_pos isName] at found
      exact .inl (Option.some.inj found).symm
    · -- The scopes around are older than this one, so the binding is not in them.
      have around : ∀ outer < scope,
          (world.bind scope name value).find? given outer = world.find? given outer := by
        intro outer older
        refine find?_congr (fun i inside => ?_) given
        rw [bind_getElem?, if_neg (by omega)]
      right
      simp only [if_neg isName, Scope.set] at found ⊢
      rw [← found]
      cases own.get? given with
      | some bound => rfl
      | none =>
        cases own.outer with
        | none => rfl
        | some outer => by_cases older : outer < scope <;> simp [older, around]

@[simp] theorem bind_nextSerial (world : World) (scope : Nat) (name : String) (value : Value) :
    (world.bind scope name value).nextSerial = world.nextSerial := by
  unfold World.bind
  split <;> rfl

@[simp] theorem bind_input (world : World) (scope : Nat) (name : String) (value : Value) :
    (world.bind scope name value).input = world.input := by
  unfold World.bind
  split <;> rfl

@[simp] theorem bind_output (world : World) (scope : Nat) (name : String) (value : Value) :
    (world.bind scope name value).output = world.output := by
  unfold World.bind
  split <;> rfl

@[simp] theorem bind_notes (world : World) (scope : Nat) (name : String) (value : Value) :
    (world.bind scope name value).notes = world.notes := by
  unfold World.bind
  split <;> rfl

theorem stores_of_bind {world : World} (stored : (world.bind scope name value).Stores other) :
    other = value ∨ world.Stores other := by
  unfold World.bind at stored
  split at stored
  · rename_i own present
    obtain ⟨holder, inWorld, binding, member, rfl⟩ := stored
    rcases Array.mem_or_eq_of_mem_setIfInBounds inWorld with old | rfl
    · exact .inr ⟨holder, old, binding, member, rfl⟩
    · rcases Scope.mem_put member with new | old
      · exact .inl new
      · exact .inr ⟨own, Array.mem_of_getElem? present, binding, old, rfl⟩
  · exact .inr stored

theorem stores_of_addScope {world : World} (stored : (world.addScope scope).2.Stores value) :
    (∃ binding ∈ scope.bindings, binding.2 = value) ∨ world.Stores value := by
  obtain ⟨holder, inWorld, binding, member, rfl⟩ := stored
  rcases Array.mem_push.mp inWorld with old | rfl
  · exact .inr ⟨holder, old, binding, member, rfl⟩
  · exact .inl ⟨binding, member, rfl⟩

end World

end TreeWalk
