import TreeWalk.Proofs.Invariant

/-! What a run may write.

Code that runs in a scope binds names in that scope and in scopes that were added meanwhile, and
nowhere else; no scope ever gets another outer scope. An application has no scope of its own before it
starts, so it leaves every scope alone that was there. -/
namespace TreeWalk

/-- The scopes of one world are in a later one as they were, except that some may have other bindings. -/
structure Preserved (changing : Nat → Prop) (before after : World) : Prop where
  grown : before.scopes.size ≤ after.scopes.size
  unchanged : ∀ i < before.scopes.size, ¬ changing i → after.scopes[i]? = before.scopes[i]?
  outer : ∀ i < before.scopes.size,
    (after.scopes[i]?).map Scope.outer = (before.scopes[i]?).map Scope.outer

namespace Preserved

theorem refl (changing : Nat → Prop) (world : World) : Preserved changing world world :=
  ⟨Nat.le_refl _, fun _ _ _ => rfl, fun _ _ => rfl⟩

/-- Only scopes matter. -/
theorem of_scopes_eq (kept : Preserved changing before middle) (same : after.scopes = middle.scopes) :
    Preserved changing before after := by
  obtain ⟨grown, unchanged, outer⟩ := kept
  constructor <;> rw [same] <;> assumption

/-- A name may be bound in a scope that may change or that is new. -/
theorem bind (kept : Preserved changing before middle)
    (mayChange : changing scope ∨ before.scopes.size ≤ scope) :
    Preserved changing before (middle.bind scope name value) := by
  unfold World.bind
  split
  · rename_i own found
    refine ⟨by simpa using kept.grown, fun i old notChanging => ?_, fun i old => ?_⟩
    · have different : scope ≠ i := by
        rintro rfl
        exact mayChange.elim notChanging (Nat.not_le.mpr old)
      simpa [Array.getElem?_setIfInBounds_ne different] using kept.unchanged i old notChanging
    · rw [← kept.outer i old]
      by_cases same : scope = i
      · subst same
        have inBounds := (Array.getElem?_eq_some_iff.mp found).1
        simp [Array.getElem?_setIfInBounds_self_of_lt inBounds, found, Scope.set]
      · simp [Array.getElem?_setIfInBounds_ne same]
  · exact kept

/-- A new scope does not touch the old ones. -/
theorem addScope (kept : Preserved changing before middle) :
    Preserved changing before (middle.addScope scope).2 := by
  have old : ∀ i < before.scopes.size, (middle.addScope scope).2.scopes[i]? = middle.scopes[i]? :=
    fun i inBounds => by
      have inMiddle := Nat.lt_of_lt_of_le inBounds kept.grown
      rw [World.addScope, Array.getElem?_push_lt inMiddle, Array.getElem?_eq_getElem inMiddle]
  refine ⟨?_, fun i inBounds notChanging => ?_, fun i inBounds => ?_⟩
  · simpa [World.addScope] using Nat.le_succ_of_le kept.grown
  · rw [old i inBounds]
    exact kept.unchanged i inBounds notChanging
  · rw [old i inBounds]
    exact kept.outer i inBounds

end Preserved

/-- Runs write only in scopes that may change and in new ones. -/
def writeFrame (changing : Nat → Prop) (before : World) : Invariant where
  value _ _ := True
  scope _ s := changing s ∨ before.scopes.size ≤ s
  outer _ _ := True
  code _ := True
  result _ _ _ := True
  world after := Preserved changing before after
  least := before.scopes.size
  value_later _ _ := trivial
  scope_later _ inside := inside
  plain _ := trivial
  array_iff := by simp
  result_of_value _ _ := trivial
  operand _ _ := by simp
  statement _ _ := by simp
  program _ _ := by simp
  signal _ _ := trivial
  closure _ _ := trivial
  functionBody _ _ := by simp
  opened _ := trivial
  fresh grown _ := .inr grown
  enough kept := kept.grown
  found _ _ _ := trivial
  bind_kept kept inside _ := kept.bind inside
  addScope_kept kept _ _ := kept.addScope
  same_scopes kept same := kept.of_scopes_eq same

/-- Evaluating a tree in a scope leaves every other scope that was there with the same bindings and the
same outer scope, and its own scope with the same outer scope. Applying a value leaves all scopes alone
that were there. Both hold whatever comes of it: a value, an error, a fault, or the end of the depth. -/
theorem evaluation_writes_own_scope (tree : Tree) (depth scope : Nat) (world : World) :
    Preserved (· = scope) world (evaluateTo depth (.ofTree tree) tree.describe scope world).2 ∧
      ∀ value args, Preserved (fun _ => False) world
        (outcome ((Request.apply value args).perform depth world)).2 := by
  constructor
  · have asked : (writeFrame (· = scope) world).asks world.scopes.size (.eval (.ofTree tree) scope) :=
      ⟨trivial, .inl rfl⟩
    exact (evaluateTo_keeps _ depth tree.describe (Preserved.refl _ world) asked).1
  · intro value args
    have ran := Request.run_keeps (writeFrame (fun _ => False) world) depth (.apply value args)
      (Preserved.refl _ world) ⟨trivial, fun _ _ => trivial⟩
    exact outcome_keeps (writeFrame _ world) ran.1.world

end TreeWalk
