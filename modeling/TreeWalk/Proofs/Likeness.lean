import TreeWalk.Proofs.Invariant
import Mathlib.Data.List.Forall2

/-! Values that are alike.

Two runs of the same code can be compared although the functions, signals and errors that they make have
other identities and their scopes have other numbers. A matching says which identities and which scopes
stand for each other. Values are alike if they are the same up to a matching; no operation of the language
can tell apart what is alike, because identities are only ever compared with each other. -/
namespace TreeWalk

/-- The names that a node of code itself mentions. -/
def Code.names : Code → List String
  | bind name _ | ident name => [name]
  | loop source element index _ => source :: element :: index.toList
  | function params _ => params
  | _ => []

/-- How two runs of the same code correspond. -/
structure Matching where
  /-- Identities that stand for each other. -/
  serial : Nat → Nat → Prop
  /-- Scopes that stand for each other. -/
  scope : Nat → Nat → Prop
  /-- Names that may be mentioned. -/
  name : String → Prop
  /-- Code that may run. -/
  code : Code → Prop
  serial_eq_iff : serial a a' → serial b b' → (a = b ↔ a' = b')
  operand : code c → part ∈ c.operands → code part
  statement : code c → part ∈ c.statements → code part
  enclosed : code c → part ∈ c.enclosed → code part
  mentions : code c → n ∈ c.names → name n

/-- The same value up to a matching. A function has code that may run. -/
inductive Value.Alike (m : Matching) : Value → Value → Prop where
  | plain (plain : value.Plain) : Alike m value value
  | array (items : List.Forall₂ (Alike m) elements elements') : Alike m (.array elements) (.array elements')
  | function (serials : m.serial serial serial') (scopes : m.scope scope scope')
      (literal : m.code (.function params body)) :
      Alike m (.function serial params body scope) (.function serial' params body scope')
  | signal (serials : m.serial serial serial') (inner : Alike m value value') :
      Alike m (.signal serial value) (.signal serial' value')
  | error {failure : Failure} (serials : m.serial serial serial') :
      Alike m (.error serial failure) (.error serial' failure)

namespace Value

variable {m : Matching}

namespace Alike

theorem kind_eq (alike : Alike m value value') : value.kind = value'.kind := by
  cases alike <;> rfl

theorem truthy_eq (alike : Alike m value value') : value.truthy = value'.truthy := by
  cases alike <;> rfl

theorem isSignal_eq (alike : Alike m value value') : value.isSignal = value'.isSignal := by
  cases alike <;> rfl

theorem unwrap (alike : Alike m value value') : Alike m value.unwrap value'.unwrap := by
  cases alike with
  | signal _ inner => exact inner
  | plain plain =>
    cases value with
    | signal => cases plain
    | _ => exact .plain plain
  | array items => exact .array items
  | function serials scopes literal => exact .function serials scopes literal
  | error serials => exact .error serials

/-- A plain value is alike to itself only. -/
theorem eq_of_plain (alike : Alike m value value') (plain : value.Plain) : value' = value := by
  cases alike with
  | plain => rfl
  | array | function | signal | error => cases plain

theorem eq_of_plain_right (alike : Alike m value value') (plain : value'.Plain) : value = value' := by
  cases alike with
  | plain => rfl
  | array | function | signal | error => cases plain

theorem of_array (alike : Alike m (.array items) value') :
    ∃ items', value' = .array items' ∧ List.Forall₂ (Alike m) items items' := by
  cases alike with
  | plain plain => cases plain
  | array items => exact ⟨_, rfl, items⟩

theorem of_array_kind (alike : Alike m value value') (isArray : value.kind = .array) :
    ∃ items items', value = .array items ∧ value' = .array items' ∧ List.Forall₂ (Alike m) items items' := by
  cases value with
  | array items =>
    obtain ⟨items', rfl, alikeItems⟩ := alike.of_array
    exact ⟨items, items', rfl, rfl, alikeItems⟩
  | _ => cases isArray

theorem of_string_kind (alike : Alike m value value') (isString : value.kind = .string) :
    ∃ text, value = .str text ∧ value' = .str text := by
  cases value with
  | str text => exact ⟨text, rfl, alike.eq_of_plain trivial⟩
  | _ => cases isString

theorem of_array_right (alike : Alike m value (.array items')) : ∃ items, value = .array items := by
  cases alike with
  | plain plain => cases plain
  | array items => exact ⟨_, rfl⟩

end Alike

mutual

/-- What is alike is shown alike. -/
theorem Alike.render_eq {value value' : Value} : Alike m value value' → value.render = value'.render
  | .plain _ => rfl
  | .array items => by rw [render, render, renderItems_eq items]
  | .function _ _ _ => rfl
  | .signal _ inner => by rw [render, render, inner.render_eq]
  | .error _ => rfl

theorem renderItems_eq {items items' : List Value} :
    List.Forall₂ (Alike m) items items' → renderItems items = renderItems items'
  | .nil => rfl
  | .cons (a := value) first rest => by
    have others := renderItems_eq rest
    have shown := first.render_eq
    cases first with
    | plain => cases value <;> simp only [renderItems, others]
    | array | function | signal | error => simp only [renderItems, others, shown]

end

/-- Values of different kinds are not equal. -/
private theorem equal_eq_false (different : a.kind ≠ b.kind) : equal a b = false := by
  cases a <;> cases b <;> simp_all [kind, equal]

private theorem kind_ne_of_plain {a b : Value} (plain : a.Plain) (other : ¬ b.Plain) : a.kind ≠ b.kind := by
  cases a <;> cases b <;> simp_all [kind, Plain]

mutual

/-- Identities are compared with each other only, so equality does not depend on what they are. -/
theorem Alike.equal_eq {a a' b b' : Value} (left : Alike m a a') (right : Alike m b b') :
    equal a b = equal a' b' := by
  by_cases same : a.kind = b.kind
  · cases left with
    | plain plain =>
      have otherPlain : b.Plain := Classical.byContradiction fun other => kind_ne_of_plain plain other same
      rw [right.eq_of_plain otherPlain]
    | array items =>
      cases right with
      | array others => exact equalAll_eq items others
      | plain plain => exact absurd same.symm (kind_ne_of_plain plain id)
      | function | signal | error => cases same
    | function serials _ _ =>
      cases right with
      | function others _ _ => simp only [equal, m.serial_eq_iff serials others]
      | plain plain => exact absurd same.symm (kind_ne_of_plain plain id)
      | array | signal | error => cases same
    | signal serials _ =>
      cases right with
      | signal others _ => simp only [equal, m.serial_eq_iff serials others]
      | plain plain => exact absurd same.symm (kind_ne_of_plain plain id)
      | array | function | error => cases same
    | error serials =>
      cases right with
      | error others => simp only [equal, m.serial_eq_iff serials others]
      | plain plain => exact absurd same.symm (kind_ne_of_plain plain id)
      | array | function | signal => cases same
  · rw [equal_eq_false same, equal_eq_false (by rwa [← left.kind_eq, ← right.kind_eq])]

theorem equalAll_eq {items items' others others' : List Value} :
    List.Forall₂ (Alike m) items items' → List.Forall₂ (Alike m) others others' →
      equalAll items others = equalAll items' others'
  | .nil, .nil => rfl
  | .nil, .cons _ _ => rfl
  | .cons _ _, .nil => rfl
  | .cons first rest, .cons second more => by
    rw [equalAll, equalAll, first.equal_eq second, equalAll_eq rest more]

end

/-- The same result up to a matching: values that are alike, or the same failure. -/
inductive ResultsAlike (m : Matching) : Except Failure Value → Except Failure Value → Prop where
  | ok (alike : Alike m value value') : ResultsAlike m (.ok value) (.ok value')
  | error (failure : Failure) : ResultsAlike m (.error failure) (.error failure)

/-- A result is alike to itself if only a plain value can come of it. -/
private theorem ResultsAlike.of_plain {result : Except Failure Value}
    (plain : ∀ value, result = .ok value → value.Plain) : ResultsAlike m result result := by
  cases result with
  | ok value => exact .ok (.plain (plain value rfl))
  | error failure => exact .error failure

/-- An operator between values that are not both integers, both strings or both arrays. -/
private theorem binaryOp_of_other (op : Binary) (notInts : ∀ x y, a = int x → b = int y → False)
    (notStrings : ∀ x y, a = str x → b = str y → False)
    (notArrays : ∀ x y, a = array x → b = array y → False) :
    binaryOp op a b = match op with
      | .equal => .ok (bool (equal a b))
      | .notEqual => .ok (bool (!equal a b))
      | _ =>
        if a.kind = b.kind then .error (.unknownBinary a.kind op)
        else .error (.mismatch a.kind op b.kind) := by
  unfold binaryOp
  split
  · exact (notInts _ _ rfl rfl).elim
  · exact (notStrings _ _ rfl rfl).elim
  · exact (notArrays _ _ rfl rfl).elim
  · rfl

theorem binaryOp_alike (op : Binary) (left : Alike m a a') (right : Alike m b b') :
    ResultsAlike m (binaryOp op a b) (binaryOp op a' b') := by
  generalize second : binaryOp op a' b' = result
  unfold binaryOp
  split
  · rw [left.eq_of_plain trivial, right.eq_of_plain trivial] at second
    subst second
    exact .of_plain fun value => binaryInt_plain
  · rw [left.eq_of_plain trivial, right.eq_of_plain trivial] at second
    subst second
    cases op with
    | add | equal => exact .ok (.plain trivial)
    | _ => exact .error _
  · obtain ⟨items, rfl, leftItems⟩ := left.of_array
    obtain ⟨others, rfl, rightItems⟩ := right.of_array
    subst second
    cases op with
    | add => exact .ok (.array (List.rel_append leftItems rightItems))
    | equal =>
      simp only [binaryOp, equalAll_eq leftItems rightItems]
      exact .ok (.plain trivial)
    | _ => exact .error _
  · rename_i notInts notStrings notArrays
    rw [binaryOp_of_other, ← left.equal_eq right, ← left.kind_eq, ← right.kind_eq] at second
    · subst second
      cases op with
      | equal | notEqual => exact .ok (.plain trivial)
      | _ =>
        dsimp only
        split
        · exact .error _
        · exact .error _
    · rintro x y rfl rfl
      exact notInts x y (left.eq_of_plain_right trivial) (right.eq_of_plain_right trivial)
    · rintro x y rfl rfl
      exact notStrings x y (left.eq_of_plain_right trivial) (right.eq_of_plain_right trivial)
    · rintro x y rfl rfl
      obtain ⟨items, rfl⟩ := left.of_array_right
      obtain ⟨others, rfl⟩ := right.of_array_right
      exact notArrays items others rfl rfl

theorem unaryOp_alike (op : Unary) (alike : Alike m value value') :
    ResultsAlike m (unaryOp op value) (unaryOp op value') := by
  cases alike with
  | @plain value plain =>
    refine .of_plain fun result ran => ?_
    unfold unaryOp at ran
    split at ran <;> cases ran <;> trivial
  | array | function | signal | error =>
    cases op with
    | not => exact .ok (.plain trivial)
    | negate | other => exact .error _

private theorem getD_alike (items : List.Forall₂ (Alike m) elements elements') (i : Nat) :
    Alike m (elements[i]?.getD .null) (elements'[i]?.getD .null) := by
  induction items generalizing i with
  | nil => exact .plain trivial
  | cons first rest ih =>
    cases i with
    | zero => exact first
    | succ i => exact ih i

theorem at?_alike (left : Alike m a a') (right : Alike m b b') : ResultsAlike m (at? a b) (at? a' b') := by
  unfold at?
  split
  · rename_i items i
    obtain ⟨items', rfl, alike⟩ := left.of_array
    rw [right.eq_of_plain trivial]
    refine .ok ?_
    split
    · exact getD_alike alike i.toNat
    · exact .plain trivial
  · rename_i notItem
    split
    · obtain ⟨items, rfl⟩ := left.of_array_right
      exact (notItem items _ rfl (right.eq_of_plain_right trivial)).elim
    · rw [left.kind_eq, right.kind_eq]
      exact .error _

end Value

end TreeWalk
