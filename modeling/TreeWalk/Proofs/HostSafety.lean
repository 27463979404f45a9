import TreeWalk.Proofs.Ownership
import TreeWalk.Proofs.Printing

/-! What a host can bring about, and that no fault comes of it.

A host adds scopes, runs parsed sources in any scope there is, applies values it has got to values it has
got, and looks up and binds names. It can make plain values, arrays, signals and errors of its own, but
functions only by running a source. Whatever it does, in whatever order and with whatever bounds on the
depth, the world stays sound, and a run ends with a value: a fault is never met. -/
namespace TreeWalk

/-- The worlds that a host can get to, with the values that it has got on the way. -/
inductive Reachable : World → List Value → Prop where
  | start (input : String) : Reachable (.start input) []
  /-- A scope by itself. -/
  | root (before : Reachable world held) : Reachable (world.addScope (.empty none)).2 held
  /-- A scope inside another. -/
  | child (before : Reachable world held) (there : outer < world.scopes.size) :
      Reachable (world.addScope (.empty (some outer))).2 held
  /-- A parsed source, run in any scope: also in one that a call has made. -/
  | run (before : Reachable world held) (parsed : parse source = .ok tree) (there : scope < world.scopes.size)
      (depth : Nat) (what : String) :
      Reachable (evaluateTo depth (.ofTree tree) what scope world).2
        ((evaluateTo depth (.ofTree tree) what scope world).1.toOption.toList ++ held)
  | apply (before : Reachable world held) (callable : callee ∈ held) (passed : ∀ arg ∈ args, arg ∈ held)
      (depth : Nat) :
      Reachable (outcome ((Request.apply callee args).perform depth world)).2
        ((outcome ((Request.apply callee args).perform depth world)).1.toOption.toList ++ held)
  | get (before : Reachable world held) (found : world.find? name scope = some value) :
      Reachable world (value :: held)
  | set (before : Reachable world held) (given : value ∈ held) (scope : Nat) (name : String) :
      Reachable (world.bind scope name value) held
  | log (before : Reachable world held) (note : Note) : Reachable (world.log note) held
  | plain (before : Reachable world held) (plain : value.Plain) : Reachable world (value :: held)
  | array (before : Reachable world held) (given : ∀ item ∈ items, item ∈ held) :
      Reachable world (.array items :: held)
  | item (before : Reachable world held) (whole : .array items ∈ held) (member : value ∈ items) :
      Reachable world (value :: held)
  | signal (before : Reachable world held) (given : value ∈ held) :
      Reachable world.takeSerial.2 (.signal world.nextSerial value :: held)
  | error (before : Reachable world held) (failure : Failure) :
      Reachable world.takeSerial.2 (.error world.nextSerial failure :: held)

/-- A sound world that owns all that its host has got. -/
structure World.Healthy (world : World) (held : List Value) : Prop where
  sound : world.Sound
  owns : ∀ value ∈ held, world.Owns value

namespace World.Healthy

/-- A world that stores the same in scopes with the same outer scopes is as good, with all that was got. -/
theorem grow (healthy : Healthy before held) (grows : before.Grows after)
    (stored : ∀ value, after.Stores value → before.Owns value) (outers : after.OutersOlder) :
    Healthy after held :=
  ⟨⟨fun value inside => (stored value inside).later grows, outers⟩,
    fun value member => (healthy.owns value member).later grows⟩

theorem cons (healthy : Healthy world held) (owns : world.Owns value) : Healthy world (value :: held) :=
  ⟨healthy.sound, List.forall_mem_cons.mpr ⟨owns, healthy.owns⟩⟩

/-- A run that ends with a value that the world owns. -/
theorem report {report : Except Fault Value × World} (healthy : Healthy before held)
    (ended : ∃ value after, report = (.ok value, after) ∧ before.Grows after ∧ after.Sound ∧ after.Owns value) :
    Healthy report.2 (report.1.toOption.toList ++ held) := by
  obtain ⟨value, after, rfl, grows, sound, owns⟩ := ended
  exact ⟨sound, List.forall_mem_cons.mpr ⟨owns, fun other member => (healthy.owns other member).later grows⟩⟩

theorem addScope (healthy : Healthy world held) (around : Option Nat)
    (there : ∀ outer, around = some outer → outer < world.scopes.size) :
    Healthy (world.addScope (.empty around)).2 held := by
  refine healthy.grow ⟨by simp [World.addScope], Nat.le_refl _⟩ (fun value inside => ?_)
    (healthy.sound.outers.addScope _ there)
  rcases World.stores_of_addScope inside with ⟨binding, member, _⟩ | old
  · cases member
  · exact healthy.sound.stored value old

theorem takeSerial (healthy : Healthy world held) : Healthy world.takeSerial.2 held :=
  healthy.grow ⟨Nat.le_refl _, Nat.le_succ _⟩ healthy.sound.stored healthy.sound.outers

/-- A host may apply what it has got to what it has got. -/
theorem owned (healthy : Healthy world held) (callable : callee ∈ held) (passed : ∀ arg ∈ args, arg ∈ held) :
    (Request.apply callee args).Owned world :=
  ⟨healthy.owns _ callable, fun arg member => healthy.owns arg (passed arg member)⟩

end World.Healthy

/-- A parsed source may be run in any scope that there is. -/
theorem owned_of_parsed {world : World} (parsed : parse source = .ok tree) (there : scope < world.scopes.size) :
    (Request.eval (.ofTree tree) scope).Owned world :=
  ⟨(Code.Parsed.program (wellFormed_of_derive automaton_belongs parsed)).faultless, there⟩

/-- All that a host can do keeps a world healthy. -/
theorem Reachable.healthy (reachable : Reachable world held) : world.Healthy held := by
  induction reachable with
  | start input =>
    refine ⟨⟨?_, ?_⟩, List.forall_mem_nil _⟩
    · rintro value ⟨scope, member, _⟩
      simp [World.start] at member
    · intro i scope outer present
      simp [World.start] at present
  | root _ ih => exact ih.addScope none fun _ same => by cases same
  | child _ there ih => exact ih.addScope _ fun _ same => by cases same; exact there
  | run _ parsed there depth what ih =>
    exact ih.report ((Request.perform_settled depth ih.sound (owned_of_parsed parsed there)).evaluateTo what)
  | apply _ callable passed depth ih =>
    exact ih.report (Request.perform_settled depth ih.sound (ih.owned callable passed)).outcome
  | get _ found ih => exact ih.cons (ih.sound.stored _ (World.stores_of_find? found))
  | @set world held value _ given scope name ih =>
    have serials := (world.bind_precedes scope name value).serials
    refine ih.grow ⟨Nat.le_of_eq (World.bind_size ..).symm, serials⟩ (fun other inside => ?_)
      (ih.sound.outers.bind scope name value)
    rcases World.stores_of_bind inside with rfl | old
    · exact ih.owns _ given
    · exact ih.sound.stored other old
  | log _ note ih =>
    exact ih.grow ⟨Nat.le_refl _, Nat.le_refl _⟩ ih.sound.stored ih.sound.outers
  | plain _ plain ih => exact ih.cons (.plain plain)
  | array _ given ih => exact ih.cons (.array fun item member => ih.owns item (given item member))
  | item _ whole member ih => exact ih.cons (Value.Built.array_iff.mp (ih.owns _ whole) _ member)
  | signal _ given ih =>
    exact ih.takeSerial.cons (.signal (Nat.lt_succ_self _) (ih.takeSerial.owns _ given))
  | error _ failure ih => exact ih.takeSerial.cons (.error (Nat.lt_succ_self _))

/-- Names are looked up along the whole chain of outer scopes, since each of them is older. -/
theorem World.OutersOlder.find?_eq (older : OutersOlder world) (present : world.scopes[scope]? = some own)
    (unbound : own.get? name = none) : world.find? name scope = own.outer.bind (world.find? name) := by
  rw [World.find?, present]
  simp only [unbound]
  cases isOuter : own.outer with
  | none => rfl
  | some outer => simp [older scope own outer present isOuter]

/-- In every world that a host can get to, running a parsed source in any scope gives a value, and so does
applying what the host has got, however deep a run may go. All functions that are stored there or that the
host has got have distinct parameters, a well-formed body and a scope that there is; all outer scopes are
older, so that names are looked up along the whole chain. -/
theorem parsed_programs_never_fault (reachable : Reachable world held) :
    (∀ source tree scope depth what, parse source = .ok tree → scope < world.scopes.size →
      ∃ value, (evaluateTo depth (.ofTree tree) what scope world).1 = .ok value) ∧
    (∀ callee args depth, callee ∈ held → (∀ arg ∈ args, arg ∈ held) →
      ∃ value, (outcome ((Request.apply callee args).perform depth world)).1 = .ok value) ∧
    (∀ value, world.Stores value ∨ value ∈ held → world.Owns value) ∧
    (∀ (i : Nat) (scope : Scope) (outer : Nat),
      world.scopes[i]? = some scope → scope.outer = some outer → outer < i) ∧
    ∀ (i : Nat) (scope : Scope) (name : String), world.scopes[i]? = some scope → scope.get? name = none →
      world.find? name i = scope.outer.bind (world.find? name) := by
  have healthy := reachable.healthy
  refine ⟨?_, ?_, ?_, healthy.sound.outers, fun _ _ _ => healthy.sound.outers.find?_eq⟩
  · intro source tree scope depth what parsed there
    have settled := Request.perform_settled depth healthy.sound (owned_of_parsed parsed there)
    obtain ⟨value, after, ended, _⟩ := settled.evaluateTo what
    exact ⟨value, congrArg Prod.fst ended⟩
  · intro callee args depth callable passed
    have settled := Request.perform_settled depth healthy.sound (healthy.owned callable passed)
    obtain ⟨value, after, ended, _⟩ := settled.outcome
    exact ⟨value, congrArg Prod.fst ended⟩
  · rintro value (stored | member)
    · exact healthy.sound.stored value stored
    · exact healthy.owns value member

/-- A source declares a function, and the host looks it up and applies it. -/
theorem parsed_programs_never_fault_of_declared_function :
    let name : String → Tree := .leaf (.terminal .identifier)
    let literal : Tree := .node .function [.node .params [name "n"], .node .block [.node .returning [name "n"]]]
    let tree : Tree := .node .program [.node .declaration [name "f", literal]]
    let before : World := ((World.start "").addScope (.empty none)).2
    let after : World := (evaluateTo 10 (.ofTree tree) "program" 0 before).2
    let f : Value := .function 0 ["n"] [.giveBack (.ident "n")] 0
    parse tree.print = .ok tree ∧ Reachable after [.int 5, f, .null] ∧
      ∃ value, (outcome ((Request.apply f [.int 5]).perform 10 after)).1 = .ok value := by
  intro name literal tree before after f
  have isName : ∀ c, Lexeme.startsWord c = true →
      Tree.IsName Terminal.Spells (name (String.ofList [c])) := fun c starts =>
    .mk (Lexeme.spells_letter starts)
  have isLiteral : Tree.IsExpression Terminal.Spells literal := by
    refine .function (List.forall_mem_singleton.mpr (isName 'n' rfl)) (.block ?_)
    refine List.forall_mem_singleton.mpr (.returning (.atom ?_))
    exact ⟨.identifier, by decide, _, Lexeme.spells_letter (c := 'n') rfl, rfl⟩
  have wellFormed : tree.WellFormed :=
    ⟨_, List.forall_mem_singleton.mpr (.declaration (isName 'f' rfl) isLiteral), rfl⟩
  have parsed : parse tree.print = .ok tree := derive_print automaton_belongs wellFormed
  have ran : Reachable after [.null] := .run (.root (.start "")) parsed (by decide) 10 "program"
  have found : after.find? "f" 0 = some f := by
    rw [World.find?]
    rfl
  have reachable : Reachable after [.int 5, f, .null] := .plain (.get ran found) trivial
  exact ⟨parsed, reachable, (parsed_programs_never_fault reachable).2.1 f [.int 5] 10 (by simp) (by simp)⟩

end TreeWalk
