import TreeWalk.Proofs.HostSafety
import TreeWalk.Proofs.Relocation
import TreeWalk.Proofs.WriteFrame

/-! Applications can be repeated.

An application leaves every scope alone that was there, so a later application of the same value to the
same arguments finds them as the first one did, whatever was applied in between. All that has changed is
which identities and scopes are next. Functions therefore have no hidden state: the second application
prints the same, gives the same and leaves the same in its scopes, up to a renaming of what was made on the
way. -/
namespace TreeWalk

open Value (Alike)

/-- An application, with a bound on its depth. -/
structure Application where
  depth : Nat
  callee : Value
  args : List Value

namespace Application

/-- How an application ends. -/
def ending (application : Application) (world : World) : Ending Value :=
  (Request.apply application.callee application.args).perform application.depth world

/-- How an application ends, as its caller sees it. -/
def report (application : Application) (world : World) : Except Fault Value × World :=
  outcome (application.ending world)

/-- The world after applications, one after the other. -/
def runAll (applications : List Application) (world : World) : World :=
  applications.foldl (fun world application => (application.report world).2) world

/-- An application writes to no scope that was there. -/
theorem report_preserved (application : Application) (kept : Preserved (fun _ => False) before world) :
    Preserved (fun _ => False) before (application.report world).2 := by
  have ran := Request.run_keeps (writeFrame (fun _ => False) before) application.depth
    (.apply application.callee application.args) kept ⟨trivial, fun _ _ => trivial⟩
  exact outcome_keeps (writeFrame _ before) ran.1.world

theorem report_precedes (application : Application) (world : World) :
    world.Precedes (application.report world).2 :=
  (Request.perform_precedes ..).trans (outcome_precedes _)

/-- Nor do any number of applications, and they undo nothing. -/
theorem runAll_preserved (applications : List Application) (kept : Preserved (fun _ => False) before world)
    (precedes : before.Precedes world) :
    Preserved (fun _ => False) before (runAll applications world) ∧
      before.Precedes (runAll applications world) := by
  induction applications generalizing world with
  | nil => exact ⟨kept, precedes⟩
  | cons application rest ih =>
    exact ih (application.report_preserved kept) (precedes.trans (application.report_precedes world))

end Application

/-- What a world owns stays where it is. -/
theorem World.Owns.alike {first second : World} (owns : first.Owns value) :
    Alike (movedBetween first second) value value :=
  Value.Built.alike owns (fun _ below => (shift_of_lt below).symm)
    fun _ _ _ formed => ⟨trivial, (shift_of_lt formed.2.2).symm⟩

/-- A scope that was there before is the same scope later. -/
theorem World.Sound.scopesAlike {first second : World} {i : Nat} (sound : first.Sound)
    (present : first.scopes[i]? = some own) : (movedBetween first second).ScopesAlike own own := by
  have inBounds := (Array.getElem?_eq_some_iff.mp present).1
  constructor
  · cases isOuter : own.outer with
    | none => exact .none
    | some outer =>
      have older := sound.outers i own outer present isOuter
      exact .some (shift_of_lt (older.trans inBounds)).symm
  · refine List.forall₂_same.mpr fun binding member => ⟨rfl, trivial, ?_⟩
    exact (sound.stored _ ⟨own, Array.mem_of_getElem? present, binding, member, rfl⟩).alike

/-- A sound world corresponds to any later one in which its scopes are as they were. -/
theorem World.Sound.relocated {first second : World} (sound : first.Sound)
    (preserved : Preserved (fun _ => False) first second) (precedes : first.Precedes second) :
    Relocated first second first second where
  scopesFrom := Nat.le_refl _
  sizes := (shift_limit preserved.grown).symm
  serialsFrom := Nat.le_refl _
  serials := (shift_limit precedes.serials).symm
  scopes i := by
    rcases Nat.lt_or_ge i first.scopes.size with old | new
    · have same : (moved first second).scope i = i := shift_of_lt old
      rw [same, preserved.unchanged i old id]
      cases present : first.scopes[i]? with
      | none => exact .none
      | some own => exact .some (sound.scopesAlike present)
    · have grown := preserved.grown
      have beyond : (moved first second).scope i = i + (second.scopes.size - first.scopes.size) :=
        shift_of_le new
      rw [Array.getElem?_eq_none new, Array.getElem?_eq_none (by omega)]
      exact .none
  printed := ⟨"", by simp, by simp⟩
  unread := ⟨rfl, rfl⟩
  exhausted empty := List.suffix_nil.mp (empty ▸ precedes.unread)

/-- Nothing that was there in a world gets another number, and different things keep different ones. -/
structure Renaming.LeavesOld (renames : Renaming) (world : World) : Prop where
  serials : renames.serial.Injective
  scopes : renames.scope.Injective
  oldSerials : ∀ serial < world.nextSerial, renames.serial serial = serial
  oldScopes : ∀ scope < world.scopes.size, renames.scope scope = scope

theorem moved_leavesOld (first second : World) : (moved first second).LeavesOld first :=
  ⟨fun _ _ => shift_inj.mp, fun _ _ => shift_inj.mp, fun _ => shift_of_lt, fun _ => shift_of_lt⟩

/-- A second report, from another world, says the same as the first: there is a value, of the same kind
and shown in the same way, that is the first one renamed; every scope that is left is the first one renamed,
with all that a function in it or around it has captured; the same text was printed; and nothing was read. -/
structure Repeats (renames : Renaming) (world between : World) (first second : Except Fault Value × World) :
    Prop where
  result : ∃ value, first.1 = .ok value ∧ second.1 = .ok (value.rename renames) ∧
    (value.rename renames).kind = value.kind ∧ (value.rename renames).render = value.render
  scopes : ∀ scope, second.2.scopes[renames.scope scope]? =
    (first.2.scopes[scope]?).map (Scope.rename renames)
  printed : ∃ text, first.2.output = world.output ++ text ∧ second.2.output = between.output ++ text
  unread : second.2.input = between.input

/-- Worlds and values that correspond are reported alike. -/
theorem repeats_of_alike (values : Alike (movedBetween world between) value value')
    (worlds : Relocated world between w w') :
    Repeats (moved world between) world between (.ok value, w) (.ok value', w') := by
  have same : value' = value.rename (moved world between) :=
    Alike.eq_rename (m := movedBetween world between) id id values
  refine ⟨⟨value, rfl, congrArg _ same, ?_, ?_⟩, worlds.scopes_eq, worlds.printed, worlds.unread.2⟩
  · rw [← same, values.kind_eq]
  · rw [← same, values.render_eq]

/-- Two runs that correspond all the way look the same to their callers. -/
theorem repeats_of_endsAlike (alike : (relocation world between).EndsAlike
      (Alike (relocation world between).toMatching) ending ending')
    (finished : ending.1 ≠ .error .tooDeep) (faultless : ∀ fault, ending.1 ≠ .error (.malformed fault)) :
    ending'.1 ≠ .error .tooDeep ∧
      Repeats (moved world between) world between (outcome ending) (outcome ending') := by
  cases alike with
  | ok values worlds => exact ⟨nofun, repeats_of_alike values worlds⟩
  | failed serials worlds => exact ⟨nofun, repeats_of_alike (.error serials) worlds⟩
  | malformed => exact absurd rfl (faultless _)
  | tooDeep => exact absurd rfl finished

/-- In every world that a host can get to, an application of what the host has got that takes no input and
does not go too deep can be repeated, at once or after any number of other applications. It does not go
too deep then either, takes no input, prints the same text, and gives a value of the same kind that is
shown in the same way and is the first one up to a renaming of what was made on the way. What the scopes bind,
also those that a function which is given has captured, is the same up to that renaming. -/
theorem applications_repeat (reachable : Reachable world held) (application : Application)
    (callable : application.callee ∈ held) (passed : ∀ arg ∈ application.args, arg ∈ held)
    (finished : (application.ending world).1 ≠ .error .tooDeep)
    (unread : (application.report world).2.input = world.input) (others : List Application) :
    let between := Application.runAll others (application.report world).2
    (application.ending between).1 ≠ .error .tooDeep ∧
      ∃ renames : Renaming, renames.LeavesOld world ∧
        Repeats renames world between (application.report world) (application.report between) := by
  intro between
  have healthy := reachable.healthy
  have settled := Request.perform_settled application.depth healthy.sound (healthy.owned callable passed)
  obtain ⟨preserved, precedes⟩ : Preserved (fun _ => False) world between ∧ world.Precedes between :=
    Application.runAll_preserved others (application.report_preserved (.refl _ world))
      (application.report_precedes world)
  have worlds : (relocation world between).world world between := healthy.sound.relocated preserved precedes
  have follows := Request.perform_parallel application.depth
    (.apply (healthy.owns _ callable).alike
      (List.forall₂_same.mpr fun arg member => (healthy.owns arg (passed arg member)).alike)) worlds
  rcases follows with lost | alike
  · have shorter := (outcome_precedes (application.ending world)).unread.length_le
    have taken : (application.ending world).2.input.length < world.input.length := lost
    have kept := congrArg List.length unread
    rw [Application.report] at kept
    omega
  · obtain ⟨finishedAgain, repeats⟩ := repeats_of_endsAlike alike finished settled.faultless
    exact ⟨finishedAgain, moved world between, moved_leavesOld world between, repeats⟩

/-- A function that makes another function, applied twice to the same argument and once to another in
between: the two functions that are made have different identities and scopes. -/
theorem applications_repeat_of_maker :
    let name : String → Tree := .leaf (.terminal .identifier)
    let inner : Tree := .node .function [.node .params [], .node .block [.node .returning [name "n"]]]
    let maker : Tree := .node .function [.node .params [name "n"], .node .block [.node .returning [inner]]]
    let tree : Tree := .node .program [.node .declaration [name "f", maker]]
    let before : World := ((World.start "").addScope (.empty none)).2
    let after : World := (evaluateTo 10 (.ofTree tree) "program" 0 before).2
    let f : Value := .function 0 ["n"] [.giveBack (.function [] [.giveBack (.ident "n")])] 0
    let between : World := Application.runAll [⟨10, f, [.int 7]⟩] (Application.report ⟨10, f, [.int 5]⟩ after).2
    (Application.report ⟨10, f, [.int 5]⟩ after).1 = .ok (.function 1 [] [.giveBack (.ident "n")] 1) ∧
    (Application.report ⟨10, f, [.int 5]⟩ between).1 = .ok (.function 5 [] [.giveBack (.ident "n")] 3) ∧
      ∃ renames : Renaming, renames.LeavesOld after ∧ Repeats renames after between
        (Application.report ⟨10, f, [.int 5]⟩ after) (Application.report ⟨10, f, [.int 5]⟩ between) := by
  intro name inner maker tree before after f between
  have isName : ∀ c, Lexeme.startsWord c = true →
      Tree.IsName Terminal.Spells (name (String.ofList [c])) := fun c starts =>
    .mk (Lexeme.spells_letter starts)
  have isInner : Tree.IsExpression Terminal.Spells inner := by
    refine .function (List.forall_mem_nil _) (.block (List.forall_mem_singleton.mpr (.returning (.atom ?_))))
    exact ⟨.identifier, by decide, _, Lexeme.spells_letter (c := 'n') rfl, rfl⟩
  have isMaker : Tree.IsExpression Terminal.Spells maker :=
    .function (List.forall_mem_singleton.mpr (isName 'n' rfl))
      (.block (List.forall_mem_singleton.mpr (.returning isInner)))
  have wellFormed : tree.WellFormed :=
    ⟨_, List.forall_mem_singleton.mpr (.declaration (isName 'f' rfl) isMaker), rfl⟩
  have parsed : parse tree.print = .ok tree := derive_print automaton_belongs wellFormed
  have ran : Reachable after [.null] := .run (.root (.start "")) parsed (by decide) 10 "program"
  have found : after.find? "f" 0 = some f := by
    rw [World.find?]
    rfl
  have reachable : Reachable after [.int 5, f, .null] := .plain (.get ran found) trivial
  have finished : (Application.ending ⟨10, f, [.int 5]⟩ after).1 ≠ .error .tooDeep := by
    intro stopped
    cases stopped
  have repeats := applications_repeat reachable ⟨10, f, [.int 5]⟩ (by simp) (by simp) finished rfl
    [⟨10, f, [.int 7]⟩]
  exact ⟨rfl, rfl, repeats.2⟩

end TreeWalk
