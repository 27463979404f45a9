import TreeWalk.Proofs.Succession
import Mathlib.Data.List.Infix

/-! What a run cannot undo.

A run adds to what has been printed, takes from what is left to read, and uses up identities. It does
none of this backwards, whatever it does and however it ends. -/
namespace TreeWalk

/-- A later world has printed all that an earlier one has, has no more left to read, and has used up the
same identities at least. -/
structure World.Precedes (before after : World) : Prop where
  printed : ∃ text, after.output = before.output ++ text
  unread : after.input <:+ before.input
  serials : before.nextSerial ≤ after.nextSerial

namespace World.Precedes

theorem refl (world : World) : world.Precedes world :=
  ⟨⟨"", by simp⟩, List.suffix_refl _, Nat.le_refl _⟩

theorem trans (first : Precedes before middle) (second : Precedes middle after) :
    Precedes before after := by
  obtain ⟨text, printed⟩ := first.printed
  obtain ⟨more, printedMore⟩ := second.printed
  refine ⟨⟨text ++ more, ?_⟩, second.unread.trans first.unread, first.serials.trans second.serials⟩
  rw [printedMore, printed, String.append_assoc]

/-- Scopes and the log do not matter here. -/
theorem of_eq (output : after.output = before.output) (input : after.input = before.input)
    (serials : after.nextSerial = before.nextSerial) : Precedes before after :=
  ⟨⟨"", by simp [output]⟩, by rw [input], by rw [serials]⟩

end World.Precedes

theorem World.bind_precedes (world : World) (scope : Nat) (name : String) (value : Value) :
    world.Precedes (world.bind scope name value) := by
  unfold World.bind
  split
  · exact .of_eq rfl rfl rfl
  · exact .refl world

theorem World.readLine_precedes (world : World) : world.Precedes world.readLine.2 := by
  refine ⟨⟨"", by simp [readLine]⟩, ?_, Nat.le_refl _⟩
  have rest : world.readLine.2.input = (world.input.dropWhile (· ≠ '\n')).drop 1 := rfl
  rw [rest]
  exact (List.drop_suffix _ _).trans (List.dropWhile_suffix _)

theorem World.takeSerial_precedes (world : World) : world.Precedes world.takeSerial.2 :=
  ⟨⟨"", by simp [takeSerial]⟩, List.suffix_refl _, Nat.le_succ _⟩

theorem Action.perform_precedes (action : Action) (world : World) :
    world.Precedes (action.perform world).2 := by
  cases action with
  | takeSerial => exact world.takeSerial_precedes
  | addScope scope => exact .of_eq rfl rfl rfl
  | bind scope name value => exact world.bind_precedes scope name value
  | find name scope => exact .refl world
  | print text =>
    exact ⟨⟨text ++ "\n", by simp [perform, World.print, String.append_assoc]⟩, List.suffix_refl _,
      Nat.le_refl _⟩
  | readLine => exact world.readLine_precedes
  | log note => exact .of_eq rfl rfl rfl

/-- What comes later undoes nothing. -/
theorem World.Later.precedes {before after : World} (later : before.Later after) : before.Precedes after := by
  induction later with
  | refl => exact .refl before
  | act _ action ih => exact ih.trans (action.perform_precedes _)

theorem Request.perform_precedes (depth : Nat) (request : Request) (world : World) :
    world.Precedes (request.perform depth world).2 :=
  (request.perform_later depth world).precedes

theorem outcome_precedes (ending : Ending Value) : ending.2.Precedes (outcome ending).2 :=
  (outcome_later ending).precedes

/-- How the end of an evaluation is reported undoes nothing. -/
theorem evaluateTo_precedes (depth : Nat) (code : Code) (what : String) (scope : Nat) (world : World) :
    ((Request.eval code scope).perform depth world).2.Precedes
      (evaluateTo depth code what scope world).2 :=
  (evaluateTo_later depth code what scope world).precedes

end TreeWalk
