import TreeWalk.Prompt
import TreeWalk.Proofs.Relocation

/-! A reset forgets everything.

What was there before a reset stays in the world, but no value and no scope that is made afterwards leads
back to it. So the rest of a session corresponds to a session that starts afresh: its scopes and
identities are those of the fresh one, moved past all that was left behind. What is printed, logged and
read shows neither scopes nor identities, and an entry therefore causes the same in both. -/
namespace TreeWalk

open Value (Alike)

/-- A world that holds what another one does, behind things left by a third. -/
structure Detached (left : World) (w w' : World) : Prop extends Displaced (.start "") left w w' where
  input : w'.input = w.input
  output : w'.output = w.output
  notes : w'.notes = w.notes

namespace Detached

variable {left : World}

theorem log (kept : Detached left w w') (note : Note) : Detached left (w.log note) (w'.log note) :=
  ⟨kept.toDisplaced.of_eq rfl rfl rfl rfl, kept.input, kept.output, congrArg (· ++ [note]) kept.notes⟩

theorem takeSerial (kept : Detached left w w') : Detached left w.takeSerial.2 w'.takeSerial.2 :=
  ⟨kept.toDisplaced.takeSerial, kept.input, kept.output, kept.notes⟩

theorem addScope (kept : Detached left w w')
    (alike : (movedBetween (.start "") left).ScopesAlike own own') :
    Detached left (w.addScope own).2 (w'.addScope own').2 :=
  ⟨kept.toDisplaced.addScope alike, kept.input, kept.output, kept.notes⟩

/-- A scope of its own, outside of every other, is where a detached world begins. -/
theorem of_reset (left : World) (input : List Char) :
    Detached left { ((World.start "").addScope (.empty none)).2 with input }
      { (left.addScope (.empty none)).2 with input, output := "", notes := [] } := by
  have bare : Displaced (.start "") left (.start "") left := by
    refine ⟨Nat.le_refl _, (shift_limit (Nat.zero_le _)).symm, Nat.le_refl _,
      (shift_limit (Nat.zero_le _)).symm, fun i => ?_⟩
    have beyond : left.scopes.size ≤ shift 0 left.scopes.size i := by
      rw [shift_of_le (Nat.zero_le i)]
      exact Nat.le_add_left ..
    have noScope : left.scopes[(moved (.start "") left).scope i]? = none := Array.getElem?_eq_none beyond
    rw [noScope]
    exact .none
  exact ⟨(bare.addScope ⟨.none, .nil⟩).of_eq rfl rfl rfl rfl, rfl, rfl, rfl⟩

end Detached

/-- Whatever runs in a world runs alike in a detached one. -/
def detachment (left : World) : Simulation where
  toMatching := movedBetween (.start "") left
  world := Detached left
  lost _ := False
  lost_kept lost _ := lost
  takeSerial_kept kept := .inr ⟨kept.serials, kept.takeSerial⟩
  addScope_kept kept scopes bound := ⟨kept.sizes, kept.addScope ⟨.some scopes, bound⟩⟩
  bind_kept := by
    rintro w w' s _ n v v' kept rfl _ alike
    refine ⟨kept.toDisplaced.bind s n alike, ?_, ?_, ?_⟩
    · rw [World.bind_input, World.bind_input]
      exact kept.input
    · rw [World.bind_output, World.bind_output]
      exact kept.output
    · rw [World.bind_notes, World.bind_notes]
      exact kept.notes
  find_kept := by
    rintro w w' s _ n kept rfl _
    exact kept.find?_alike n s
  print_kept {w w' text} kept := by
    refine ⟨kept.toDisplaced.of_eq rfl rfl rfl rfl, kept.input, ?_, kept.notes⟩
    rw [World.print, World.print, kept.output]
  readLine_kept {w w'} kept := by
    refine .inr ⟨?_, kept.toDisplaced.of_eq rfl rfl rfl rfl, ?_, kept.output, kept.notes⟩
    · rw [World.readLine, World.readLine, kept.input]
    · rw [World.readLine, World.readLine, kept.input]
  log_kept kept := kept.log _

/-- Results that look the same: the same trouble, or values that are alike. -/
inductive ReportsAlike (m : Matching) : Except ε Value → Except ε Value → Prop where
  | ok (alike : Alike m value value') : ReportsAlike m (.ok value) (.ok value')
  | error (trouble : ε) : ReportsAlike m (.error trouble) (.error trouble)

theorem ReportsAlike.mapError {m : Matching} {result result' : Except ε Value}
    (alike : ReportsAlike m result result') (f : ε → δ) :
    ReportsAlike m (result.mapError f) (result'.mapError f) := by
  cases alike with
  | ok alike => exact .ok alike
  | error trouble => exact .error (f trouble)

/-- Reports that look the same, in worlds of which one is detached. -/
def RunsAlike (left : World) (report report' : Except ε Value × World) : Prop :=
  ReportsAlike (movedBetween (.start "") left) report.1 report'.1 ∧ Detached left report.2 report'.2

namespace Detached

variable {left : World}

theorem evaluateTo (kept : Detached left w w') (depth : Nat) (code : Code) (what : String) (scope : Nat) :
    RunsAlike left (evaluateTo depth code what scope w)
      (TreeWalk.evaluateTo depth code what ((moved (.start "") left).scope scope) w') := by
  have requests : Request.Parallel (detachment left).toMatching (.eval code scope)
      (.eval code ((moved (.start "") left).scope scope)) := .eval trivial rfl
  have follows : (detachment left).Follows (Alike _) _ _ := Request.perform_parallel depth requests kept
  unfold TreeWalk.evaluateTo
  generalize (Request.eval code scope).perform depth w = ending at follows
  generalize (Request.eval code ((moved (.start "") left).scope scope)).perform depth w' = ending' at follows
  rcases follows with lost | alike
  · exact lost.elim
  · cases alike with
    | ok given worlds => exact ⟨.ok given.unwrap, worlds⟩
    | failed serials worlds => exact ⟨.ok (.error serials), worlds⟩
    | malformed _ worlds => exact ⟨.error _, worlds⟩
    | tooDeep worlds => exact ⟨.ok (.error worlds.serials), (worlds.log _).takeSerial⟩

theorem runTo (kept : Detached left w w') (depth : Nat) (source : String) (scope : Nat) :
    RunsAlike left (runTo depth source scope w)
      (TreeWalk.runTo depth source ((moved (.start "") left).scope scope) w') := by
  unfold TreeWalk.runTo
  cases parse source with
  | error error => exact ⟨.error _, kept.log _⟩
  | ok tree =>
    obtain ⟨reports, worlds⟩ := kept.evaluateTo depth (.ofTree tree) tree.describe scope
    exact ⟨reports.mapError Trouble.malformed, worlds⟩

end Detached

namespace Session

/-- A session that goes on as another one does, in a world that holds more. -/
structure Mirrors (left : World) (session session' : Session) : Prop where
  world : Detached left session.world session'.world
  scope : session'.scope = (moved (.start "") left).scope session.scope
  tracebacks : session'.tracebacks = session.tracebacks
  depth : session'.depth = session.depth

variable {left : World} {session session' : Session}

/-- The same replies, with sessions that go on alike. -/
def Answers (left : World) (answer answer' : Reply × Session) : Prop :=
  answer.1 = answer'.1 ∧ Mirrors left answer.2 answer'.2

/-- Results that look the same are shown alike. -/
theorem echo_alike {m : Matching} (alike : ReportsAlike m result result') (console : Console)
    (tracebacks : Bool) : echo console tracebacks result = echo console tracebacks result' := by
  cases alike with
  | error trouble => rfl
  | @ok value value' alike =>
    have rendered := alike.render_eq
    cases alike with
    | plain => rfl
    | _ => simp only [echo, rendered]

namespace Mirrors

theorem drain (mirrors : Mirrors left session session') (console : Console) :
    Answers left (session.drain console) (session'.drain console) := by
  obtain ⟨worlds, scopes, tracebacks, depth⟩ := mirrors
  constructor
  · simp only [Session.drain, World.drain, World.logText, worlds.output, worlds.notes]
  · refine ⟨⟨worlds.toDisplaced.of_eq rfl rfl rfl rfl, worlds.input, rfl, rfl⟩, scopes, tracebacks, depth⟩

theorem runSource (mirrors : Mirrors left session session') (console : Console) (source : String) :
    Answers left (session.runSource console source) (session'.runSource console source) := by
  obtain ⟨reports, worlds⟩ := mirrors.world.runTo session.depth source session.scope
  have sameRun : runTo session.depth source ((moved (.start "") left).scope session.scope) session'.world =
      runTo session'.depth source session'.scope session'.world := by rw [mirrors.scope, mirrors.depth]
  rw [sameRun] at reports worlds
  have ran : Mirrors left
      { session with world := (runTo session.depth source session.scope session.world).2 }
      { session' with world := (runTo session'.depth source session'.scope session'.world).2 } :=
    ⟨worlds, mirrors.scope, mirrors.tracebacks, mirrors.depth⟩
  obtain ⟨drained, after⟩ := ran.drain console
  refine ⟨?_, after⟩
  simp only [Session.runSource, drained, after.tracebacks, echo_alike reports]

theorem load (mirrors : Mirrors left session session') (console : Console) (find : String → Found)
    (path : String) :
    Answers left (session.load console find path) (session'.load console find path) := by
  unfold Session.load
  cases (find path).read with
  | error reason => exact ⟨rfl, mirrors⟩
  | ok source =>
    have begun : Mirrors left { session with world := session.world.log (.loading (Path.normal path)) }
        { session' with world := session'.world.log (.loading (Path.normal path)) } :=
      ⟨mirrors.world.log _, mirrors.scope, mirrors.tracebacks, mirrors.depth⟩
    exact begun.runSource console source

theorem switchTracebacks (mirrors : Mirrors left session session') (arg : String) :
    Answers left (session.switchTracebacks arg) (session'.switchTracebacks arg) := by
  unfold Session.switchTracebacks
  rw [mirrors.tracebacks]
  cases if arg = "" then some (!session.tracebacks) else readSwitch arg with
  | none => exact ⟨rfl, mirrors⟩
  | some on => exact ⟨rfl, mirrors.world, mirrors.scope, rfl, mirrors.depth⟩

theorem reset (mirrors : Mirrors left session session') (console : Console) :
    Answers left (session.reset console) (session'.reset console) := by
  have alone : (movedBetween (.start "") left).ScopesAlike (.empty none) (.empty none) := ⟨.none, .nil⟩
  have moved : Mirrors left
      { session with
        world := (session.world.addScope (.empty none)).2.log .environmentReset
        scope := (session.world.addScope (.empty none)).1 }
      { session' with
        world := (session'.world.addScope (.empty none)).2.log .environmentReset
        scope := (session'.world.addScope (.empty none)).1 } :=
    ⟨(mirrors.world.addScope alone).log _, mirrors.world.sizes, mirrors.tracebacks, mirrors.depth⟩
  obtain ⟨drained, after⟩ := moved.drain console
  exact ⟨congrArg (· ++ Reply.say "Environment reset.") drained, after⟩

theorem obey (mirrors : Mirrors left session session') (console : Console) (find : String → Found)
    (command : Command) (arg : String) :
    Answers left (session.obey console find command arg) (session'.obey console find command arg) := by
  cases command with
  | clear => exact ⟨rfl, mirrors⟩
  | traceback => exact mirrors.switchTracebacks arg
  | reset => exact mirrors.reset console
  | load =>
    simp only [Session.obey]
    split
    · exact ⟨rfl, mirrors⟩
    · exact mirrors.load console find arg

/-- An entry causes the same, ends both loops or neither, and leaves sessions that mirror each other. -/
theorem respond (mirrors : Mirrors left session session') (console : Console) (find : String → Found)
    (entry : Entry) :
    (session.respond console find entry).1 = (session'.respond console find entry).1 ∧
      (session.respond console find entry).2.2 = (session'.respond console find entry).2.2 ∧
      Mirrors left (session.respond console find entry).2.1 (session'.respond console find entry).2.1 := by
  cases entry with
  | endOfInput | interrupt => exact ⟨rfl, rfl, mirrors⟩
  | text text =>
    simp only [Session.respond]
    split
    · exact ⟨rfl, rfl, mirrors⟩
    split
    · exact ⟨rfl, rfl, mirrors⟩
    split
    · cases Command.ofName? _ with
      | none => exact ⟨rfl, rfl, mirrors⟩
      | some command =>
        obtain ⟨replies, after⟩ := mirrors.obey console find command _
        exact ⟨replies, rfl, after⟩
    · obtain ⟨replies, after⟩ := mirrors.runSource console _
      exact ⟨replies, rfl, after⟩

/-- Entries cause the same in sessions that mirror each other, all the way. -/
theorem converse (mirrors : Mirrors left session session') (console : Console) (find : String → Found)
    (entries : List Entry) :
    (session.converse console find entries).1 = (session'.converse console find entries).1 := by
  induction entries generalizing session session' with
  | nil => rfl
  | cons entry entries ih =>
    obtain ⟨replies, ended, after⟩ := mirrors.respond console find entry
    simp only [Session.converse, ended, replies]
    split
    · rfl
    · exact congrArg (_ :: ·) (ih after)

end Mirrors

/-- After a reset a session mirrors one that starts afresh. -/
theorem reset_mirrors (session : Session) (console : Console) :
    Mirrors session.world (fresh session.world.input session.tracebacks session.depth)
      (session.reset console).2 :=
  ⟨.of_reset session.world session.world.input, (shift_limit (Nat.zero_le _)).symm, rfl, rfl⟩

/-- What entries cause, one after the other, and the session after all of them. -/
def respondAll (console : Console) (find : String → Found) (session : Session) :
    List Entry → List Reply × Session
  | [] => ([], session)
  | entry :: entries =>
    let (reply, session, _) := session.respond console find entry
    let (replies, session) := session.respondAll console find entries
    (reply :: replies, session)

end Session

/-- Whether an entry ends the loop: the end of the input does, and so does a bare `exit`. -/
def Entry.ends : Entry → Bool
  | .endOfInput => true
  | .interrupt => false
  | .text entered => Text.trim (Session.visible entered).toList = "exit".toList

namespace Session

theorem respond_ended (console : Console) (find : String → Found) (session : Session) (entry : Entry) :
    (session.respond console find entry).2.2 = entry.ends := by
  cases entry with
  | endOfInput | interrupt => rfl
  | text text =>
    simp only [respond, Entry.ends]
    split
    next empty =>
      rw [List.isEmpty_iff.mp empty]
      rfl
    split
    next isExit => simp [isExit]
    next notExit =>
      rw [decide_eq_false notExit]
      split
      · cases Command.ofName? _ <;> rfl
      · rfl

/-- The loop goes through entries that do not end it, and on from there. -/
theorem converse_append (console : Console) (find : String → Found) (session : Session)
    (goesOn : ∀ entry ∈ before, entry.ends = false) (after : List Entry) :
    (session.converse console find (before ++ after)).1 =
      (session.respondAll console find before).1 ++
        ((session.respondAll console find before).2.converse console find after).1 := by
  induction before generalizing session with
  | nil => rfl
  | cons entry before ih =>
    obtain ⟨first, rest⟩ := List.forall_mem_cons.mp goesOn
    have ended := session.respond_ended console find entry
    rw [first] at ended
    simp only [List.cons_append, converse, respondAll, ended, Bool.false_eq_true, if_false]
    exact congrArg (_ :: ·) (ih _ rest)

theorem respond_reset (console : Console) (find : String → Found) (session : Session) :
    session.respond console find (.text "/reset") =
      ((session.reset console).1, (session.reset console).2, false) := by
  rfl

/-- A reset forgets everything: whatever entries came before it, those after it cause what they cause in a
fresh session with the rest of the input, the same switch for tracebacks and the same limit on the depth. -/
theorem reset_forgets (console : Console) (find : String → Found) (session : Session)
    {before : List Entry} (goesOn : ∀ entry ∈ before, entry.ends = false) (after : List Entry) :
    let (replies, left) := session.respondAll console find before
    (session.converse console find (before ++ .text "/reset" :: after)).1 =
      replies ++ (left.reset console).1 ::
        ((fresh left.world.input left.tracebacks left.depth).converse console find after).1 := by
  generalize left_eq : session.respondAll console find before = responses
  obtain ⟨replies, left⟩ := responses
  rw [converse_append console find session goesOn, left_eq]
  have mirrored := (left.reset_mirrors console).converse console find after
  simp only [converse, respond_reset, Bool.false_eq_true, if_false, mirrored]

/-- An interrupt and an array under the name of a builtin, forgotten before both are used. -/
theorem reset_forgets_shadowed_builtin :
    let console : Console := ⟨"", "", true⟩
    let find : String → Found := fun _ => .missing
    let before : List Entry := [.text "/py-traceback on", .text "length = [1, readline()]", .interrupt]
    let after : List Entry := [.text "length", .text "print(readline())", .text "exit", .interrupt]
    (∀ entry ∈ before, entry.ends = false) ∧
      let (replies, left) := (fresh "a\nb\n".toList false depthLimit).respondAll console find before
      ((fresh "a\nb\n".toList false depthLimit).converse console find (before ++ .text "/reset" :: after)).1 =
        replies ++ (left.reset console).1 ::
          ((fresh left.world.input left.tracebacks left.depth).converse console find after).1 :=
  ⟨by decide, reset_forgets _ _ _ (by decide) _⟩

end Session

end TreeWalk
