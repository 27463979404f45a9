import TreeWalk.Files
import TreeWalk.Program
import TreeWalk.Prompt.Command
import TreeWalk.Settings

/-! The interactive loop.

Each entry is a program, which runs in the scope that all entries share, or a command. What an entry
causes is a reply: a text for the output and one for the error output.

Entries come whole: how a terminal lets them be typed is left to the host, and so is the text of a trace.
Of the host it is assumed that it has room to parse an entry and to show its result, and that it writes
what it is given. -/
namespace TreeWalk

/-- What a trace can be about: a program that has no value, a program too deep to be read, a path that leads
to something other than a text. -/
inductive Mishap where
  | trouble (trouble : Trouble)
  | noRoom
  | unreadable (found : Found)
  deriving DecidableEq, Repr

/-- How the host describes its stack when something went wrong. -/
structure Trace where
  text : Mishap → String

/-- A host that says the same about everything. -/
instance : Coe String Trace := ⟨fun text => ⟨fun _ => text⟩⟩

/-- Texts that the surroundings provide. -/
structure Console where
  /-- Clears the screen. -/
  clear : String
  trace : Trace
  /-- Whether events are logged. -/
  showNotes : Bool

/-- What goes to the output and to the error output. -/
structure Reply where
  out : String
  err : String
  deriving DecidableEq, Repr

namespace Reply

/-- A line for the output. -/
def say (text : String) : Reply := ⟨text ++ "\n", ""⟩

/-- A line for the error output. -/
def warn (text : String) : Reply := ⟨"", text ++ "\n"⟩

/-- Nothing at all. -/
def silent : Reply := ⟨"", ""⟩

/-- One after the other. -/
def append (a b : Reply) : Reply := ⟨a.out ++ b.out, a.err ++ b.err⟩

instance : Append Reply := ⟨append⟩

end Reply

namespace World

/-- The log of a world, one line for each event. -/
def logText (world : World) : String := String.join (world.notes.map fun note => note.line ++ "\n")

/-- What a world has printed and logged, and the world with that taken out. -/
def drain (world : World) (showNotes : Bool) : Reply × World :=
  (⟨world.output, if showNotes then world.logText else ""⟩, { world with output := "", notes := [] })

end World

/-- One thing that happens at the prompt. -/
inductive Entry where
  | text (text : String)
  | interrupt
  | endOfInput
  deriving DecidableEq, Repr

/-- The state of the loop. -/
structure Session where
  world : World
  scope : Nat
  tracebacks : Bool
  /-- How deep programs may nest while they run. -/
  depth : Nat
  deriving Repr

namespace Session

/-- A session that has seen nothing yet. -/
def fresh (input : List Char) (tracebacks : Bool) (depth : Nat) : Session :=
  let (scope, world) := (World.start "").addScope (.empty none)
  ⟨{ world with input }, scope, tracebacks, depth⟩

/-- What is printed before the first prompt. -/
def banner : Reply := .say "kite repl - `exit` or Ctrl-D to quit, / for commands"

/-- The characters that an entry loses: joiners and spaces that cannot be seen, the mark of byte order
and carriage returns. -/
def isInvisible (c : Char) : Bool :=
  [0x200B, 0x200C, 0x200D, 0xFEFF, 0xA0, 0x0D].contains c.toNat

/-- A text without the characters that cannot be seen (`_normalize`). -/
def visible (text : String) : String := String.ofList (text.toList.filter (!isInvisible ·))

/-- How the result of a program is shown: null is not. -/
def echo (console : Console) (tracebacks : Bool) : Except Trouble Value → Reply
  | .ok .null => .silent
  | .ok value => .say value.render
  | .error trouble =>
    .warn ("Error: " ++ trouble.text) ++
      if tracebacks then ⟨"", "\nPython traceback:\n" ++ console.trace.text (.trouble trouble)⟩ else .silent

/-- Takes out what the world has to show. -/
def drain (session : Session) (console : Console) : Reply × Session :=
  let (reply, world) := session.world.drain console.showNotes
  (reply, { session with world })

/-- Runs a program and shows its result (`_eval_and_echo`). -/
def runSource (console : Console) (session : Session) (source : String) : Reply × Session :=
  let (result, world) := runTo session.depth source session.scope session.world
  let (reply, session) := { session with world }.drain console
  (reply ++ echo console session.tracebacks result, session)

/-- Turns tracebacks on or off (`set_debug_py_trace`), or the other way round. -/
def switchTracebacks (session : Session) (arg : String) : Reply × Session :=
  match if arg = "" then some (!session.tracebacks) else readSwitch arg with
  | none => (.warn Command.traceback.usage, session)
  | some on =>
    (.say ("Python traceback: " ++ if on then "on" else "off"), { session with tracebacks := on })

/-- Runs the program in a file: `_handle_slash` on `/load`. -/
def load (console : Console) (find : String → Found) (session : Session) (path : String) :
    Reply × Session :=
  match (find path).read with
  | .error reason =>
    (.warn ("Error: cannot read " ++ Path.normal path ++ ": " ++ reason), session)
  | .ok source =>
    let world := session.world.log (.loading (Path.normal path))
    runSource console { session with world } source

/-- Goes on in a new scope of its own. What was there before stays in the world, but nothing that is run
from now on has a name for it. -/
def reset (console : Console) (session : Session) : Reply × Session :=
  let (scope, world) := session.world.addScope (.empty none)
  let (reply, session) := { session with world := world.log .environmentReset, scope }.drain console
  (reply ++ .say "Environment reset.", session)

/-- Does what a command says (`_handle_slash`). -/
def obey (console : Console) (find : String → Found) (session : Session) (command : Command)
    (arg : String) : Reply × Session :=
  match command with
  | .clear => (⟨console.clear, ""⟩, session)
  | .traceback => session.switchTracebacks arg
  | .reset => session.reset console
  | .load => if arg = "" then (.warn command.usage, session) else session.load console find arg

/-- What one entry causes, the session after it, and whether it ends the loop: one pass of `repl`. -/
def respond (console : Console) (find : String → Found) (session : Session) :
    Entry → Reply × Session × Bool
  | .endOfInput => (.say "", session, true)
  | .interrupt => (.say "KeyboardInterrupt", session, false)
  | .text text =>
    let text := visible text
    let trimmed := Text.trim text.toList
    if trimmed.isEmpty then (.silent, session, false)
    else if trimmed = "exit".toList then (.silent, session, true)
    else if trimmed.head? = some '/' then
      let (name, arg) := Text.firstWord trimmed
      let name := String.ofList name
      match Command.ofName? name with
      | none => (.warn ("Unknown command: " ++ name), session, false)
      | some command =>
        let (reply, session) := session.obey console find command (String.ofList arg)
        (reply, session, false)
    else
      let (reply, session) := session.runSource console text
      (reply, session, false)

/-- Goes through entries until one of them, or their end, ends the loop (`repl`). -/
def converse (console : Console) (find : String → Found) (session : Session) :
    List Entry → List Reply × Session
  | [] =>
    let (reply, session, _) := session.respond console find .endOfInput
    ([reply], session)
  | entry :: entries =>
    let (reply, session, ended) := session.respond console find entry
    if ended then ([reply], session)
    else
      let (replies, session) := session.converse console find entries
      (reply :: replies, session)

end Session

end TreeWalk
