import TreeWalk.Prompt

/-! The command line.

The arguments say what to run and whether to run it or to show its tree. The program is read from the
input, from a file, or is the argument itself.

The host starts with a limit on its stack, and the limit is raised once the program has been read: a text
that nests too deep for the first limit ends the program with a trace, and so does a path that leads to
something other than a text. Of the host it is assumed that it has room to show a result. -/
namespace TreeWalk

/-- What the arguments ask for. -/
structure Invocation where
  showTree : Bool
  /-- A file with another set of rules; the language has only one, so it is not looked at. -/
  grammar : Option String
  /-- The program, or where to find it. -/
  source : Option String
  deriving DecidableEq, Repr

namespace Invocation

/-- Reads the arguments after those that an invocation already knows. -/
def readOn (known : Invocation) : List String → Except String Invocation
  | [] => .ok known
  | "--ast" :: rest => readOn { known with showTree := true } rest
  | ["--grammar"] => .error "--grammar flag requires a path"
  | "--grammar" :: path :: rest => readOn { known with grammar := some path } rest
  | arg :: rest =>
    if "--grammar=".toList.isPrefixOf arg.toList then
      readOn { known with grammar := some (String.ofList (arg.toList.drop "--grammar=".length)) } rest
    else if known.source.isSome then .error ("Unexpected argument: " ++ arg)
    else readOn { known with source := some arg } rest

/-- Reads the arguments. -/
def read (args : List String) : Except String Invocation := readOn ⟨false, none, none⟩ args

end Invocation

/-- How the program ends: with a status, or with a message about how it was called. -/
inductive Exit where
  | status (code : Nat)
  | refused (message : String)
  deriving DecidableEq, Repr

/-- What the surroundings offer to a program that starts. -/
structure Host where
  console : Console
  settings : Settings
  find : String → Found
  input : String
  /-- Whether someone sits at the input; then `entries` is what they enter. -/
  interactive : Bool
  entries : List Entry
  /-- The limit on frames that is in force at the start. -/
  limit : Nat := usualLimit

namespace Host

/-- How deep programs may nest while they run, once the limit has been raised. -/
def depth (host : Host) : Nat := host.settings.limitFrom host.limit / framesPerNode

/-- The frames that a level takes while the tree of a program is brought into its final form (`Prune`). -/
def framesPerLevel : Nat := 2

/-- Whether there is room to read a program before the limit is raised. -/
def hasRoom (host : Host) (source : String) : Bool :=
  match parse source with
  | .ok tree => tree.levelsRead ≤ host.limit / framesPerLevel
  | .error _ => true

/-- The end of a program for which something went wrong that nothing takes care of. -/
def giveUp (host : Host) (mishap : Mishap) : Exit × Reply :=
  (.status 1, ⟨"", host.console.trace.text mishap⟩)

/-- The program to run and the input that is left for it (`_load_source`), or how the program ends. -/
def source (host : Host) : Option String → Except (Exit × Reply) (String × String)
  | none => fromInput
  | some arg =>
    if arg = "-" then fromInput
    else
      match host.find arg with
      | .file text => .ok (String.ofList (Text.uniformLines text.toList), host.input)
      | .missing | .blocked => .ok (arg, host.input)
      | found => .error (host.giveUp (.unreadable found))
where
  fromInput : Except (Exit × Reply) (String × String) :=
    if host.input = "" then .error (.refused "No input provided on stdin", .silent) else .ok (host.input, "")

/-- How trouble is reported. -/
def report (host : Host) (trouble : Trouble) : Reply :=
  .warn ("Error: " ++ trouble.text) ++
    if host.settings.tracebacks then ⟨"", host.console.trace.text (.trouble trouble)⟩ else .silent

/-- Shows the tree of a program (`pretty_inline`). -/
def showTree (host : Host) (source : String) : Exit × Reply :=
  match parse source with
  | .ok tree => (.status 0, .say ("\n".intercalate tree.outline))
  | .error error =>
    let log := if host.console.showNotes then (Note.parseFailed error).line ++ "\n" else ""
    (.status 1, ⟨"", log⟩ ++ host.report (.unparsed error))

/-- Runs a program and shows its result: errors go to the error output, null is not shown. This is what `main`
does once it has the text. -/
def runProgram (host : Host) (source input : String) : Exit × Reply :=
  let session := Session.fresh input.toList host.settings.tracebacks host.depth
  let (result, world) := runTo session.depth source session.scope session.world
  let (reply, _) := world.drain host.console.showNotes
  match result with
  | .error trouble => (.status 1, reply ++ host.report trouble)
  | .ok (.error serial failure) => (.status 1, reply ++ .warn (Value.error serial failure).render)
  | .ok .null => (.status 0, reply)
  | .ok value => (.status 0, reply ++ .say value.render)

/-- Holds the interactive loop, for which the limit is raised first. -/
def converse (host : Host) : List Reply × Session :=
  let session := Session.fresh host.input.toList host.settings.tracebacks host.depth
  let (replies, session) := session.converse host.console host.find host.entries
  (Session.banner :: replies, session)

/-- Does what the arguments say (`main`). -/
def execute (host : Host) (args : List String) : Exit × Reply :=
  match Invocation.read args with
  | .error message => (.refused message, .silent)
  | .ok invocation =>
    if invocation.source.isNone && host.interactive then
      (.status 0, host.converse.1.foldl (· ++ ·) .silent)
    else
      match host.source invocation.source with
      | .error ended => ended
      | .ok (source, input) =>
        if !host.hasRoom source then host.giveUp .noRoom
        else if invocation.showTree then host.showTree source
        else host.runProgram source input

end Host

end TreeWalk
