import TreeWalk.CommandLine

/-! The program as it is started from a shell.

Everything that has to be decided is decided elsewhere; here arguments, variables, files and the
terminal are read, and replies are written. -/

namespace TreeWalk

/-- Writes a reply. -/
def Reply.write (reply : Reply) : IO Unit := do
  let out ← IO.getStdout
  let err ← IO.getStderr
  out.putStr reply.out
  out.flush
  err.putStr reply.err
  err.flush

/-- What there is under a path. -/
def look (path : String) : IO Found := do
  try
    return .file (← IO.FS.readFile path)
  catch
    | .inappropriateType none .. => return .folder
    | .inappropriateType (some _) .. => return .blocked
    | .invalidArgument .. => return .tooLong
    | _ => return .missing

/-- The variables that settings come from. -/
def settingNames : List String := ["KITE_LOG_LEVEL", "KITE_RECURSION_LIMIT", "KITE_DEBUG_PY_TRACE"]

/-- The settings of the shell. -/
def shellSettings : IO Settings := do
  let values ← settingNames.mapM fun name => return (name, ← IO.getEnv name)
  return .ofVariables fun name => (values.lookup name).join

/-- Reads lines until one leaves no bracket open. -/
partial def readEntry (input : IO.FS.Stream) (before : String) : IO Entry := do
  let line ← input.getLine
  if line = "" then
    return if before = "" then .endOfInput else .text before
  let text := before ++ line
  match onEnter text with
  | .submit => return .text text
  | .insert _ => do
    (← IO.getStdout).putStr ".. "
    (← IO.getStdout).flush
    readEntry input text

/-- The file that an entry asks for, looked up before the entry is answered. -/
def filesFor : Entry → IO (String → Found)
  | .text text => do
    let (_, path) := Text.firstWord (Text.trim (Session.visible text).toList)
    let found ← look (String.ofList path)
    return fun _ => found
  | _ => return fun _ => .missing

/-- Asks for entries and answers them until the loop is over. -/
partial def interact (console : Console) (input : IO.FS.Stream) (session : Session) : IO Unit := do
  (← IO.getStdout).putStr ">> "
  (← IO.getStdout).flush
  let entry ← readEntry input ""
  let (reply, session, ended) := session.respond console (← filesFor entry) entry
  reply.write
  unless ended do interact console input session

/-- The limit on frames that a new process has. -/
def startLimit : Nat := 1000

/-- Runs what the arguments ask for. -/
def start (args : List String) : IO UInt32 := do
  let settings ← shellSettings
  let input ← IO.getStdin
  let console : Console := ⟨"\x1b[2J\x1b[0;0H", "", settings.showsNotes⟩
  let interactive ← input.isTty
  match Invocation.read args with
  | .ok ⟨_, _, none⟩ =>
    if interactive then
      Session.banner.write
      interact console input (.fresh [] settings.tracebacks (settings.limitFrom startLimit / framesPerNode))
      return 0
  | _ => pure ()
  let found ← match Invocation.read args with
    | .ok ⟨_, _, some path⟩ => look path
    | _ => pure .missing
  let text ← if interactive then pure "" else input.readToEnd
  let host : Host := ⟨console, settings, fun _ => found, text, false, [], startLimit⟩
  match host.execute args with
  | (.status code, reply) =>
    reply.write
    return code.toUInt32
  | (.refused message, reply) =>
    (reply ++ .warn message).write
    return 1

end TreeWalk

def main (args : List String) : IO UInt32 := TreeWalk.start args
