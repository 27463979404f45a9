import TreeWalk.Eval
import TreeWalk.Parse
import TreeWalk.Settings

/-! Programs as their callers see them.

Outside of a run an error is a value like any other, and a return signal that reaches the outside gives
up its value. Only a source text that does not parse and a malformed tree leave no value.

The host counts frames, a run counts requests. To run a node the host takes three frames, to compare two
arrays as well; an application takes more, so that a program which calls itself comes to the host's limit
earlier than it comes to the one here. Of the host it is assumed that it has room to parse a text. -/
namespace TreeWalk

/-- Why a program has no value at all. -/
inductive Trouble where
  | unparsed (error : ParseError)
  | malformed (fault : Fault)
  deriving DecidableEq, Repr

namespace Trouble

/-- The wording of the trouble. -/
def text : Trouble → String
  | unparsed error => error.text
  | malformed fault => fault.message

end Trouble

/-- The frames that a node takes while it runs: `eval_node`, the entry in its table and the handler. -/
def framesPerNode : Nat := 3

/-- How deep code may nest while it runs, calls included, at the usual limit of the host. -/
def depthLimit : Nat := usualLimit / framesPerNode

/-- The outcome of a run as its caller sees it: an error is a value, and so is the end of a run that went
too deep. -/
def outcome : Ending Value → Except Fault Value × World
  | (.ok value, world) => (.ok value, world)
  | (.error (.failed serial failure), world) => (.ok (.error serial failure), world)
  | (.error (.malformed fault), world) => (.error fault, world)
  | (.error .tooDeep, world) =>
    let (serial, world) := world.takeSerial
    (.ok (.error serial .tooDeep), world)

/-- Runs code in a scope, with its outcome as the caller sees it, down to a given depth (`evaluate`). -/
def evaluateTo (depth : Nat) (code : Code) (what : String) (scope : Nat) (world : World) :
    Except Fault Value × World :=
  match (Request.eval code scope).perform depth world with
  | (.ok value, world) => (.ok value.unwrap, world)
  | (.error .tooDeep, world) => outcome (.error .tooDeep, world.log (.depthReached what))
  | stopped => outcome stopped

/-- Runs a tree in a scope (`evaluate`). -/
def evaluate (tree : Tree) (scope : Nat) (world : World) : Except Fault Value × World :=
  evaluateTo depthLimit (.ofTree tree) tree.describe scope world

/-- Applies a value to arguments, with the outcome as the caller sees it (`apply_function`). A caller outside
of a run, whom nothing else keeps from going too deep, sees the cut as an error too. -/
def applyValue (value : Value) (args : List Value) (world : World) : Except Fault Value × World :=
  outcome ((Request.apply value args).perform depthLimit world)

/-- Parses a source text (`parse_source`) and runs it in a scope, down to a given depth. -/
def runTo (depth : Nat) (source : String) (scope : Nat) (world : World) : Except Trouble Value × World :=
  match parse source with
  | .error error => (.error (.unparsed error), world.log (.parseFailed error))
  | .ok tree =>
    let (result, world) := evaluateTo depth (.ofTree tree) tree.describe scope world
    (result.mapError .malformed, world)

/-- Parses a source text and runs it in a scope (`run`). -/
def run (source : String) (scope : Nat) (world : World) : Except Trouble Value × World :=
  runTo depthLimit source scope world

end TreeWalk
