import TreeWalk.Lexeme
import TreeWalk.Text.Blank

/-! The commands of the interactive loop, and help with typing. -/
namespace TreeWalk

/-- A command that an entry can give instead of a program. -/
inductive Command where
  | clear
  | load
  | traceback
  | reset
  deriving DecidableEq, Repr

namespace Command

/-- Every command, in the order in which they are offered. -/
def all : List Command := [clear, load, traceback, reset]

def name : Command → String
  | clear => "/clear"
  | load => "/load"
  | traceback => "/py-traceback"
  | reset => "/reset"

def description : Command → String
  | clear => "Clear the terminal screen"
  | load => "Evaluate a source file in the current environment"
  | traceback => "Toggle Python traceback on errors"
  | reset => "Reset the REPL environment"

/-- What the command takes. -/
def hint : Command → String
  | clear | reset => ""
  | load => "PATH"
  | traceback => "[on|off]"

/-- The command with a given name. -/
def ofName? (name : String) : Option Command := all.find? (·.name == name)

/-- The help shown beside the name. -/
def help (command : Command) : String :=
  if command.hint = "" then command.description else command.description ++ " " ++ command.hint

/-- How the command is used. -/
def usage (command : Command) : String := "Usage: " ++ command.name ++ " " ++ command.hint

end Command

/-- A command that can be filled in for what has been typed. -/
structure Completion where
  text : String
  /-- Where the text goes, counted from the cursor. -/
  start : Int
  help : String
  deriving DecidableEq, Repr

namespace Completion

/-- The commands that begin with the text before the cursor, which must begin with a slash. -/
def offer (typed : String) : List Completion :=
  if typed.toList.head? = some '/' then
    (Command.all.filter fun command => typed.toList.isPrefixOf command.name.toList).map
      fun command => ⟨command.name, -typed.length, command.help⟩
  else []

end Completion

/-- What the Enter key does. -/
inductive EnterAction where
  | submit
  | insert (text : String)
  deriving DecidableEq, Repr

/-- Enter submits a text unless it leaves brackets open; then it starts an indented line. -/
def onEnter (text : String) : EnterAction :=
  match Lexeme.openDepth text with
  | 0 => .submit
  | depth => .insert (String.ofList ('\n' :: List.replicate (4 * depth) ' '))

end TreeWalk
