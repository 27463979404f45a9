import TreeWalk.Text.Decimal

/-! Settings that come from outside, each as a text or not at all.

A switch is a word for on or off. A log level is one of the usual names. A recursion limit is a
positive number. Anything else counts as not set.

The host keeps a stack of frames and has a limit on their number, which can be raised while it runs. What
limit a host starts with is left to the caller. -/
namespace TreeWalk

open Text

/-- The words for on and off, in any mixture of cases and between blanks (`parse_switch`). -/
def readSwitch (text : String) : Option Bool :=
  let word := String.ofList ((trim text.toList).map Char.toLower)
  if word ∈ ["1", "true", "yes", "on"] then some true
  else if word ∈ ["0", "false", "no", "off"] then some false
  else none

namespace LogLevel

/-- The names of log levels. -/
def names : List (String × Nat) :=
  [("NOTSET", 0), ("DEBUG", 10), ("INFO", 20), ("WARN", 30), ("WARNING", 30), ("ERROR", 40),
    ("CRITICAL", 50), ("FATAL", 50)]

/-- The level of those who ask for none. -/
def warning : Nat := 30

/-- The level of events that are logged for diagnosis. -/
def debug : Nat := 10

/-- The upper case of a letter, as far as the names of log levels have it: beside the ASCII letters,
the dotless i and the long s belong to them. -/
def upper (c : Char) : Char :=
  if c = 'ı' then 'I' else if c = 'ſ' then 'S' else c.toUpper

/-- The level that a text names (`log_level`). -/
def read (text : String) : Nat :=
  (names.lookup (String.ofList ((trim text.toList).map upper))).getD warning

end LogLevel

/-- The limit that a text asks for: a positive number in grouped form (`recursion_limit`). -/
def readLimit (text : String) : Option Nat :=
  match Decimal.readGrouped (trim text.toList) with
  | some n => if 0 < n then some n.toNat else none
  | none => none

/-- The recursion limit that is asked for without a setting, in frames (`DEFAULT_RECURSION_LIMIT`). -/
def usualLimit : Nat := 10000

/-- What can be set from outside. -/
structure Settings where
  logLevel : Nat
  recursionLimit : Option Nat
  tracebacks : Bool
  deriving DecidableEq, Repr

namespace Settings

/-- The settings that variables give. -/
def ofVariables (value? : String → Option String) : Settings where
  logLevel := ((value? "KITE_LOG_LEVEL").map LogLevel.read).getD LogLevel.warning
  recursionLimit := (value? "KITE_RECURSION_LIMIT").bind readLimit
  tracebacks := (value? "KITE_DEBUG_PY_TRACE").bind readSwitch = some true

/-- The limit that is asked for. -/
def wantedLimit (settings : Settings) : Nat := settings.recursionLimit.getD usualLimit

/-- The limit in force once it has been raised from what it was; it is never lowered
(`ensure_recursion_limit`). -/
def limitFrom (settings : Settings) (current : Nat) : Nat := max current settings.wantedLimit

/-- The limit that a host has to be given which is already at the usual one, if any. -/
def raisedLimit (settings : Settings) : Option Nat :=
  let limit := settings.limitFrom usualLimit
  if usualLimit < limit then some limit else none

/-- Whether diagnostic events are shown. -/
def showsNotes (settings : Settings) : Bool := settings.logLevel ≤ LogLevel.debug

end Settings

end TreeWalk
