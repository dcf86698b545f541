import MarkdownVault.Text.LetterCase

/-!
# The log

Events are written as lines with their level and their source. The level of the log may be named
from outside, in any letter case; what names no level means the standard one.
-/

namespace MarkdownVault

inductive LogLevel where
  | unset
  | debug
  | info
  | warning
  | error
  | critical
  deriving DecidableEq, Repr

namespace LogLevel

/-- Levels compare by these numbers. -/
def number : LogLevel → Nat
  | unset => 0
  | debug => 10
  | info => 20
  | warning => 30
  | error => 40
  | critical => 50

def name : LogLevel → String
  | unset => "NOTSET"
  | debug => "DEBUG"
  | info => "INFO"
  | warning => "WARNING"
  | error => "ERROR"
  | critical => "CRITICAL"

/-- Two levels have a second name. -/
def ofName? (s : String) : Option LogLevel :=
  match s with
  | "NOTSET" => some unset
  | "DEBUG" => some debug
  | "INFO" => some info
  | "WARNING" | "WARN" => some warning
  | "ERROR" => some error
  | "CRITICAL" | "FATAL" => some critical
  | _ => none

/-- The level of a log when none is asked for. -/
def standard : LogLevel := info

/-- The level that is asked for. -/
def chosen (name : Option String) : LogLevel :=
  (name.bind fun s => ofName? (upper s)).getD standard

end LogLevel

/-- A log hands its lines on to handlers, each with a level of its own. -/
structure Log where
  level : LogLevel
  handlers : List LogLevel
  /-- Whether an enclosing log gets the lines too. -/
  propagates : Bool
  deriving DecidableEq, Repr

namespace Log

/-- A log that nobody has configured. -/
def fresh : Log := ⟨.unset, [], true⟩

/-- Gives a log one handler, unless it has one already. -/
def configure (name : Option String) (log : Log) : Log :=
  if log.handlers.isEmpty then ⟨.chosen name, [.chosen name], false⟩ else log

def line (level : LogLevel) (source message : String) : String :=
  "[" ++ level.name ++ "] " ++ source ++ ": " ++ message

end Log

end MarkdownVault
