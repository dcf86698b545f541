import MarkdownVault.Value.Literal

/-!
# Errors of usage
-/

namespace MarkdownVault

/-- Kinds of complaints about a command line. -/
inductive UsageKind where
  | missingArgument
  | invalidArgument
  | unknownOption
  /-- Any other misuse of a command. -/
  | misuse
  /-- A failure that is no fault of the command line. -/
  | other
  deriving DecidableEq, Repr

def UsageKind.code : UsageKind → String
  | missingArgument => "MISSING_ARGUMENT"
  | invalidArgument => "INVALID_ARGUMENT"
  | unknownOption => "UNKNOWN_OPTION"
  | misuse => "USAGE_ERROR"
  | other => "CLI_ERROR"

/-- What is wrong with a command line. An option is given by all of its names. -/
inductive UsageFault where
  | missingCommand
  | unknownCommand (name : String) (suggestion : Option String)
  | missingArgument (name : String)
  | extraArguments (arguments : List String)
  | unknownOption (name : String) (suggestions : List String)
  | missingValue (name : String)
  | unwantedValue (name : String)
  | notInteger (option : List String) (text : String)
  | outOfRange (option : List String) (n least : Int)
  | notOneOf (option : List String) (text : String) (choices : List String)
  deriving Repr

namespace UsageFault

def kind : UsageFault → UsageKind
  | missingArgument _ => .missingArgument
  | notInteger .. | outOfRange .. | notOneOf .. => .invalidArgument
  | unknownOption .. => .unknownOption
  | _ => .misuse

def invalidValue (option : List String) (what : String) : String :=
  "Invalid value for " ++ joinWith " / " (option.map fun name => "'" ++ name ++ "'") ++ ": " ++ what

def message : UsageFault → String
  | missingCommand => "Missing command."
  | unknownCommand name none => "No such command " ++ quoted name ++ "."
  | unknownCommand name (some s) => "No such command '" ++ name ++ "'. Did you mean '" ++ s ++ "'?"
  | missingArgument name => "Missing argument '" ++ name ++ "'."
  | extraArguments [argument] => "Got unexpected extra argument (" ++ argument ++ ")"
  | extraArguments arguments =>
    "Got unexpected extra arguments (" ++ joinWith " " arguments ++ ")"
  | unknownOption name [] => "No such option: " ++ name
  | unknownOption name [s] => "No such option: " ++ name ++ " Did you mean " ++ s ++ "?"
  | unknownOption name ss =>
    "No such option: " ++ name ++ " (Possible options: " ++ joinWith ", " ss ++ ")"
  | missingValue name => "Option " ++ quoted name ++ " requires an argument."
  | unwantedValue name => "Option " ++ quoted name ++ " does not take a value."
  | notInteger option s =>
    invalidValue option (quoted s ++ " is not a valid integer range.")
  | outOfRange option n least =>
    invalidValue option (Value.intText n ++ " is not in the range x>=" ++ Value.intText least ++ ".")
  | notOneOf option s choices =>
    invalidValue option
      (quoted s ++ " is not one of " ++ joinWith ", " (choices.map quoted) ++ ".")

end UsageFault

end MarkdownVault
