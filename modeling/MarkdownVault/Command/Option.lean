import MarkdownVault.Command.Usage
import MarkdownVault.Text.Digit
import MarkdownVault.Text.Similarity
import MarkdownVault.Value.Coercion

/-!
# Options and arguments

A command has named options and positional arguments, in any order unless it is a group, whose
first argument ends its options. A long option may carry its value behind an equals sign, a short
one directly; two dashes alone end the options.
-/

namespace MarkdownVault

/-- What an option takes. -/
inductive OptionKind where
  | flag
  | text
  /-- A whole number, at least this one. -/
  | number (least : Int)
  | choice (choices : List String)
  deriving DecidableEq, Repr

structure OptionSpec where
  /-- All names with their dashes; the first one stands for the option. -/
  names : List String
  kind : OptionKind
  deriving Repr

inductive OptionValue where
  | flag
  | text (s : String)
  | number (n : Int)
  deriving DecidableEq, Repr

structure CommandSpec where
  name : String
  /-- The arguments by the names that complaints use. -/
  arguments : List String
  options : List OptionSpec
  deriving Repr

namespace OptionSpec

def takesValue (o : OptionSpec) : Bool := o.kind != .flag

def key (o : OptionSpec) : String := o.names.headD ""

/-- A sign and digits of any script, in which single underscores may separate digits. -/
def integer? (s : String) : Option Int := do
  let (negative, cs) := Value.takeSign (Text.trim s.toList)
  if cs.isEmpty then none
  let n := Int.ofNat (Text.digitsValue (← Text.groupedDigits? Text.isDecimalDigit cs))
  return if negative then -n else n

def read (o : OptionSpec) (s : String) : Except UsageFault OptionValue :=
  match o.kind with
  | .flag => .ok .flag
  | .text => .ok (.text s)
  | .number least => match integer? s with
    | none => .error (.notInteger o.names s)
    | some n => if n < least then .error (.outOfRange o.names n least) else .ok (.number n)
  | .choice choices =>
    if choices.contains s then .ok (.text s) else .error (.notOneOf o.names s choices)

end OptionSpec

/-- An option as it stands on the command line, with the text of its value. -/
structure GivenOption where
  option : OptionSpec
  text : String

/-- The parts of a command line. -/
structure SplitLine where
  options : List GivenOption
  arguments : List String

namespace CommandSpec

def helpOption : OptionSpec := ⟨["--help"], .flag⟩

def allOptions (c : CommandSpec) : List OptionSpec := c.options ++ [helpOption]

def find? (c : CommandSpec) (name : String) : Option OptionSpec :=
  c.allOptions.find? fun o => o.names.contains name

def longNames (c : CommandSpec) : List String :=
  (c.allOptions.flatMap (·.names)).filter fun name => startsWith name "--"

def isOption (argument : String) : Bool := startsWith argument "-" && 1 < argument.length

/-- How many similar options a complaint names. -/
def suggestionLimit : Nat := 3

/-- A long option, and whether it takes the next argument as its value. -/
def longOption (c : CommandSpec) (argument : String) (next : Option String) :
    Except UsageFault (List GivenOption × Bool) :=
  let (name, value) := match Text.cutFirst? ['='] argument.toList with
    | some (name, value) => (String.ofList name, some (String.ofList value))
    | none => (argument, none)
  match c.find? name with
  | none => .error (.unknownOption name
      (((similarTo name c.longNames).take suggestionLimit).mergeSort textLe))
  | some o =>
    if o.takesValue then
      match value, next with
      | some value, _ => .ok ([⟨o, value⟩], false)
      | none, some value => .ok ([⟨o, value⟩], true)
      | none, none => .error (.missingValue name)
    else if value.isSome then .error (.unwantedValue name)
    else .ok ([⟨o, ""⟩], false)

/-- Short options in one argument; the first one that takes a value takes all that follows. -/
def shortOptions (c : CommandSpec) (next : Option String) :
    List Char → Except UsageFault (List GivenOption × Bool)
  | [] => .ok ([], false)
  | letter :: rest =>
    let name := String.ofList ['-', letter]
    match c.find? name with
    | none => .error (.unknownOption name [])
    | some o =>
      if o.takesValue then
        match rest, next with
        | [], none => .error (.missingValue name)
        | [], some value => .ok ([⟨o, value⟩], true)
        | rest, _ => .ok ([⟨o, String.ofList rest⟩], false)
      else do
        let (more, taken) ← shortOptions c next rest
        return (⟨o, ""⟩ :: more, taken)

def optionsAt (c : CommandSpec) (argument : String) (next : Option String) :
    Except UsageFault (List GivenOption × Bool) :=
  if startsWith argument "--" then c.longOption argument next
  else c.shortOptions next (argument.toList.drop 1)

/-- Splits a command line; `mixed` allows options behind arguments. -/
def split (c : CommandSpec) (mixed : Bool) : List String → Except UsageFault SplitLine
  | [] => .ok ⟨[], []⟩
  | argument :: rest =>
    if argument = "--" then .ok ⟨[], rest⟩
    else if isOption argument then do
      let (given, taken) ← c.optionsAt argument rest.head?
      let line ← split c mixed (if taken then rest.drop 1 else rest)
      return { line with options := given ++ line.options }
    else if mixed then do
      let line ← split c mixed rest
      return { line with arguments := argument :: line.arguments }
    else .ok ⟨[], argument :: rest⟩
termination_by arguments => arguments.length
decreasing_by
  · split <;> simp only [List.length_cons, List.length_drop] <;> omega
  · simp

end CommandSpec

namespace SplitLine

def occurrences (key : String) (gs : List GivenOption) : List GivenOption :=
  gs.filter fun g => g.option.key == key

def others (key : String) (gs : List GivenOption) : List GivenOption :=
  gs.filter fun g => g.option.key != key

theorem length_others_le (key : String) (gs : List GivenOption) :
    (others key gs).length ≤ gs.length := List.length_filter_le ..

/-- Of an option that is given again the first occurrence has the place and the last the value. -/
def lastValues : List GivenOption → List GivenOption
  | [] => []
  | g :: gs =>
    (occurrences g.option.key gs).getLastD g :: lastValues (others g.option.key gs)
termination_by gs => gs.length
decreasing_by exact Nat.lt_succ_of_le (length_others_le _ gs)

end SplitLine

/-- A command line that was understood. -/
structure ParsedLine where
  options : List (String × OptionValue)
  arguments : List String

namespace ParsedLine

def hasFlag (l : ParsedLine) (key : String) : Bool := (l.options.lookup key).isSome

def text? (l : ParsedLine) (key : String) : Option String :=
  match l.options.lookup key with
  | some (.text s) => some s
  | _ => none

def number? (l : ParsedLine) (key : String) : Option Int :=
  match l.options.lookup key with
  | some (.number n) => some n
  | _ => none

def argument (l : ParsedLine) (index : Nat) : String := l.arguments.getD index ""

end ParsedLine

/-- Reads the values of the options in the order in which they are given, then the arguments. -/
def CommandSpec.parse (c : CommandSpec) (l : SplitLine) : Except UsageFault ParsedLine := do
  let options ← (SplitLine.lastValues l.options).mapM fun g => do
    return (g.option.key, ← g.option.read g.text)
  match c.arguments[l.arguments.length]? with
  | some missing => throw (.missingArgument missing)
  | none => match l.arguments.drop c.arguments.length with
    | [] => return ⟨options, l.arguments⟩
    | extra => throw (.extraArguments extra)

end MarkdownVault
