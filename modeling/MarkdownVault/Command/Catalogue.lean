import MarkdownVault.Command.Option
import MarkdownVault.Conversation.Search
import MarkdownVault.Session.Graph
import MarkdownVault.Session.Conversations

/-!
# The commands

Every command of the program with its arguments and options, and how a command line becomes a
command. Commands on bases and on conversations are in groups of their own.
-/

namespace MarkdownVault

inductive Command where
  | links (path : String)
  | backlinks (path : String)
  | neighbors (path : String) (depth : Int) (direction : String) (limit : Int)
  | path (source target : String) (depth : Int)
  | orphans
  | statistics
  | note (path : String)
  | bases
  | base (path : String)
  | createBase (path : String) (filters folder : Option String) (columns : Option (List String))
  | queryBase (path : String) (index : Int)
  | search (criteria : Conversation.Criteria) (limit : Int)
  | analyze (path : String)
  | census
  | createConversationsBase (path : String) (source folder : Option String)

/-- A command for a vault, answered with a document or for the eye. -/
structure Invocation where
  command : Command
  vault : Option String
  asDocument : Bool

/-- A command with what it takes and what it means. -/
structure CommandForm where
  spec : CommandSpec
  meaning : ParsedLine → Command

namespace CommandForm

def vaultOption : OptionSpec := ⟨["--vault", "-V"], .text⟩
def documentOption : OptionSpec := ⟨["--json"], .flag⟩

/-- A form with the options that all commands share. -/
def of (name : String) (arguments : List String) (options : List OptionSpec)
    (meaning : ParsedLine → Command) : CommandForm :=
  ⟨⟨name, arguments, options ++ [vaultOption, documentOption]⟩, meaning⟩

def atLeastOne (names : List String) : OptionSpec := ⟨names, .number 1⟩

/-- The non-blank parts between commas. -/
def columnsOf (s : String) : List String :=
  (((s.toList.splitOn ',').map Text.trim).filter (!·.isEmpty)).map String.ofList

def noteForms : List CommandForm := [
  of "links" ["PATH"] [] fun l => .links (l.argument 0),
  of "backlinks" ["PATH"] [] fun l => .backlinks (l.argument 0),
  of "neighbors" ["PATH"]
    [atLeastOne ["--depth", "-d"],
      ⟨["--direction"], .choice (LinkDirection.all.map LinkDirection.text)⟩,
      atLeastOne ["--max-nodes", "-n"]]
    fun l => .neighbors (l.argument 0) ((l.number? "--depth").getD Session.standardDepth)
      ((l.text? "--direction").getD LinkDirection.both.text)
      ((l.number? "--max-nodes").getD Session.standardNeighbors),
  of "path" ["SOURCE", "TARGET"] [atLeastOne ["--max-depth"]]
    fun l => .path (l.argument 0) (l.argument 1)
      ((l.number? "--max-depth").getD Session.standardPathDepth),
  of "orphans" [] [] fun _ => .orphans,
  of "stats" [] [] fun _ => .statistics,
  of "note" ["PATH"] [] fun l => .note (l.argument 0)]

def baseForms : List CommandForm := [
  of "list" [] [] fun _ => .bases,
  of "show" ["PATH"] [] fun l => .base (l.argument 0),
  of "create" ["PATH"]
    [⟨["--filters", "-f"], .text⟩, ⟨["--columns", "-c"], .text⟩, ⟨["--folder"], .text⟩]
    fun l => .createBase (l.argument 0) (l.text? "--filters") (l.text? "--folder")
      (((l.text? "--columns").filter (!·.isEmpty)).map columnsOf),
  of "query" ["PATH"] [⟨["--view"], .number 0⟩]
    fun l => .queryBase (l.argument 0) ((l.number? "--view").getD 0)]

def conversationForms : List CommandForm := [
  of "search" []
    [⟨["--source", "-s"], .text⟩, ⟨["--query", "-q"], .text⟩, atLeastOne ["--min-messages"],
      ⟨["--callout"], .text⟩, ⟨["--from"], .text⟩, ⟨["--to"], .text⟩, ⟨["--folder"], .text⟩,
      atLeastOne ["--limit", "-n"]]
    fun l => .search
      { source := l.text? "--source"
        query := l.text? "--query"
        leastMessages := l.number? "--min-messages"
        callout := l.text? "--callout"
        earliest := l.text? "--from"
        latest := l.text? "--to"
        folder := l.text? "--folder" }
      ((l.number? "--limit").getD Session.standardResults),
  of "analyze" ["PATH"] [] fun l => .analyze (l.argument 0),
  of "stats" [] [] fun _ => .census,
  of "create-base" ["PATH"] [⟨["--source", "-s"], .text⟩, ⟨["--folder"], .text⟩]
    fun l => .createConversationsBase (l.argument 0) (l.text? "--source") (l.text? "--folder")]

end CommandForm

/-- A set of commands under one name, with groups among them. -/
structure CommandGroup where
  spec : CommandSpec
  forms : List CommandForm
  groups : List (String × List CommandForm)

namespace CommandGroup

def versionOption : OptionSpec := ⟨["--version"], .flag⟩
def errorOption : OptionSpec := ⟨["--json-errors"], .flag⟩

/-- The program itself. -/
def program : CommandGroup :=
  { spec := ⟨"ng", [], [versionOption, errorOption]⟩
    forms := CommandForm.noteForms
    groups := [("bases", CommandForm.baseForms), ("conversations", CommandForm.conversationForms)] }

/-- A group of commands without groups in it. -/
def ofForms (name : String) (forms : List CommandForm) : CommandGroup := ⟨⟨name, [], []⟩, forms, []⟩

def names (g : CommandGroup) : List String := g.forms.map (·.spec.name) ++ g.groups.map (·.1)

end CommandGroup

def versionText : String := "ng, version 0.3.0"

/-- A reminder of the commands of a group, or of what a command takes. -/
def usageText (spec : CommandSpec) (commands : List String) : String :=
  joinWith " " (["Usage:", spec.name, "[OPTIONS]"] ++ spec.arguments ++
    if commands.isEmpty then [] else ["COMMAND [ARGS]...\n\nCommands: " ++ joinWith ", " commands])

/-- Why a command line leads to no command. -/
inductive Refusal where
  | usage (fault : UsageFault)
  /-- Only a text is asked for. -/
  | shows (text : String)

namespace Invocation

def complain {α : Type} (result : Except UsageFault α) : Except Refusal α :=
  result.mapError .usage

/-- Answers the first option that asks for a text. -/
def showTexts (spec : CommandSpec) (commands : List String) (l : SplitLine) :
    Except Refusal Unit :=
  let asks (key : String) : Option String :=
    if key == CommandSpec.helpOption.key then some (usageText spec commands)
    else if key == CommandGroup.versionOption.key then some versionText
    else none
  match l.options.findSome? fun g => asks g.option.key with
  | some text => .error (.shows text)
  | none => .ok ()

def ofCommand (form : CommandForm) (arguments : List String) : Except Refusal Invocation := do
  let l ← complain (form.spec.split true arguments)
  showTexts form.spec [] l
  let p ← complain (form.spec.parse l)
  return ⟨form.meaning p, p.text? CommandForm.vaultOption.key,
    p.hasFlag CommandForm.documentOption.key⟩

/-- The name of a command in a group and the arguments behind it. -/
def commandName (g : CommandGroup) (arguments : List String) :
    Except Refusal (String × List String) := do
  if arguments.isEmpty then throw (.shows (usageText g.spec g.names))
  let l ← complain (g.spec.split false arguments)
  showTexts g.spec g.names l
  match l.arguments with
  | [] => throw (.usage .missingCommand)
  | name :: rest => return (name, rest)

/-- A name that no command has. One that looks like an option is read as an option first. -/
def unknown (g : CommandGroup) (name : String) (rest : List String) :
    Except Refusal Invocation := do
  if startsWith name "-" then
    let l ← complain (g.spec.split false (name :: rest))
    showTexts g.spec g.names l
  throw (.usage (.unknownCommand name (similarTo name g.names).head?))

/-- A command of a group without groups in it. -/
def ofForms (groupName : String) (forms : List CommandForm) (arguments : List String) :
    Except Refusal Invocation := do
  let g := CommandGroup.ofForms groupName forms
  let (name, rest) ← commandName g arguments
  match forms.find? (·.spec.name == name) with
  | some form => ofCommand form rest
  | none => unknown g name rest

def ofArguments (arguments : List String) : Except Refusal Invocation := do
  let g := CommandGroup.program
  let (name, rest) ← commandName g arguments
  match g.forms.find? (·.spec.name == name) with
  | some form => ofCommand form rest
  | none => match g.groups.lookup name with
    | some forms => ofForms name forms rest
    | none => unknown g name rest

end Invocation

end MarkdownVault
