import MarkdownVault.Base.Definition
import MarkdownVault.Value.Json

/-!
# Failures and their reports

Everything that can go wrong in an operation on a vault. Most failures have a report: a code, a
message and details for programs to read. The others come from the system or from the data and
stop whatever is running.
-/

namespace MarkdownVault

inductive ErrorCode where
  | noteNotFound
  | vaultNotFound
  | invalidParams
  | invalidPath
  | invalidBase
  | configuration
  | internal
  deriving DecidableEq, Repr

namespace ErrorCode

def text : ErrorCode → String
  | noteNotFound => "NOTE_NOT_FOUND"
  | vaultNotFound => "VAULT_NOT_FOUND"
  | invalidParams => "INVALID_PARAMS"
  | invalidPath => "INVALID_PATH"
  | invalidBase => "INVALID_BASE"
  | configuration => "CONFIGURATION"
  | internal => "INTERNAL"

/-- Whether something that was asked for by name does not exist. -/
def isNotFound : ErrorCode → Bool
  | noteNotFound | vaultNotFound => true
  | _ => false

end ErrorCode

/-- What a caller is told of a failure. -/
structure Report where
  code : String
  message : String
  details : Properties
  deriving Repr

namespace Report

/-- Empty details are left out. -/
def detailField (r : Report) : Properties :=
  if r.details.isEmpty then [] else [("details", .ofProperties r.details)]

def fields (r : Report) : Properties :=
  [("code", .text r.code), ("message", .text r.message)] ++ r.detailField

/-- The report as it is shown to programs, marked as an error. -/
def marked (r : Report) : Value :=
  .ofProperties ([("error", .bool true)] ++ r.fields)

def json (r : Report) : Except ValueFault String := Value.json .plain r.marked

end Report

/-- A resource that was named and does not exist. -/
def Report.notFound (resource : String) (detail : Option String) : Report :=
  let message := match detail.filter (!·.isEmpty) with
    | some d => resource ++ " not found: " ++ d
    | none => resource ++ " not found"
  ⟨ErrorCode.noteNotFound.text, message, [("resource", .text resource)]⟩

inductive Failure where
  | notFound (resource detail : String)
  | noVaults
  | unknownVault (name : Option String) (available : List String)
  | outsideVault (path vault : String)
  /-- An argument is less than one. -/
  | tooSmall (parameter : String)
  | unknownDirection (text : String)
  | base (fault : BaseFault)
  | invalidViews
  | invalidUpdate
  | unconfigured
  /-- A file that is no text in UTF-8. -/
  | notUtf8
  /-- The file system refuses. -/
  | system
  /-- A path with a NUL character, which no file system takes. -/
  | badPath
  /-- A string that is no text where one is to be encoded. -/
  | unencodable
  /-- A time outside the years 1 to 9999. -/
  | badTime
  /-- A text whose metadata is well formed and has no value. -/
  | metadata (fault : Yaml.Fault)
  | value (fault : ValueFault)
  /-- An argument of the wrong kind. -/
  | refused
  /-- A link that leads to a path no note is listed under. -/
  | danglingLink
  /-- A declaration of vaults that is no list. -/
  | unlistedVaults
  deriving Repr

/-- The name of the file that declares vaults. -/
def configFileName : String := ".notegraph.yaml"

namespace Failure

def unconfiguredMessage : String :=
  "No vault configured. Options:\n  1. Set NOTEGRAPH_VAULT_ROOT to a vault directory\n  2. Create "
    ++ configFileName ++ " with a \x60vaults:\x60 list of \x7bname, path\x7d entries"

def directionMessage (direction : String) : String :=
  "Invalid direction '" ++ direction ++ "'. Use one of: outgoing, incoming, both"

def optionText (s : Option String) : Value := (s.map Value.text).getD .null

def vaultMessage (name : Option String) : String := "Vault not found: " ++ name.getD "None"

def baseMessage : BaseFault → Option String
  | .notMapping => some "Invalid .base file: not a YAML object"
  | .document .malformed => some "Invalid .base file"
  | .document _ => none
  | .shape => some "Invalid .base file"

/-- The report of a failure, if it has one. -/
def report? : Failure → Option Report
  | notFound resource detail => some (.notFound resource (some detail))
  | noVaults => some ⟨ErrorCode.invalidParams.text, "No vaults configured", []⟩
  | unknownVault name available =>
    some ⟨ErrorCode.vaultNotFound.text, vaultMessage name,
      [("vault", optionText name), ("available", Record.textList available)]⟩
  | outsideVault path vault =>
    some ⟨ErrorCode.invalidPath.text, "Path escapes vault root: " ++ path,
      [("path", .text path), ("vault", .text vault)]⟩
  | tooSmall parameter =>
    some ⟨ErrorCode.invalidParams.text, parameter ++ " must be at least 1", []⟩
  | unknownDirection s => some ⟨ErrorCode.invalidParams.text, directionMessage s, []⟩
  | base fault => (baseMessage fault).map (⟨ErrorCode.invalidBase.text, ·, []⟩)
  | invalidViews => some ⟨ErrorCode.invalidParams.text, "Invalid views", []⟩
  | invalidUpdate => some ⟨ErrorCode.invalidParams.text, "Invalid base update", []⟩
  | unconfigured => some ⟨ErrorCode.configuration.text, unconfiguredMessage, []⟩
  | notUtf8 | system | badPath | unencodable | badTime | metadata _ | value _ | refused
  | danglingLink | unlistedVaults => none

/-- Whether a sweep over all notes passes over a note that fails like this. -/
def isSkipped (f : Failure) : Bool :=
  match f with
  | notUtf8 | system => true
  | f => f.report?.isSome

@[simp] theorem isSkipped_metadata (fault : Yaml.Fault) : (metadata fault).isSkipped = false := rfl

/-- The result for one note of a sweep, nothing where the sweep passes over its failure. -/
def skipped {α : Type} : Except Failure α → Except Failure (Option α)
  | .ok a => .ok (some a)
  | .error f => if f.isSkipped then .ok none else .error f

@[simp] theorem skipped_ok {α : Type} (a : α) : skipped (.ok a) = .ok (some a) := rfl
@[simp] theorem skipped_metadata {α : Type} (fault : Yaml.Fault) :
    skipped (.error (metadata fault) : Except Failure α) = .error (metadata fault) := rfl

end Failure

end MarkdownVault
