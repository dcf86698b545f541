import MarkdownVault.Base.Answer
import MarkdownVault.Base.Change
import MarkdownVault.Session

/-!
# Bases of a vault

Bases are read, written and run. Everything that can be refused is refused before the file is
written, so a failure leaves the vault as it was.
-/

namespace MarkdownVault.Session

/-- The path of the base that is meant. -/
def basePath (path : String) : String := Path.ensureBase (Path.normalize path)

def modifiedMoment (f : FileEntry) : Except Failure Moment :=
  match f.stat.modified with
  | .infinite _ => .error (.value .beyondNumbers)
  | time => match Moment.ofEpochMillis? time with
    | some t => .ok t
    | none => .error .badTime

def bases (vault : Option String) : SessionM (List BaseEntry) := do
  let files ← on vault (Vault.list none)
  (files.filter FileEntry.isBase).mapM fun f => do return ⟨f, ← modifiedMoment f⟩

def parsedBase (text : String) : Except Failure Base := (Base.ofText text).mapError Failure.base

def loadBase (path : String) : VaultM BaseFile := do
  let path := basePath path
  return ⟨path, ← parsedBase (← Vault.readText path)⟩

def base (vault : Option String) (path : String) : SessionM BaseFile := on vault (loadBase path)

def writeBase (f : BaseFile) : VaultM BaseFile := do
  Vault.writeThrough f.path f.base.text
  return f

/-- A base with one table, named after its file. -/
def newBase (path : String) (filters folder : Option String) (columns : Option (List String)) :
    BaseFile :=
  let path := basePath path
  let name := Path.stem path
  ⟨path, Base.table (if name.isEmpty then "Untitled" else name) filters folder columns⟩

/-- Writes a new base. The views given take the place of its table. -/
def createBase (vault : Option String) (path : String) (filters folder : Option String)
    (columns : Option (List String)) (views : Value) : SessionM BaseFile := do
  let f := newBase path filters folder columns
  match f.base.withViews? views with
  | none => throw .invalidViews
  | some b => on vault (writeBase { f with base := b })

def changeBase (path : String) (change : BaseChange) : VaultM BaseFile := do
  let f ← loadBase path
  match f.base.change? change with
  | none => throw .invalidUpdate
  | some b => writeBase { f with base := b }

def updateBase (vault : Option String) (path : String) (change : BaseChange) :
    SessionM BaseFile := on vault (changeBase path change)

/-- All notes that can be read, as records. -/
def records {σ : Type} [Backend σ] : OperationM σ (List Record) := do
  return (← Vault.sweep fun _ => true).map fun (file, note) => Record.ofNote file note

def runBase {σ : Type} [Backend σ] (b : Base) (index : Int) : OperationM σ QueryResult := do
  let records ← records
  MonadExcept.ofExcept ((b.query index records).mapError Failure.value)

def queryBase (vault : Option String) (path : String) (index : Int) : SessionM QueryResult :=
  on vault do runBase (← loadBase path).base index

def conversationsBase (vault : Option String) (path : String) (source folder : Option String) :
    SessionM BaseFile :=
  on vault (writeBase ⟨basePath path, Base.conversations source folder⟩)

end MarkdownVault.Session
