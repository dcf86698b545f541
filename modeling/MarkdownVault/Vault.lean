import MarkdownVault.Graph.Memo
import MarkdownVault.Vault.Store

/-!
# Vaults at work

Operations on a vault read the clock, may fail, and leave a changed vault behind even when they
do. A sweep goes through all notes and passes over those that cannot be read.
-/

namespace MarkdownVault

/-- A vault that is kept by a backend. -/
structure VaultOf (σ : Type) where
  name : String
  store : σ
  memo : GraphMemo

abbrev Vault := VaultOf Store

/-- Operations on one vault; the clock counts seconds. -/
abbrev OperationM (σ : Type) := ReaderT Binary64 (ExceptT Failure (StateM (VaultOf σ)))

abbrev VaultM := OperationM Store

namespace Vault

variable {σ α : Type}

def onStore (f : σ → Except Failure α × σ) : OperationM σ α := fun _ vault =>
  let (result, store) := f vault.store
  (result, { vault with store })

/-- The result of an operation as a value, so that a failure does not stop what follows. -/
def attempt (action : OperationM σ α) : OperationM σ (Except Failure α) := fun now vault =>
  let (result, vault) := action now vault
  (.ok result, vault)

def list [Backend σ] (directory : Option String) : OperationM σ (List FileEntry) := do
  let now ← read
  onStore (Backend.list now directory)

def folders (directory : Option String) : VaultM (List String) :=
  onStore fun s => (s.folders directory, s)

def contains (path : String) : VaultM Bool := onStore fun s => (s.contains path, s)

def readText [Backend σ] (path : String) : OperationM σ String := onStore (Backend.read path)

def parsed (result : Except Yaml.Fault α) : OperationM σ α :=
  MonadExcept.ofExcept (result.mapError Failure.metadata)

def readNote [Backend σ] (path : String) : OperationM σ Note := do
  let path := Backend.notePath path (← get).store
  parsed (Note.ofText path (← readText path))

def write (path content : String) : VaultM Unit := onStore (Store.write path content)

def summary : VaultM VaultSummary := do
  let files ← list none
  return (← get).store.summary files

def dropListings : VaultM Unit := onStore fun s => (.ok (), s.dropListings)

/-- Nothing, where a sweep passes over a failure. -/
def unlessSkipped (action : OperationM σ α) : OperationM σ (Option α) := do
  MonadExcept.ofExcept (Failure.skipped (← attempt action))

/-- The notes that can be read, with their entries in the listing. -/
def sweep [Backend σ] (wanted : FileEntry → Bool) : OperationM σ (List (FileEntry × Note)) := do
  let files := (← list none).filter fun f => f.isNote && wanted f
  files.filterMapM fun f => do
    return (← unlessSkipped (readNote f.path)).map fun note => (f, note)

/-! ## The graph -/

def invalidate : OperationM σ Unit := modify fun v => { v with memo := v.memo.invalidate }

/-- The next step of a build: the listing first, then one note after the other. -/
def advance [Backend σ] (b : Build) : OperationM σ Build := do
  match b.pending with
  | none => return b.listed (← list none)
  | some [] => return b
  | some (file :: _) => MonadExcept.ofExcept (b.answered (← attempt (readText file.path)))

def finishBuild (b : Build) : OperationM σ Snapshot := fun _ vault =>
  let (result, memo) := b.finish vault.memo
  (result, { vault with memo })

/-- So many steps of a build; something may happen before each note is read. -/
def advanceTimes [Backend σ] (before : String → OperationM σ Unit) :
    Nat → Build → OperationM σ Build
  | 0, b => return b
  | n + 1, b => do
    if let some file := b.next? then before file.path
    advanceTimes before n (← advance b)

def buildWith [Backend σ] (before : String → OperationM σ Unit) : OperationM σ Snapshot := do
  let listed ← advance (.start (← get).memo)
  finishBuild (← advanceTimes before (listed.pending.getD []).length listed)

def build [Backend σ] : OperationM σ Snapshot := buildWith fun _ => return ()

/-- The graph that is kept, or else a new one. -/
def snapshot [Backend σ] : OperationM σ Snapshot := do
  match (← get).memo.snapshot with
  | some s => return s
  | none => build

def graph [Backend σ] : OperationM σ Graph := do return (← snapshot).graph

/-- Writes a file and forgets the graph. -/
def writeThrough (path content : String) : VaultM Unit := do
  write path content
  invalidate

end Vault

end MarkdownVault
