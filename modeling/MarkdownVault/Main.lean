import MarkdownVault.Command.Run
import MarkdownVault.Configuration

/-!
# The program

Loads the configured vaults, runs the command line on them, prints what comes out, and writes the
files that were changed.
-/

namespace MarkdownVault.Program

/-- Milliseconds since 1970. -/
def millis (t : IO.FS.SystemTime) : Binary64 :=
  Binary64.ofRat false (mkRat (t.sec * 1000000000 + t.nsec.toNat) 1000000)

def absolute (route : Route) : String := "/" ++ route.text

/-- What stands at the end of a route on disk. -/
partial def load (route : Route) : IO (Option Tree) := do
  let path := (← IO.currentDir) / absolute route
  if ← path.isDir then
    let children ← (← path.readDir).toList.filterMapM fun entry => do
      return (← load (route ++ [entry.fileName])).map fun t => (entry.fileName, t)
    return some (.folder children)
  else if ← path.pathExists then
    let data ← path.metadata
    return some (.file ⟨← IO.FS.readBinFile path, millis data.modified⟩)
  else return none

/-- The tree with what stands on disk at the ends of some routes. -/
def loadAll (routes : List Route) (t : Tree) : IO Tree :=
  routes.foldlM (fun t route => do return (← load route).elim t fun u => u.mount route t) t

def save (f : Route × FileData) : IO Unit := do
  let path := (← IO.currentDir) / absolute f.1
  if let some folder := path.parent then IO.FS.createDirAll folder
  IO.FS.writeBinFile path f.2.bytes

def printOutput : Output → IO Unit
  | .lines texts => texts.forM IO.println
  | .document v => IO.println (v.jsonLines 0)

def printComplaint (forPrograms : Bool) (c : Complaint) : IO Unit :=
  IO.eprintln (if forPrograms then ((c.marked.json .plain).toOption).getD c.text else c.text)

/-- Why a run ended without a report. -/
def escapeText : Failure → String
  | .notUtf8 => "a file is not text in UTF-8"
  | .system => "the file system refuses"
  | .badPath => "a path holds a NUL character"
  | .badTime => "a time lies outside the years 1 to 9999"
  | .metadata _ => "a document holds a scalar that denotes nothing"
  | .unlistedVaults => "the declaration of vaults is no list"
  | _ => "a value cannot be used here"

def run (arguments : List String) : IO UInt32 := do
  let folder := Route.follow [] (← IO.currentDir).toString
  let root ← IO.getEnv "NOTEGRAPH_VAULT_ROOT"
  let start := Tree.folderChain folder
  let files := (Configuration.searchedFolders folder).map (· ++ [configFileName])
  let declared ← loadAll files start
  let tree ← loadAll (Configuration.candidates declared folder root) declared
  let now := Binary64.ofNat (← IO.monoMsNow)
  let session := (Configuration.places tree folder root).map
    (Configuration.session tree now (now.divNat 1000))
  let (result, after) := CommandLine.run arguments session
  for vault in (after.map (·.vaults)).getD [] do
    if let .disk d := vault.store then (tree.changes d.tree).forM save
  match result with
  | .error f =>
    IO.eprintln ("Error: " ++ escapeText f)
    return 1
  | .ok outcome =>
    printOutput outcome.output
    outcome.complaint.forM (printComplaint (CommandLine.forPrograms arguments))
    return outcome.exitCode.toUInt32

end MarkdownVault.Program

def main (arguments : List String) : IO UInt32 := MarkdownVault.Program.run arguments
