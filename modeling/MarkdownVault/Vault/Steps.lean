import MarkdownVault.Vault.Tree

/-!
# Steps of a file system

On the way to a file the missing folders are made one after the other, and then the file is opened.
A step that is refused leaves what the steps before it have made.
-/

namespace MarkdownVault

/-- How many bytes a whole path may have. -/
def Route.limit : Nat := 4095

/-- Whether a path from the top is short enough to be looked at. -/
def Route.fits (route : Route) : Bool := ("/" ++ route.text).utf8ByteSize ≤ limit

namespace Tree

/-- How many bytes a name may have. -/
def nameLimit : Nat := 255

def isShort (name : String) : Bool := name.utf8ByteSize ≤ nameLimit

/-- Why a step is refused. -/
inductive Refusal where
  /-- A file stands where a folder is needed. -/
  | notFolder
  /-- A folder stands where a file is to be opened. -/
  | isFolder
  /-- A name or a whole path is too long. -/
  | tooLong
  deriving DecidableEq, Repr

/-- What came of some steps, and the tree that they left. -/
abbrev Outcome := Except Refusal Unit × Tree

variable (takes : String → Bool)

/-- Whether on the way down a route nothing stands under a name that the file system does not
take. -/
def stumbles : Route → Tree → Bool
  | [], _ => false
  | _ :: _, .file _ => false
  | name :: route, .folder children =>
    match children.lookup name with
    | some t => stumbles route t
    | none => !takes name

/-- Makes the folders of a route that are missing, from the top down. -/
def makeFolders : Route → Tree → Outcome
  | _, .file data => (.error .notFolder, .file data)
  | [], .folder children => (.ok (), .folder children)
  | name :: route, .folder children =>
    let child := children.lookup name
    if child.isNone && !takes name then (.error .tooLong, .folder children)
    else
      let (result, t) := makeFolders route (child.getD (.folder []))
      (result, .folder (putChild name t children))

/-- Puts a file in a folder that is there, in place of an old one. -/
def putFile (data : FileData) (route : Route) (t : Tree) : Outcome :=
  if (t.find? route).any isFolder then (.error .isFolder, t)
  else if t.stumbles takes route then (.error .tooLong, t)
  else match t.write? data route with
    | some t => (.ok (), t)
    | none => (.error .notFolder, t)

/-- Opens a file to write it: the folders above it are made where they are missing, and what the
file held is gone. -/
def openFile (stamp : Binary64) (route : Route) (t : Tree) : Outcome :=
  if !Route.fits route.dropLast then (.error .tooLong, t)
  else match t.makeFolders takes route.dropLast with
    | (.error refusal, t) => (.error refusal, t)
    | (.ok (), t) =>
      if !Route.fits route then (.error .tooLong, t)
      else t.putFile takes ⟨.empty, stamp⟩ route

end Tree

end MarkdownVault
