import MarkdownVault.Session

/-!
# Configured vaults

Vaults are declared in a file that is looked for in a folder and those above it. The nearest file
that declares a vault with an existing folder counts. A root given from outside takes the place of
all files.
-/

namespace MarkdownVault

/-- A vault by its name and the route to its folder. -/
structure VaultPlace where
  name : String
  route : Route
  deriving DecidableEq, Repr

namespace Configuration

/-- How many folders are searched for a file. -/
def searchDepth : Nat := 10

/-- Where a path leads from a folder; one that starts with a slash is followed from the top. -/
def locate (folder : Route) (path : String) : Except Failure Route :=
  if path.toList.contains '\x00' then .error .badPath
  else .ok (Route.follow (if startsWith path "/" then [] else folder) path)

def isFolder (t : Tree) (route : Route) : Bool := (t.find? route).any Tree.isFolder

/-- The name of a folder, empty at the top. -/
def folderName (route : Route) : String := route.getLastD ""

/-- The vault that an entry declares, if its folder exists. -/
def placeOf (t : Tree) (folder : Route) (entry : Value) : Except Failure (Option VaultPlace) :=
  match entry with
  | .map fields => match Value.entry? fields "path" with
    | none => .ok none
    | some path => do
      let route ← locate folder path.shown
      let name := (Value.entry? fields "name").filter (!·.isNothing)
      if isFolder t route then
        return some ⟨(name.map Value.shown).getD (folderName route), route⟩
      else return none
  | _ => .ok none

/-- The entries of a declaration. Only those of a list can declare anything, but what cannot be
gone through at all is refused. -/
def entriesOf : Value → Except Failure (List Value)
  | .list items => .ok (Value.ownItems items)
  | .map _ | .text _ | .bytes _ | .set _ => .ok []
  | _ => .error .unlistedVaults

def declared (t : Tree) (folder : Route) (document : Value) : Except Failure (List VaultPlace) :=
  match document with
  | .map fields => match Value.entry? fields "vaults" with
    | none => .ok []
    | some vaults => do (← entriesOf vaults).filterMapM (placeOf t folder)
  | _ => .ok []

/-- The vaults that the file in a folder declares; a malformed one declares none. -/
def placesAt (t : Tree) (folder : Route) : Except Failure (List VaultPlace) :=
  match t.read? (folder ++ [configFileName]) with
  | none => .ok []
  | some data => match data.text? with
    | none => .error .notUtf8
    | some text => match Yaml.valueOf .strict text with
      | .ok document => declared t folder document
      | .error .malformed => .ok []
      | .error fault => .error (.metadata fault)

/-- Looks in a folder and in so many above it. -/
def search (t : Tree) : Nat → Route → Except Failure (List VaultPlace)
  | 0, _ => .ok []
  | more + 1, folder => do
    match ← placesAt t folder with
    | [] => if folder.isEmpty then return [] else search t more folder.dropLast
    | places => return places

/-- All configured vaults, the first of them the default. -/
def places (t : Tree) (folder : Route) (root : Option String) :
    Except Failure (List VaultPlace) :=
  match root.filter (!·.isEmpty) with
  | some path => do
    let route ← locate folder path
    return [⟨folderName route, route⟩]
  | none => do
    match ← search t searchDepth folder with
    | [] => throw .unconfigured
    | places => return places

/-! ## What has to be looked at -/

/-- Where an entry leads, whether a folder stands there or not. -/
def routeOf? (folder : Route) (entry : Value) : Option Route :=
  match entry with
  | .map fields => (Value.entry? fields "path").bind fun path =>
    (locate folder path.shown).toOption
  | _ => none

/-- Where the entries of a file lead. -/
def routesAt (t : Tree) (folder : Route) : List Route :=
  let document := do Yaml.valueOf .strict (← (t.read? (folder ++ [configFileName])).bind
    FileData.text?) |>.toOption
  match document with
  | some (.map fields) => match Value.entry? fields "vaults" with
    | some (.list entries) => (Value.ownItems entries).filterMap (routeOf? folder)
    | _ => []
  | _ => []

/-- A folder and those above it, as far as they are searched. -/
def searchedFolders (folder : Route) : List Route :=
  (List.range (min searchDepth (folder.length + 1))).map fun n => folder.take (folder.length - n)

/-- All routes at which a vault may be found. -/
def candidates (t : Tree) (folder : Route) (root : Option String) : List Route :=
  match root.filter (!·.isEmpty) with
  | some path => (locate folder path).toOption.toList
  | none => (searchedFolders folder).flatMap (routesAt t)

/-- A session with vaults on disk. -/
def session (t : Tree) (stamp clock : Binary64) (places : List VaultPlace) : Session :=
  places.foldl (fun s p => s.add p.name
    (.disk { name := p.name, root := p.route, tree := t, stamp, listings := [] })) (.empty clock)

end Configuration

end MarkdownVault
