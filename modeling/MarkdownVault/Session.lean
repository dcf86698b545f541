import MarkdownVault.Vault

/-!
# Sessions

A session holds vaults by name. An operation is addressed to one of them, or to the first one when
no name is given; it cannot change any other.
-/

namespace MarkdownVault

structure Session where
  vaults : List Vault
  /-- Seconds on a clock that only moves forward. -/
  clock : Binary64

abbrev SessionM := ExceptT Failure (StateM Session)

namespace Session

def empty (clock : Binary64) : Session := ⟨[], clock⟩

def names (s : Session) : List String := s.vaults.map (·.name)

/-- The vault that is meant when none is named. -/
def defaultName? (s : Session) : Option String := s.names.head?

/-- Replaces the vault with the same name, if there is one. -/
def putVault (v : Vault) : List Vault → List Vault
  | [] => [v]
  | w :: ws => if w.name = v.name then v :: ws else w :: putVault v ws

def add (name : String) (store : Store) (s : Session) : Session :=
  { s with vaults := putVault ⟨name, store, .empty⟩ s.vaults }

/-- The vault that a name means; an empty one means the default. -/
def find (name : Option String) (s : Session) : Except Failure Vault :=
  match s.vaults with
  | [] => .error .noVaults
  | first :: _ =>
    let key := (name.filter (!·.isEmpty)).getD first.name
    match (s.vaults.find? (·.name == key)).filter (!·.name.isEmpty) with
    | some v => .ok v
    | none => .error (.unknownVault name s.names)

/-- Runs an operation on the vault that a name means. -/
def on {α : Type} (name : Option String) (op : VaultM α) : SessionM α := fun s =>
  match s.find name with
  | .error f => (.error f, s)
  | .ok v =>
    let (result, v) := op s.clock v
    (result, { s with vaults := putVault v s.vaults })

/-- Lets time pass. -/
def tick (seconds : Binary64) (s : Session) : Session :=
  { s with clock := s.clock.add seconds }

/-- Refuses numbers below one. -/
def atLeastOne (parameter : String) (n : Int) : SessionM Unit :=
  if n < 1 then throw (.tooSmall parameter) else return ()

end Session

end MarkdownVault
