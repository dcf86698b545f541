import MarkdownVault.Proofs.Vault.Reading

/-!
# Calls side by side

Several calls for the graph of one vault may be under way at once. Each gives way to the others
while it waits for the listing and for every note. A schedule is the list of what happens, in its
order, and the time of an event is its position in this list.
-/

namespace MarkdownVault

/-- What a backend shows at one moment. -/
structure Files where
  listing : Option String → Except Failure (List FileEntry)
  text : String → Except Failure String

/-- Files that stay as they are. -/
instance : Backend Files where
  list _ directory files := (files.listing directory, files)
  read path files := (files.text path, files)
  notePath path _ := path

namespace Build

/-- The next step of a build that is answered as files show it. -/
def advanceOn (files : Files) (b : Build) : Except Failure Build :=
  (Vault.advance b default ⟨"", files, .empty⟩).1

def isComplete (b : Build) : Bool :=
  match b.pending with
  | some [] => true
  | _ => false

end Build

namespace Schedule

/-- What the backend showed to a call, and when. -/
structure Answer where
  time : Nat
  files : Files

/-- A build under way, the answers that it has taken in, and one that waits for it. -/
structure Task where
  build : Build
  taken : List Answer
  waiting : Option Answer

inductive Status where
  | running (task : Task)
  | ended (taken : List Answer) (result : Except Failure Snapshot)
  | remembered (snapshot : Snapshot)

structure Call where
  started : Nat
  status : Status

namespace Call

/-- The backend answers what the call waits for. -/
def answer (a : Answer) (c : Call) : Call :=
  match c.status with
  | .running ⟨b, taken, none⟩ => { c with status := .running ⟨b, taken, some a⟩ }
  | _ => c

/-- A build goes on with an answer until it waits again or ends. -/
def proceed (b : Build) (taken : List Answer) (a : Answer) (m : GraphMemo) : Status × GraphMemo :=
  match b.advanceOn a.files with
  | .error f => (.ended (taken ++ [a]) (.error f), m)
  | .ok b =>
    if b.isComplete then (.ended (taken ++ [a]) (b.finish m).1, (b.finish m).2)
    else (.running ⟨b, taken ++ [a], none⟩, m)

def resume (m : GraphMemo) (c : Call) : Call × GraphMemo :=
  match c.status with
  | .running ⟨b, taken, some a⟩ =>
    ({ c with status := (proceed b taken a m).1 }, (proceed b taken a m).2)
  | _ => (c, m)

/-- What a call returned. -/
def result? (c : Call) : Option (Except Failure Snapshot) :=
  match c.status with
  | .running _ => none
  | .ended _ result => some result
  | .remembered s => some (.ok s)

end Call

inductive Event where
  | change (files : Files)
  | invalidate
  | get
  | build
  | answer (call : Nat) (files : Files)
  | resume (call : Nat)

/-- The files of a vault, its memo, all calls for its graph, and what has happened. -/
structure State where
  files : Files
  memo : GraphMemo
  calls : List Call
  history : List Event

namespace State

def initial (files : Files) : State := ⟨files, .empty, [], []⟩

def begin (status : Status) (s : State) : State :=
  { s with calls := s.calls ++ [⟨s.history.length, status⟩] }

def react (s : State) : Event → State
  | .change files => { s with files }
  | .invalidate => { s with memo := s.memo.invalidate }
  | .get => match s.memo.snapshot with
    | some snapshot => s.begin (.remembered snapshot)
    | none => s.begin (.running ⟨.start s.memo, [], none⟩)
  | .build => s.begin (.running ⟨.start s.memo, [], none⟩)
  | .answer i files =>
    { s with calls := s.calls.modify i (Call.answer ⟨s.history.length, files⟩) }
  | .resume i => match s.calls[i]? with
    | none => s
    | some c => { s with calls := s.calls.set i (c.resume s.memo).1, memo := (c.resume s.memo).2 }

def step (s : State) (e : Event) : State := { s.react e with history := s.history ++ [e] }

end State

/-- What has come of a vault when all events of a schedule have happened. -/
def run (files : Files) (events : List Event) : State := events.foldl State.step (.initial files)

/-- A backend that answers with the files as they are at that moment. -/
def Faithful (files : Files) (events : List Event) : Prop :=
  ∀ t i shown, events[t]? = some (.answer i shown) → (run files (events.take t)).files = shown

theorem run_concat (files : Files) (events : List Event) (e : Event) :
    run files (events ++ [e]) = (run files events).step e := List.foldl_append

end Schedule

end MarkdownVault
