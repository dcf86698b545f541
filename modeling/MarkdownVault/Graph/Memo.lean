import MarkdownVault.Failure
import MarkdownVault.Graph.Basic

/-!
# Memoized graphs

A graph that was built is kept until the vault is said to have changed. A build that was under way
at that moment finishes, but its graph is not kept.
-/

namespace MarkdownVault

/-- A graph and the number of the build that it came from. -/
structure Snapshot where
  number : Nat
  graph : Graph

structure GraphMemo where
  /-- How often the graph was invalidated. -/
  generation : Nat
  /-- How many graphs were built. -/
  builds : Nat
  snapshot : Option Snapshot

namespace GraphMemo

def empty : GraphMemo := ⟨0, 0, none⟩

def invalidate (m : GraphMemo) : GraphMemo :=
  { m with generation := m.generation + 1, snapshot := none }

/-- Takes the graph of a build that started at a generation. -/
def finish (start : Nat) (g : Graph) (m : GraphMemo) : Snapshot × GraphMemo :=
  let s : Snapshot := ⟨m.builds, g⟩
  (s, { m with
    builds := m.builds + 1
    snapshot := if start = m.generation then some s else m.snapshot })

end GraphMemo

/-- A build under way: the generation at which it started, the notes that are still to be read once
they are listed, and those that were read. -/
structure Build where
  generation : Nat
  pending : Option (List FileEntry)
  notes : List ReadNote

namespace Build

def start (m : GraphMemo) : Build := ⟨m.generation, none, []⟩

/-- The build after the files were listed. -/
def listed (files : List FileEntry) (b : Build) : Build :=
  { b with pending := some (files.filter FileEntry.isNote) }

/-- The build after its next note was taken in or passed over. -/
def pass (note : Option ReadNote) (b : Build) : Build :=
  { b with pending := b.pending.map (List.drop 1), notes := b.notes ++ note.toList }

def next? (b : Build) : Option FileEntry := b.pending.bind List.head?

/-- What a build takes in of the answer to reading a file. -/
def taken (file : FileEntry) (text : Except Failure String) : Except Failure (Option ReadNote) :=
  Failure.skipped (text.bind fun content =>
    (ReadNote.ofText file content).mapError Failure.metadata)

/-- The build after reading its next note was answered. -/
def answered (text : Except Failure String) (b : Build) : Except Failure Build :=
  match b.next? with
  | none => .ok b
  | some file => (taken file text).map fun note => b.pass note

/-- The end of a build. Its graph is kept if the vault has not changed since it started. -/
def finish (b : Build) (m : GraphMemo) : Except Failure Snapshot × GraphMemo :=
  match Graph.ofNotes? b.notes with
  | none => (.error .danglingLink, m)
  | some g =>
    let (s, m) := m.finish b.generation g
    (.ok s, m)

end Build

end MarkdownVault
