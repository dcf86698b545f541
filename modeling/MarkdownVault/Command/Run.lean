import MarkdownVault.Command.Catalogue
import MarkdownVault.Command.Screen
import MarkdownVault.Session.Bases
import MarkdownVault.Value.Exchange

/-!
# Running a command line

A command line is read first; only then are vaults looked at. Complaints about the command line
and reports of failures end the run with a code and a message; failures without a report escape.
-/

namespace MarkdownVault

/-- What a command prints. -/
inductive Output where
  | lines (texts : List String)
  | document (v : Value)

/-- What a run complains about. -/
inductive Complaint where
  | usage (fault : UsageFault)
  | report (r : Report)

structure Outcome where
  exitCode : Nat
  output : Output
  complaint : Option Complaint

namespace Complaint

/-- The complaint for programs to read. -/
def marked : Complaint → Value
  | usage f => Report.marked ⟨f.kind.code, f.message, []⟩
  | report r => r.marked

def text : Complaint → String
  | usage f => "Error: " ++ f.message
  | report r => "Error: " ++ r.message

end Complaint

namespace Outcome

def ofOutput (o : Output) : Outcome := ⟨0, o, none⟩

/-- Misuse has a code of its own, unless complaints are for programs. -/
def ofComplaint (forPrograms : Bool) (c : Complaint) : Outcome :=
  let code := match c with
    | .usage _ => if forPrograms then 1 else 2
    | .report _ => 1
  ⟨code, .lines [], some c⟩

def ofFailure (forPrograms : Bool) (f : Failure) : Except Failure Outcome :=
  match f.report? with
  | some r => .ok (ofComplaint forPrograms (.report r))
  | none => .error f

end Outcome

namespace Invocation

/-- An answer in the form that was asked for. -/
def present (i : Invocation) (document : Value) (lines : List String) : SessionM Output :=
  if i.asDocument then
    match document.exchange? with
    | some v => return .document v
    | none => throw (if document.isFinite then .notUtf8 else .value .circular)
  else return .lines lines

def perform (i : Invocation) : SessionM Output := do
  match i.command with
  | .links path =>
    let l ← Session.outgoing i.vault path
    i.present l.outgoingValue (Screen.outgoing l)
  | .backlinks path =>
    let l ← Session.incoming i.vault path
    i.present l.incomingValue (Screen.incoming l)
  | .neighbors path depth direction limit =>
    let n ← Session.neighbors i.vault path depth direction limit
    i.present n.toValue (Screen.neighborhood n)
  | .path source target depth =>
    let c ← Session.connection i.vault source target depth
    i.present c.toValue (Screen.connection c depth)
  | .orphans =>
    let ns ← Session.orphans i.vault
    i.present (orphansValue ns) (Screen.orphans ns)
  | .statistics =>
    let s ← Session.statistics i.vault
    i.present s.toValue (Screen.statistics s)
  | .note path =>
    let n ← Session.note i.vault path
    i.present n.toValue (Screen.note n)
  | .bases =>
    let bs ← Session.bases i.vault
    i.present (.list (bs.map BaseEntry.toValue)) (Screen.bases bs)
  | .base path =>
    let f ← Session.base i.vault path
    i.present f.toValue (Screen.base f)
  | .createBase path filters folder columns =>
    let f ← Session.createBase i.vault path filters folder columns .null
    i.present f.toValue (Screen.created f)
  | .queryBase path index =>
    let r ← Session.queryBase i.vault path index
    i.present r.toValue (Screen.query r)
  | .search criteria limit =>
    let r ← Session.search i.vault criteria limit
    i.present r.toValue (Screen.search r)
  | .analyze path =>
    let a ← Session.analysis i.vault path
    i.present a.toValue (Screen.analysis a)
  | .census =>
    let c ← Session.census i.vault
    i.present c.toValue (Screen.census c)
  | .createConversationsBase path source folder =>
    let f ← Session.conversationsBase i.vault path source folder
    i.present f.toValue (Screen.createdWithViews f)

end Invocation

namespace CommandLine

/-- Whether complaints are to be read by programs. The option may stand anywhere. -/
def forPrograms (arguments : List String) : Bool :=
  arguments.contains CommandGroup.errorOption.key

/-- The command line with that option in front. -/
def ordered (arguments : List String) : List String :=
  let key := CommandGroup.errorOption.key
  if arguments.contains key then key :: arguments.filter (· != key) else arguments

/-- Runs a command line in a session that is there only when a command needs it. The session is
given back if the command changed it. -/
def run (arguments : List String) (session : Except Failure Session) :
    Except Failure Outcome × Option Session :=
  let forPrograms := forPrograms arguments
  match Invocation.ofArguments (ordered arguments) with
  | .error (.shows text) => (.ok (.ofOutput (.lines [text])), none)
  | .error (.usage fault) => (.ok (.ofComplaint forPrograms (.usage fault)), none)
  | .ok i => match session with
    | .error f => (Outcome.ofFailure forPrograms f, none)
    | .ok s =>
      let (result, s) := i.perform s
      match result with
      | .ok output => (.ok (.ofOutput output), some s)
      | .error f => (Outcome.ofFailure forPrograms f, some s)

end CommandLine

end MarkdownVault
