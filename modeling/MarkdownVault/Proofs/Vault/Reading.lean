import MarkdownVault.Proofs.Result
import MarkdownVault.Session.Bases
import MarkdownVault.Session.Conversations

/-!
# What a sweep reads

A backend may change whenever it is asked, so what a sweep takes in is told by the answers that it
gets one after the other. The results of builds and sweeps are functions of these answers alone.
-/

namespace MarkdownVault

variable {σ α β : Type}

/-! ## Operations step by step -/

section Operation

variable (now : Binary64) (v : VaultOf σ)

@[simp] theorem run_pure (a : α) : (pure a : OperationM σ α) now v = (.ok a, v) := rfl

/-- An operation that failed leaves its vault behind, and nothing follows it. -/
theorem run_bind (op : OperationM σ α) (next : α → OperationM σ β) :
    (op >>= next) now v = match op now v with
      | (.ok a, v) => next a now v
      | (.error f, v) => (.error f, v) := by
  have h : (op >>= next) now v =
      ExceptT.bindCont (fun a => next a now) (op now v).1 (op now v).2 := rfl
  rw [h]
  rcases op now v with ⟨_ | _, _⟩ <;> rfl

theorem run_bind_pure (op : OperationM σ α) (f : α → β) :
    (op >>= fun a => pure (f a)) now v = ((op now v).1.map f, (op now v).2) := by
  rw [run_bind]
  rcases op now v with ⟨_ | _, _⟩ <;> rfl

@[simp] theorem run_get : (get : OperationM σ (VaultOf σ)) now v = (.ok v, v) := rfl

@[simp] theorem run_ofExcept (r : Except Failure α) :
    (MonadExcept.ofExcept r : OperationM σ α) now v = (r, v) := by cases r <;> rfl

@[simp] theorem run_attempt (op : OperationM σ α) :
    Vault.attempt op now v = (.ok (op now v).1, (op now v).2) := rfl

end Operation

/-! ## Replies -/

/-- A file, the path it was read under, and what came of it. -/
structure Reply where
  file : FileEntry
  path : String
  text : Except Failure String

/-- The reply to reading a file under the path that a rule gives it, and the backend after it. -/
def Backend.reply [Backend σ] (pathOf : FileEntry → σ → String) (f : FileEntry) (s : σ) :
    Reply × σ :=
  (⟨f, pathOf f s, (Backend.read (pathOf f s) s).1⟩, (Backend.read (pathOf f s) s).2)

/-- A backend after it has read some paths. -/
def Backend.afterReads [Backend σ] (paths : List String) (s : σ) : σ :=
  paths.foldl (fun s path => (read path s).2) s

/-- The replies to reading files one after the other. -/
def Backend.replies [Backend σ] (pathOf : FileEntry → σ → String) : List FileEntry → σ → List Reply
  | [], _ => []
  | f :: fs, s => (reply pathOf f s).1 :: replies pathOf fs (reply pathOf f s).2

theorem Backend.map_file_replies [Backend σ] (pathOf : FileEntry → σ → String)
    (fs : List FileEntry) (s : σ) : (replies pathOf fs s).map Reply.file = fs := by
  induction fs generalizing s with
  | nil => rfl
  | cons f fs ih => simp [replies, reply, ih]

namespace Reply

def isText (r : Reply) : Bool := r.text.toBool

/-- Whether a sweep gets past a reply: it may fail only in a way that is passed over, and a text
must have metadata that can be read. -/
def Passable (r : Reply) : Prop :=
  match r.text with
  | .ok content => ∃ parts, Note.frontMatterOf content = .ok parts
  | .error f => f.isSkipped

instance (r : Reply) : Decidable r.Passable :=
  match h : r.text with
  | .ok content => decidable_of_iff ((Note.frontMatterOf content).toBool) (by
      rw [toBool_iff, Passable, h])
  | .error f => decidable_of_iff f.isSkipped (by rw [Passable, h])

/-- What a reader of texts takes from a reply, nothing if it is passed over. -/
def taken (read : Reply → String → Except Yaml.Fault α) (r : Reply) : Except Failure (Option α) :=
  Failure.skipped (r.text.bind fun content => (read r content).mapError Failure.metadata)

/-- Everything that is taken from replies, unless one of them stops the sweep. -/
def glean (read : Reply → String → Except Yaml.Fault α) : List Reply → Except Failure (List α)
  | [] => .ok []
  | r :: rs => (taken read r).bind fun first => (glean read rs).map (first.toList ++ ·)

/-- A reader that asks no more of a text than metadata that can be read. -/
def OnlyMetadata (read : Reply → String → Except Yaml.Fault α) : Prop :=
  ∀ r content, (∃ x, read r content = .ok x) ↔ ∃ parts, Note.frontMatterOf content = .ok parts

variable {read : Reply → String → Except Yaml.Fault α}

theorem taken_ok_iff (h : OnlyMetadata read) (r : Reply) :
    (∃ x, taken read r = .ok x) ↔ r.Passable := by
  rcases r with ⟨file, path, f | content⟩
  · by_cases hf : f.isSkipped <;> simp [taken, Passable, Failure.skipped, Except.bind, hf]
  · have hc := h ⟨file, path, .ok content⟩ content
    cases hr : read ⟨file, path, .ok content⟩ content <;>
      simp_all [taken, Passable, Except.bind]

theorem glean_ok_iff (h : OnlyMetadata read) (rs : List Reply) :
    (∃ xs, glean read rs = .ok xs) ↔ ∀ r ∈ rs, r.Passable := by
  induction rs with
  | nil => simp [glean]
  | cons r rs ih =>
    rw [List.forall_mem_cons, ← ih, ← taken_ok_iff h r]
    cases hr : taken read r <;> cases hrs : glean read rs <;>
      simp [glean, hr, hrs, Except.bind, Except.map]

theorem taken_text {r : Reply} {first : Option α} (h : taken read r = .ok first) :
    r.isText = first.isSome ∧ ∀ x ∈ first, ∃ content, read r content = .ok x := by
  rcases r with ⟨file, path, f | content⟩
  · by_cases hf : f.isSkipped <;>
      simp_all [taken, isText, Failure.skipped, Except.bind, Except.toBool]
    cases h
    simp
  · cases hr : read ⟨file, path, .ok content⟩ content with
    | error e =>
      simp [taken, Except.bind, hr] at h
    | ok x =>
      simp only [taken, Except.bind, mapError_ok, hr, Failure.skipped_ok, Except.ok.injEq] at h
      subst h
      exact ⟨rfl, by simpa using ⟨content, hr⟩⟩

theorem glean_cons_eq_ok_iff {r : Reply} {rs : List Reply} {xs : List α} :
    glean read (r :: rs) = .ok xs ↔ ∃ first rest, taken read r = .ok first ∧
      glean read rs = .ok rest ∧ xs = first.toList ++ rest := by
  rw [glean]
  cases taken read r <;> cases glean read rs <;> simp [Except.bind, Except.map, eq_comm]

/-- What a text reads as is taken. -/
theorem mem_glean {rs : List Reply} {xs : List α} (h : glean read rs = .ok xs) {r : Reply}
    (hr : r ∈ rs) {content : String} {x : α} (htext : r.text = .ok content)
    (hx : read r content = .ok x) : x ∈ xs := by
  induction rs generalizing xs with
  | nil => cases hr
  | cons q rs ih =>
    obtain ⟨first, rest, hq, hrs, rfl⟩ := glean_cons_eq_ok_iff.1 h
    rw [List.mem_append]
    rcases List.mem_cons.1 hr with rfl | hr
    · simp only [taken, htext, Except.bind, hx, mapError_ok, Failure.skipped_ok,
        Except.ok.injEq] at hq
      simp [← hq]
    · exact .inr (ih hrs hr)

/-- What is read from a reply, if it is a text that can be read. -/
def read? (read : Reply → String → Except Yaml.Fault α) (r : Reply) : Option α :=
  r.text.toOption.bind fun content => (read r content).toOption

theorem read?_of_taken {r : Reply} {first : Option α} (h : taken read r = .ok first) :
    r.read? read = first := by
  rcases r with ⟨file, path, f | content⟩
  · by_cases hf : f.isSkipped <;> simp [taken, Failure.skipped, Except.bind, hf] at h
    rw [← h]
    rfl
  · cases hr : read ⟨file, path, .ok content⟩ content with
    | error fault => simp [taken, Except.bind, hr] at h
    | ok x =>
      simp only [taken, Except.bind, hr, mapError_ok, Failure.skipped_ok, Except.ok.injEq] at h
      simp [read?, Except.toOption, hr, ← h]

theorem eq_filterMap_of_glean {rs : List Reply} {xs : List α} (h : glean read rs = .ok xs) :
    xs = rs.filterMap (read? read) := by
  induction rs generalizing xs with
  | nil => cases h; rfl
  | cons r rs ih =>
    obtain ⟨first, rest, hr, hrs, rfl⟩ := glean_cons_eq_ok_iff.1 h
    rw [List.filterMap_cons, read?_of_taken hr, ih hrs]
    cases first <;> rfl

/-- A sweep takes one thing from every text, in order. -/
theorem map_glean {fileOf : α → FileEntry}
    (hread : ∀ r content x, read r content = .ok x → fileOf x = r.file) {rs : List Reply}
    {xs : List α} (h : glean read rs = .ok xs) :
    xs.map fileOf = (rs.filter isText).map file := by
  induction rs generalizing xs with
  | nil => simp_all [glean]
  | cons r rs ih =>
    obtain ⟨first, rest, hr, hrs, rfl⟩ := glean_cons_eq_ok_iff.1 h
    obtain ⟨htext, hfirst⟩ := taken_text hr
    cases first with
    | none => simp_all
    | some x =>
      obtain ⟨content, hx⟩ := hfirst x rfl
      simp_all [hread r content x hx]

end Reply

/-! ## Builds -/

namespace Vault

variable [Backend σ] (now : Binary64) (v : VaultOf σ)

theorem run_list (directory : Option String) :
    list directory now v = ((Backend.list now directory v.store).1,
      { v with store := (Backend.list now directory v.store).2 }) := rfl

theorem run_readText (path : String) :
    readText path now v =
      ((Backend.read path v.store).1, { v with store := (Backend.read path v.store).2 }) := rfl

/-- A build reads a file under the path that is listed. -/
def listedPath (f : FileEntry) (_ : σ) : String := f.path

def buildReader (r : Reply) (content : String) : Except Yaml.Fault ReadNote :=
  ReadNote.ofText r.file content

theorem onlyMetadata_buildReader : Reply.OnlyMetadata buildReader := by
  intro r content
  cases h : Note.frontMatterOf content <;>
    simp [buildReader, ReadNote.ofText, h, bind, Except.bind, pure, Except.pure]

theorem file_of_buildReader {r : Reply} {content : String} {n : ReadNote}
    (h : buildReader r content = .ok n) : n.file = r.file := by
  cases hf : Note.frontMatterOf content with
  | error e => simp [buildReader, ReadNote.ofText, hf, bind, Except.bind] at h
  | ok parts =>
    simp only [buildReader, ReadNote.ofText, hf, bind, Except.bind, pure, Except.pure,
      Except.ok.injEq] at h
    rw [← h]

theorem run_advance_start : advance (.start v.memo) now v =
    ((Backend.list now none v.store).1.map fun fs => (Build.start v.memo).listed fs,
      { v with store := (Backend.list now none v.store).2 }) := by
  simp only [advance, Build.start, run_bind, run_list]
  cases (Backend.list now none v.store).1 <;> rfl

theorem run_advance (start : Nat) (f : FileEntry) (fs : List FileEntry) (notes : List ReadNote) :
    advance ⟨start, some (f :: fs), notes⟩ now v =
      ((Reply.taken buildReader (Backend.reply listedPath f v.store).1).map fun note =>
          ⟨start, some fs, notes ++ note.toList⟩,
        { v with store := (Backend.reply listedPath f v.store).2 }) := by
  simp [advance, run_bind, run_readText, Build.answered, Build.next?, Build.pass, Build.taken,
    Reply.taken, buildReader, Backend.reply, listedPath]

/-- Reading all notes of a build leaves the memo alone, whatever the backend does. -/
theorem run_advanceTimes (start : Nat) (fs : List FileEntry) (notes : List ReadNote) :
    ∃ w, w.memo = v.memo ∧
      advanceTimes (fun _ => pure ()) fs.length ⟨start, some fs, notes⟩ now v =
        ((Reply.glean buildReader (Backend.replies listedPath fs v.store)).map fun taken =>
          ⟨start, some [], notes ++ taken⟩, w) := by
  induction fs generalizing v notes with
  | nil => exact ⟨v, rfl, by simp [advanceTimes, Backend.replies, Reply.glean, Except.map]⟩
  | cons f fs ih =>
    have hstep := run_advance now v start f fs notes
    simp only [Backend.replies, Reply.glean, List.length_cons, advanceTimes, Build.next?,
      Option.bind_some, List.head?_cons, run_bind, run_pure, hstep]
    cases Reply.taken buildReader (Backend.reply listedPath f v.store).1 with
    | error e => exact ⟨{ v with store := (Backend.reply listedPath f v.store).2 }, rfl, rfl⟩
    | ok first =>
      obtain ⟨w, hw, hrest⟩ := ih { v with store := (Backend.reply listedPath f v.store).2 }
        (notes ++ first.toList)
      refine ⟨w, hw, ?_⟩
      simp only [Except.map, Except.bind, hrest]
      cases Reply.glean buildReader
          (Backend.replies listedPath fs (Backend.reply listedPath f v.store).2) <;> simp

/-- The graph of a listing and of the replies to reading its notes. -/
def graphOf (listing : Except Failure (List FileEntry)) (replies : List FileEntry → List Reply) :
    Except Failure Graph :=
  listing.bind fun files =>
    (Reply.glean buildReader (replies (files.filter FileEntry.isNote))).bind fun notes =>
      match Graph.ofNotes? notes with
      | none => .error .danglingLink
      | some g => .ok g

/-- A build answers with the graph of the listing and the replies that it gets. -/
theorem result_build :
    (build now v).1 = (graphOf (Backend.list now none v.store).1 fun fs =>
        Backend.replies listedPath fs (Backend.list now none v.store).2).map
      (⟨v.memo.builds, ·⟩) := by
  simp only [build, buildWith, run_bind, run_get, run_advance_start]
  cases (Backend.list now none v.store).1 with
  | error f => rfl
  | ok files =>
    obtain ⟨w, hw, hrest⟩ := run_advanceTimes now
      { v with store := (Backend.list now none v.store).2 } v.memo.generation
      (files.filter FileEntry.isNote) []
    simp only [Except.map, Build.listed, Build.start, Option.getD_some, hrest, graphOf, Except.bind]
    cases Reply.glean buildReader (Backend.replies listedPath (files.filter FileEntry.isNote)
        (Backend.list now none v.store).2) with
    | error f => rfl
    | ok notes =>
      cases hg : Graph.ofNotes? notes <;> simp [finishBuild, Build.finish, hg, GraphMemo.finish, hw]

/-! ## Sweeps -/

/-- A sweep reads a note under the path by which the backend knows it. -/
def knownPath (f : FileEntry) (s : σ) : String := Backend.notePath f.path s

def noteReader (r : Reply) (content : String) : Except Yaml.Fault (FileEntry × Note) :=
  (Note.ofText r.path content).map fun note => (r.file, note)

theorem onlyMetadata_noteReader : Reply.OnlyMetadata noteReader := by
  intro r content
  cases h : Note.frontMatterOf content <;>
    simp [noteReader, Note.ofText, h, bind, Except.bind, pure, Except.pure, Except.map]

/-- What a sweep does with each of its files. -/
def readListed (f : FileEntry) : OperationM σ (Option (FileEntry × Note)) := do
  return (← unlessSkipped (readNote f.path)).map fun note => (f, note)

theorem run_readListed (f : FileEntry) :
    readListed f now v =
      (Reply.taken noteReader (Backend.reply knownPath f v.store).1,
        { v with store := (Backend.reply knownPath f v.store).2 }) := by
  simp only [readListed, unlessSkipped, readNote, parsed, run_bind, run_attempt, run_get,
    run_readText, run_ofExcept, run_pure, Reply.taken, noteReader, Backend.reply, knownPath]
  cases (Backend.read (Backend.notePath f.path v.store) v.store).1 with
  | error e => by_cases he : e.isSkipped <;> simp [Failure.skipped, Except.bind, he]
  | ok content =>
    cases hn : Note.ofText (Backend.notePath f.path v.store) content <;>
      simp [Except.bind, Except.map, hn]

theorem exists_run_filterMapM (fs : List FileEntry) : ∃ paths,
    fs.filterMapM (readListed (σ := σ)) now v =
      (Reply.glean noteReader (Backend.replies knownPath fs v.store),
        { v with store := Backend.afterReads paths v.store }) := by
  induction fs generalizing v with
  | nil => exact ⟨[], rfl⟩
  | cons f fs ih =>
    obtain ⟨paths, hrest⟩ := ih { v with store := (Backend.reply knownPath f v.store).2 }
    rw [List.filterMapM_cons, run_bind, run_readListed, Backend.replies, Reply.glean]
    rcases Reply.taken noteReader (Backend.reply knownPath f v.store).1 with e | _ | note
    · exact ⟨[knownPath f v.store], rfl⟩
    · refine ⟨knownPath f v.store :: paths, ?_⟩
      simp only [hrest, Except.bind]
      cases Reply.glean noteReader _ <;> rfl
    · refine ⟨knownPath f v.store :: paths, ?_⟩
      simp only [run_bind_pure, hrest, Except.bind]
      rfl

/-- A sweep answers with what it gleans from the replies that it gets, and leaves a vault whose
store has been listed and read. -/
theorem exists_run_sweep (wanted : FileEntry → Bool) : ∃ paths,
    sweep wanted now v = ((Backend.list now none v.store).1.bind fun files =>
        Reply.glean noteReader (Backend.replies knownPath
          (files.filter fun f => f.isNote && wanted f) (Backend.list now none v.store).2),
      { v with store := Backend.afterReads paths (Backend.list now none v.store).2 }) := by
  change ∃ paths, (list none >>= fun files => (files.filter fun f =>
    f.isNote && wanted f).filterMapM (readListed (σ := σ))) now v = _
  rw [run_bind, run_list]
  cases (Backend.list now none v.store).1 with
  | error e => exact ⟨[], rfl⟩
  | ok files => exact exists_run_filterMapM now _ _

theorem result_sweep (wanted : FileEntry → Bool) :
    (sweep wanted now v).1 = (Backend.list now none v.store).1.bind fun files =>
      Reply.glean noteReader (Backend.replies knownPath
        (files.filter fun f => f.isNote && wanted f) (Backend.list now none v.store).2) := by
  obtain ⟨paths, hrun⟩ := exists_run_sweep now v wanted
  rw [hrun]

end Vault

end MarkdownVault
