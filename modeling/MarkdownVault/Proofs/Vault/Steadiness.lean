import MarkdownVault.Proofs.Graph.Schedule
import MarkdownVault.Proofs.Vault.Listings
import MarkdownVault.Proofs.Vault.Path

/-!
# Backends that reading does not change

What a sweep reads is told by a function from paths to answers where no answer depends on what was
read before. Stores and files that stay as they are are of this kind.
-/

namespace MarkdownVault

variable {σ : Type} [Backend σ]

/-- A reply that does not depend on the backend. -/
def Reply.fixed (place : String → String) (text : String → Except Failure String)
    (f : FileEntry) : Reply :=
  ⟨f, place f.path, text (place f.path)⟩

namespace Backend

/-- Whatever was read before, reading a path comes to `text` and a note is known under `known`. -/
structure Steady (known : String → String) (text : String → Except Failure String) (s : σ) :
    Prop where
  answer : ∀ paths path, (read path (afterReads paths s)).1 = text path
  place : ∀ paths path, notePath path (afterReads paths s) = known path

namespace Steady

variable {known : String → String} {text : String → Except Failure String} {s : σ}

theorem afterRead (h : Steady known text s) (path : String) :
    Steady known text (read path s).2 where
  answer paths := h.answer (path :: paths)
  place paths := h.place (path :: paths)

/-- Where the rule for paths does not look at what was read, neither do the replies. -/
theorem replies_eq_map {pathOf : FileEntry → σ → String} {place : String → String}
    (h : Steady known text s)
    (hplace : ∀ paths f, pathOf f (afterReads paths s) = place f.path) (fs : List FileEntry) :
    replies pathOf fs s = fs.map (Reply.fixed place text) := by
  induction fs generalizing s with
  | nil => rfl
  | cons f fs ih =>
    have hpath : pathOf f s = place f.path := hplace [] f
    have hread : (read (place f.path) s).1 = text (place f.path) := h.answer [] _
    have hrest : replies pathOf fs (reply pathOf f s).2 = fs.map (Reply.fixed place text) :=
      ih (h.afterRead _) fun paths => hplace (pathOf f s :: paths)
    rw [replies, hrest, List.map_cons]
    simp only [reply, Reply.fixed, hpath, hread]

theorem replies_listedPath (h : Steady known text s) (fs : List FileEntry) :
    replies Vault.listedPath fs s = fs.map (Reply.fixed id text) :=
  h.replies_eq_map (fun _ _ => rfl) fs

theorem replies_knownPath (h : Steady known text s) (fs : List FileEntry) :
    replies Vault.knownPath fs s = fs.map (Reply.fixed known text) :=
  h.replies_eq_map (fun paths f => h.place paths f.path) fs

end Steady

end Backend

/-- A vault that lists some files at a time and from then on answers every read alike. -/
structure VaultOf.Shows (now : Binary64) (known : String → String)
    (text : String → Except Failure String) (files : List FileEntry) (v : VaultOf σ) : Prop where
  listing : (Backend.list now none v.store).1 = .ok files
  steady : Backend.Steady known text (Backend.list now none v.store).2

namespace VaultOf.Shows

variable {now : Binary64} {known : String → String} {text : String → Except Failure String}
  {files : List FileEntry} {v : VaultOf σ}

theorem result_build (h : v.Shows now known text files) :
    (Vault.build now v).1.map Snapshot.graph =
      Vault.graphOf (.ok files) fun fs => fs.map (Reply.fixed id text) := by
  rw [Vault.result_build, h.listing]
  simp only [h.steady.replies_listedPath]
  cases Vault.graphOf (.ok files) fun fs => fs.map (Reply.fixed id text) <;> rfl

theorem result_sweep (h : v.Shows now known text files) (wanted : FileEntry → Bool) :
    (Vault.sweep wanted now v).1 = Reply.glean Vault.noteReader
      ((files.filter fun f => f.isNote && wanted f).map (Reply.fixed known text)) := by
  rw [Vault.result_sweep, h.listing]
  simp only [Except.bind, h.steady.replies_knownPath]

end VaultOf.Shows

/-! ## Stores -/

theorem Files.steady (files : Files) : Backend.Steady id files.text files := by
  have h (paths : List String) : Backend.afterReads paths files = files := by
    induction paths with
    | nil => rfl
    | cons path paths ih => exact ih
  constructor
  · exact fun paths path => by rw [h]; rfl
  · exact fun paths path => by rw [h]; rfl

namespace Store

open Backend (afterReads)

theorem afterReads_disk (paths : List String) (d : Disk) : afterReads paths (disk d) = disk d := by
  induction paths with
  | nil => rfl
  | cons path paths ih => exact ih

theorem exists_afterReads_memory (paths : List String) (m : Memory) :
    ∃ reads, afterReads paths (memory m) = memory { m with reads } := by
  induction paths generalizing m with
  | nil => exact ⟨m.reads, rfl⟩
  | cons path paths ih => exact ih { m with reads := path :: m.reads }

/-- A store answers the same whatever was read before: marks of reads are not looked at. -/
theorem steady (s : Store) : Backend.Steady s.notePath (fun path => (s.read path).1) s := by
  cases s with
  | disk d =>
    constructor
    · exact fun paths path => by rw [afterReads_disk]; rfl
    · exact fun paths path => by rw [afterReads_disk]; rfl
  | memory m =>
    constructor
    · intro paths path
      obtain ⟨reads, h⟩ := exists_afterReads_memory paths m
      rw [h]
      rfl
    · intro paths path
      obtain ⟨reads, h⟩ := exists_afterReads_memory paths m
      rw [h]
      rfl

/-- The path under which a note is known leads to the same text, or is passed over as well. -/
theorem skipped_read_notePath (s : Store) (path : String) :
    Failure.skipped (s.read (s.notePath path)).1 = Failure.skipped (s.read path).1 := by
  cases s with
  | memory m => rfl
  | disk d =>
    have hnul : (Path.normalize path).toList.contains '\x00' = path.toList.contains '\x00' := by
      rw [Bool.eq_iff_iff, List.contains_iff_mem, List.contains_iff_mem]
      exact Path.mem_normalize (by decide) (by decide) path
    simp only [read, notePath, Disk.read, Disk.locate, Spelling.encode_ofText, Spelling.plain_ofText,
      hnul, Path.normalize_normalize]
    split
    case isTrue => rfl
    case isFalse =>
      simp only [bind, Except.bind, Path.normalize_normalize]
      cases Route.below? d.root (d.root.follow (Path.normalize path)) <;> rfl

end Store

/-! ## Sweeping again -/

namespace Store

open Backend (afterReads)

variable {now : Binary64}

/-- At a time both stores list the same files and answer every read alike. -/
structure SameAt (now : Binary64) (s s' : Store) : Prop where
  listing : (list now none s').1 = (list now none s).1
  text : ∀ path, (s'.read path).1 = (s.read path).1
  place : ∀ path, s'.notePath path = s.notePath path

/-- A listing that was just made is used again, or made again from the same files. -/
theorem sameAt_list_disk (now : Binary64) (d : Disk) :
    SameAt now (disk d) (disk (d.list now none).2) := by
  have hagain : ((d.list now none).2.list now none).1 = (d.list now none).1 := by
    generalize hlist : d.list now none = outcome
    cases hlist ▸ Disk.lists_list now none d with
    | invalid => exact congrArg Prod.fst hlist
    | kept => exact congrArg Prod.fst hlist
    | missing => exact congrArg Prod.fst hlist
    | @shown key found hkey hfound =>
      have hlookup (l : Listing) : (d.keep key l).listings.lookup key = some l :=
        List.lookup_cons_self
      have hfolder (l : Listing) : (d.keep key l).folderAt key = .ok found := hfound
      simp only [Disk.list, hkey, hlookup, Option.filter_some, hfolder]
      split_ifs <;> rfl
  have hread (path : String) : (d.list now none).2.read path = d.read path := by
    generalize hlist : d.list now none = outcome
    cases hlist ▸ Disk.lists_list now none d <;> rfl
  exact ⟨hagain, hread, fun _ => rfl⟩

theorem sameAt_swept (now : Binary64) (paths : List String) (s : Store) :
    SameAt now s (afterReads paths (list now none s).2) := by
  cases s with
  | disk d =>
    have hstore : (list now none (disk d)).2 = disk (d.list now none).2 := rfl
    rw [hstore, afterReads_disk]
    exact sameAt_list_disk now d
  | memory m =>
    have hstore : (list now none (memory m)).2 = memory m := rfl
    obtain ⟨reads, h⟩ := exists_afterReads_memory paths m
    rw [hstore, h]
    exact ⟨rfl, fun _ => rfl, fun _ => rfl⟩

end Store

/-- A sweep is told by the listing at that time and by what every path is read as. -/
theorem Vault.result_sweep_store (now : Binary64) (v : Vault) (wanted : FileEntry → Bool) :
    (sweep wanted now v).1 = (v.store.list now none).1.bind fun files =>
      Reply.glean noteReader ((files.filter fun f => f.isNote && wanted f).map
        (Reply.fixed v.store.notePath fun path => (v.store.read path).1)) := by
  have hsame : v.store.SameAt now (v.store.list now none).2 := Store.sameAt_swept now [] v.store
  have hsteady := Store.steady (v.store.list now none).2
  rw [funext hsame.text, funext hsame.place] at hsteady
  have hlist : Backend.list now none v.store = v.store.list now none := rfl
  rw [result_sweep, hlist]
  simp only [hsteady.replies_knownPath]

/-- A sweep that comes right after another one reads the same. -/
theorem Vault.sweep_again (now : Binary64) (v : Vault) (before wanted : FileEntry → Bool) :
    (sweep wanted now (sweep before now v).2).1 = (sweep wanted now v).1 := by
  obtain ⟨paths, hrun⟩ := exists_run_sweep now v before
  have hsame : v.store.SameAt now (sweep before now v).2.store := by
    rw [hrun]
    exact Store.sameAt_swept now paths v.store
  have htext : (fun path => ((sweep before now v).2.store.read path).1) =
      fun path => (v.store.read path).1 := funext hsame.text
  have hplace : (sweep before now v).2.store.notePath = v.store.notePath := funext hsame.place
  rw [result_sweep_store, result_sweep_store, hsame.listing, htext, hplace]

end MarkdownVault
