import MarkdownVault.Proofs.Vault.Listings
import MarkdownVault.Proofs.Vault.Path
import MarkdownVault.Proofs.Vault.Route

/-!
# Vaults on disk stay in their folder

Whatever a vault on disk is asked, the answers and the vault's new folder are told by its old
folder alone, and nothing beside this folder changes.
-/

namespace MarkdownVault

/-! ## Where paths lead -/

namespace Disk

/-- What comes of a path that is a text: the place below the vault's folder to which it leads from
there, or else a refusal. A path with a NUL character is none. -/
structure Resolves (d : Disk) (path : String) (route : Route) : Prop where
  inside : ∀ below, d.locate path = .ok below ↔ '\x00' ∉ path.toList ∧ route = d.root ++ below
  outside : d.locate path = .error (.outsideVault path d.name) ↔
    '\x00' ∉ path.toList ∧ ¬ d.root <+: route
  invalid : d.locate path = .error .badPath ↔ '\x00' ∈ path.toList

theorem resolves_follow (d : Disk) (path : String) :
    d.Resolves path (d.root.follow (Path.normalize path)) := by
  by_cases hmem : '\x00' ∈ path.toList
  · have hlocate : d.locate path = .error .badPath := by simp [locate, hmem, bind, Except.bind]
    constructor <;> simp [hlocate, hmem]
  have hencode : (path : Spelling).encode = .ok path := by simp [hmem]
  cases hbelow : Route.below? d.root (d.root.follow (Path.normalize path)) with
  | some below =>
    have hlocate : d.locate path = .ok below := by
      simp only [locate, hencode, bind, Except.bind, hbelow]
      rfl
    have hroute := Route.below?_eq_some_iff.1 hbelow
    constructor <;> simp [hlocate, hmem, hroute, eq_comm]
  | none =>
    have hlocate : d.locate path = .error (.outsideVault path d.name) := by
      simp only [locate, hencode, bind, Except.bind, hbelow]
      rfl
    have houtside : ¬ d.root <+: d.root.follow (Path.normalize path) := by
      rintro ⟨below, h⟩
      rw [Route.below?_eq_some_iff.2 h.symm] at hbelow
      cases hbelow
    refine ⟨fun below => ?_, by simp [hlocate, hmem, houtside], by simp [hlocate, hmem]⟩
    simp only [hlocate, reduceCtorEq, false_iff, not_and]
    exact fun _ h => houtside ⟨below, h.symm⟩

/-- A path that has no encoding or a NUL character is refused before it is followed. -/
theorem locate_of_encode (d : Disk) {path : Spelling} {f : Failure} (h : path.encode = .error f) :
    d.locate path = .error f := by
  rw [locate, h]
  rfl

/-- The empty path is the vault's folder, as no path is. -/
theorem locate_empty (d : Disk) : d.locate "" = .ok [] :=
  ((d.resolves_follow "").inside []).2 ⟨by decide, by rw [List.append_nil]; rfl⟩

theorem startAt_eq_locate (d : Disk) (key : String) : d.startAt key = d.locate key := by
  rw [startAt]
  split
  case isTrue hkey =>
    obtain rfl : key = "" := by simpa using hkey
    exact d.locate_empty.symm
  case isFalse => rfl

end Disk

/-! ## What is told by the vault's folder

Two trees in which the same stands at the vault's folder give the same answers.
-/

namespace Disk

variable {d : Disk} {children : List (String × Tree)} {tree : Tree}

/-- The names on the way to the vault's folder are taken. -/
theorem takes_root (d : Disk) : ∀ name ∈ d.root, d.takes name := by
  intro name hname
  simp [takes, hname]

theorem find?_of_sight (h : tree.sight d.root = d.tree.sight d.root) (route : Route) :
    tree.find? (d.root ++ route) = d.tree.find? (d.root ++ route) := by
  rw [Tree.find?_append, Tree.find?_append, Tree.find?_eq_join_sight, h, Tree.find?_eq_join_sight]

theorem refuses_of_sight (h : tree.sight d.root = d.tree.sight d.root) (route : Route) :
    refuses { d with tree } route = d.refuses route := by
  have hstumbles : tree.stumbles d.takes (d.root ++ route) =
      d.tree.stumbles d.takes (d.root ++ route) := by
    rw [Tree.stumbles_append d.takes_root, Tree.stumbles_append d.takes_root, h]
  exact congrArg (!Route.fits (d.root ++ route) || ·) hstumbles

theorem read_of_sight (h : tree.sight d.root = d.tree.sight d.root) (path : Spelling) :
    read { d with tree } path = d.read path := by
  have hlocate : locate { d with tree } path = d.locate path := rfl
  simp only [read, hlocate, Tree.read?, find?_of_sight h, absent, refuses_of_sight h]

theorem contains_of_sight (h : tree.sight d.root = d.tree.sight d.root) (path : Spelling) :
    contains { d with tree } path = d.contains path := by
  have hlocate : locate { d with tree } path = d.locate path := rfl
  simp only [contains, hlocate, isFile, Tree.read?, find?_of_sight h, refuses_of_sight h]
  rfl

theorem folderAt_of_sight (h : tree.sight d.root = d.tree.sight d.root) (key : String) :
    folderAt { d with tree } key = d.folderAt key := by
  have hstart : startAt { d with tree } key = d.startAt key := rfl
  simp only [folderAt, hstart, find?, find?_of_sight h, absent, refuses_of_sight h]

theorem folders_of_sight (h : tree.sight d.root = d.tree.sight d.root)
    (directory : Option Spelling) : folders directory { d with tree } = d.folders directory := by
  simp only [folders, folderAt_of_sight h]

theorem list_of_sight (h : tree.sight d.root = d.tree.sight d.root) (now : Binary64)
    (directory : Option Spelling) : ∃ result listings,
      d.list now directory = (result, { d with listings }) ∧
        list now directory { d with tree } = (result, { d with tree, listings }) := by
  simp only [list, folderAt_of_sight h]
  cases directoryKey directory with
  | error f => exact ⟨_, d.listings, rfl, rfl⟩
  | ok key =>
    dsimp only
    cases (d.listings.lookup key).filter (Listing.isFresh now) with
    | some kept => exact ⟨_, d.listings, rfl, rfl⟩
    | none => cases d.folderAt key <;> exact ⟨_, _, rfl, rfl⟩

/-- The disk with nothing beside the vault's folder. -/
def alone (d : Disk) (children : List (String × Tree)) : Disk :=
  { d with tree := Tree.mount (.folder children) d.root (.folder []) }

/-- Everything below the vault's folder is told by its children. -/
theorem sight_alone (h : tree.find? d.root = some (.folder children)) :
    tree.sight (d.alone children).root = (d.alone children).tree.sight (d.alone children).root :=
  (Tree.sight_of_find? h).trans (Tree.sight_of_find? (Tree.find?_mount_self _ _ _)).symm

end Disk

/-! ## Operations

The folder of a vault is given by its children. That a disk holds it says nothing of what stands
beside it.
-/

namespace Disk

/-- Listings under keys that lead somewhere in the vault. -/
def Keeps (d : Disk) (listings : List (String × Listing)) : Prop :=
  ∀ l ∈ listings, ∃ route, d.locate l.1 = .ok route

/-- A request for a listing keeps none of a folder outside the vault. -/
theorem keeps_list {d : Disk} (h : d.Keeps d.listings) (now : Binary64)
    (directory : Option Spelling) : d.Keeps (d.list now directory).2.listings := by
  generalize hlist : d.list now directory = outcome
  cases hlist ▸ lists_list now directory d with
  | invalid => exact h
  | kept => exact h
  | missing => exact h
  | shown hkey hfolder =>
    obtain ⟨hstart, -⟩ := folderAt_eq_ok_iff.1 hfolder
    rw [startAt_eq_locate] at hstart
    exact List.forall_mem_cons.2 ⟨⟨_, hstart⟩, fun l hl => h l (List.mem_filter.1 hl).1⟩

/-- A write changes the vault's folder alone, whatever stands beside it. -/
theorem write_alone (path : Spelling) (content : Loose) (d : Disk)
    (children : List (String × Tree)) : ∃ result children' listings,
      (listings = d.listings ∨ listings = []) ∧
      ∀ tree : Tree, tree.find? d.root = some (.folder children) →
        write path content { d with tree } = (result,
          { d with tree := Tree.mount (.folder children') d.root tree, listings }) := by
  have htakes (tree : Tree) : takes { d with tree } = d.takes := rfl
  cases hlocate : d.locate path with
  | error f =>
    refine ⟨.error f, children, d.listings, .inl rfl, fun tree htree => ?_⟩
    have hlocated : locate { d with tree } path = .error f := hlocate
    rw [write, hlocated, Tree.mount_of_find? htree]
  | ok route =>
    have hlocated (tree : Tree) : locate { d with tree } path = .ok route := hlocate
    obtain ⟨result, made, hopen⟩ :=
      Tree.exists_openFile_append d.takes_root d.stamp children route
    cases result with
    | error refusal =>
      refine ⟨.error .system, made, d.listings, .inl rfl, fun tree htree => ?_⟩
      simp only [write, hlocated, htakes, hopen tree htree]
    | ok =>
      cases hbytes : content.bytes? with
      | none =>
        refine ⟨.error .unencodable, made, d.listings, .inl rfl, fun tree htree => ?_⟩
        simp only [write, hlocated, htakes, hopen tree htree, hbytes]
      | some bytes =>
        obtain ⟨put, hput⟩ := Tree.exists_folder_of_putFile d.takes ⟨bytes, d.stamp⟩ route made
        refine ⟨.ok (), put, [], .inr rfl, fun tree htree => ?_⟩
        simp only [write, hlocated, htakes, hopen tree htree, hbytes, hput, Tree.mount_mount,
          Tree.putFile_append d.takes_root (Tree.find?_mount_self _ _ _)]
        rfl

end Disk

variable {α β : Type}

/-- An operation that sees and changes nothing beside the folder of a vault on disk: whatever tree
holds this folder, the result and the new folder are the same, and the rest of the tree stays. No
listing of another folder is kept. -/
def Confined (op : Disk → Except Failure α × Disk) : Prop :=
  ∀ (d : Disk) (children : List (String × Tree)),
    ∃ result children' listings, (d.Keeps d.listings → d.Keeps listings) ∧
      ∀ tree : Tree, tree.find? d.root = some (.folder children) →
        op { d with tree } = (result,
          { d with tree := Tree.mount (.folder children') d.root tree, listings })

namespace Confined

/-- An operation that changes nothing and is answered by the vault's folder. -/
theorem of_answer {answer : Disk → Except Failure α}
    (h : ∀ (d : Disk) (tree : Tree), tree.sight d.root = d.tree.sight d.root →
      answer { d with tree } = answer d) : Confined fun d => (answer d, d) := by
  intro d children
  refine ⟨answer (d.alone children), children, d.listings, id, fun tree htree => ?_⟩
  have hanswer : answer { d with tree } = answer (d.alone children) :=
    h (d.alone children) tree (Disk.sight_alone htree)
  rw [Tree.mount_of_find? htree, ← hanswer]

theorem map {op : Disk → Except Failure α × Disk} (h : Confined op) (f : α → β) :
    Confined fun d => ((op d).1.map f, (op d).2) := by
  intro d children
  obtain ⟨result, children', listings, hkept, hop⟩ := h d children
  exact ⟨result.map f, children', listings, hkept, fun tree htree => by simp only [hop tree htree]⟩

theorem list (now : Binary64) (directory : Option Spelling) :
    Confined (Disk.list now directory) := by
  intro d children
  have hkept (h : d.Keeps d.listings) :=
    Disk.keeps_list (d := d.alone children) h now directory
  refine ⟨((d.alone children).list now directory).1, children,
    ((d.alone children).list now directory).2.listings, hkept, fun tree htree => ?_⟩
  obtain ⟨result, listings, halone, hlist⟩ :=
    Disk.list_of_sight (Disk.sight_alone htree) now directory
  rw [halone, Tree.mount_of_find? htree]
  exact hlist

theorem write (path : Spelling) (content : Loose) : Confined (Disk.write path content) := by
  intro d children
  obtain ⟨result, children', listings, hlistings, hwrite⟩ :=
    Disk.write_alone path content d children
  refine ⟨result, children', listings, fun h => ?_, hwrite⟩
  rcases hlistings with rfl | rfl
  · exact h
  · exact fun l hl => (List.not_mem_nil hl).elim

end Confined

/-! ## Refusals -/

/-- A result that tells that a path leads out of the vault. -/
def LeadsOut (result : Except Failure α) : Prop :=
  ∃ path vault, result = .error (.outsideVault path vault)

namespace LeadsOut

theorem map_iff {result : Except Failure α} {f : α → β} :
    LeadsOut (result.map f) ↔ LeadsOut result := by
  cases result <;> simp [LeadsOut, Except.map]

/-- What follows once a path is located does not tell so any more. -/
theorem bind_iff {result : Except Failure α} {next : α → Except Failure β}
    (h : ∀ a, ¬ LeadsOut (next a)) : LeadsOut (result >>= next) ↔ LeadsOut result := by
  cases result with
  | error f => simp [LeadsOut, bind, Except.bind]
  | ok a => exact iff_of_false (h a) (by simp [LeadsOut])

end LeadsOut

namespace Spelling

theorem half_mem_normalize {path : Spelling} {half : Half} (h : .inr half ∈ path.units) :
    .inr half ∈ path.normalize.units := by
  let slashes (u : Char ⊕ Half) : Char ⊕ Half := if u = .inl '\\' then .inl '/' else u
  have hmem : .inr half ∈ path.units.map slashes := List.mem_map.2 ⟨.inr half, h, rfl⟩
  rw [← (path.units.map slashes).takeWhile_append_dropWhile (p := (· == .inl '/'))] at hmem
  rcases List.mem_append.1 hmem with hfront | hback
  · exact absurd (List.mem_takeWhile_imp hfront) Bool.false_ne_true
  · exact hback

theorem eq_of_units {path other : Spelling} (h : path.units = other.units) : path = other := by
  obtain ⟨⟨us⟩, _⟩ := path
  obtain ⟨⟨us'⟩, _⟩ := other
  obtain rfl : us = us' := h
  rfl

theorem normalize_ofText (s : String) : (ofText s).normalize = ofText (Path.normalize s) := by
  have hslashes : (fun u : Char ⊕ Half => if u = .inl '\\' then .inl '/' else u) ∘ Sum.inl =
      Sum.inl ∘ fun c => if c = '\\' then '/' else c := by
    funext c
    by_cases hc : c = '\\' <;> simp [hc]
  refine eq_of_units ?_
  simp only [normalize, ofText, Loose.ofText, Path.normalize, toList_mapChars, Text.replaceChar,
    List.map_map, hslashes]
  rw [← List.map_map, List.dropWhile_map]
  rfl

theorem exists_ofText_or_half (path : Spelling) :
    (∃ s, path = ofText s) ∨ path.isText = false ∧ ∃ half, .inr half ∈ path.units := by
  cases htext : path.isText with
  | true =>
    have heq : path.toLoose = .ofText path.plain := Loose.eq_ofText_plain htext
    exact .inl ⟨path.plain, eq_of_units (congrArg Loose.units heq)⟩
  | false =>
    obtain ⟨u, hu, hright⟩ := List.all_eq_false.1 htext
    cases u with
    | inl c => exact absurd rfl hright
    | inr half => exact .inr ⟨rfl, half, hu⟩

/-- A path with a half of a surrogate pair is not taken. -/
theorem exists_encode_error {path : Spelling} {half : Half} (h : .inr half ∈ path.units) :
    ∃ f, path.encode = .error f := by
  cases hencode : path.encode with
  | error f => exact ⟨f, rfl⟩
  | ok s =>
    rw [(encode_eq_ok hencode).1] at h
    simp [ofText, Loose.ofText] at h

end Spelling

namespace Disk

variable (d : Disk)

/-- Nothing is said to lead out of the vault that is no text. -/
theorem not_leadsOut_of_encode {path : Spelling} {f : Failure} (h : path.encode = .error f) :
    ¬ LeadsOut (.error f : Except Failure α) := by
  rintro ⟨path', vault, heq⟩
  cases heq
  rcases Spelling.encode_eq_error h with ⟨heq, -⟩ | ⟨heq, -⟩ <;> cases heq

theorem leadsOut_locate (path : Spelling) : LeadsOut (d.locate path) ↔
    d.locate path = .error (.outsideVault path.plain d.name) := by
  refine ⟨fun hout => ?_, fun h => ⟨path.plain, d.name, h⟩⟩
  cases hencode : path.encode with
  | error f =>
    rw [d.locate_of_encode hencode] at hout
    exact absurd hout (not_leadsOut_of_encode hencode)
  | ok s =>
    obtain ⟨rfl, hnul⟩ := Spelling.encode_eq_ok hencode
    obtain ⟨inside, outside, -⟩ := d.resolves_follow s
    obtain ⟨path', vault, hlocate⟩ := hout
    rw [Spelling.plain_ofText]
    refine outside.2 ⟨hnul, ?_⟩
    rintro ⟨below, hroute⟩
    rw [(inside below).2 ⟨hnul, hroute.symm⟩] at hlocate
    cases hlocate

theorem not_leadsOut_absent (route : Route) (resource detail : String) :
    ¬ LeadsOut (.error (d.absent route (.notFound resource detail)) : Except Failure α) := by
  rintro ⟨path, vault, h⟩
  rw [absent] at h
  split at h <;> cases h

theorem leadsOut_read (path : Spelling) : LeadsOut (d.read path) ↔ LeadsOut (d.locate path) := by
  refine LeadsOut.bind_iff fun route => ?_
  split
  · exact d.not_leadsOut_absent route _ _
  · rintro ⟨_, _, h⟩
    split at h <;> cases h

theorem leadsOut_readNote (path : Spelling) :
    LeadsOut (d.readNote path) ↔ LeadsOut (d.locate path.normalize) := by
  refine (LeadsOut.bind_iff fun content => ?_).trans (d.leadsOut_read path.normalize)
  cases Note.ofText path.normalize.plain content <;> simp [LeadsOut]

theorem leadsOut_write (path : Spelling) (content : Loose) :
    LeadsOut (d.write path content).1 ↔ LeadsOut (d.locate path) := by
  generalize hwrite : d.write path content = outcome
  cases hwrite ▸ writes_write path content d with
  | refused hlocate | unopened hlocate | emptied hlocate | written hlocate =>
    rw [hlocate]
    simp [LeadsOut]

theorem leadsOut_contains (path : Spelling) :
    LeadsOut (d.contains path) ↔ LeadsOut (d.locate path) := by
  refine LeadsOut.bind_iff fun route => ?_
  split
  · rintro ⟨_, _, h⟩
    cases h
  · rintro ⟨_, _, h⟩
    split at h <;> cases h

theorem leadsOut_folderAt (key : String) :
    LeadsOut (d.folderAt key) ↔ LeadsOut (d.locate key) := by
  rw [← startAt_eq_locate]
  refine LeadsOut.bind_iff fun route => ?_
  split
  · rintro ⟨_, _, h⟩
    cases h
  · exact d.not_leadsOut_absent route _ _

/-- The path that a listing is about. -/
def listedPath (directory : Option Spelling) : Spelling :=
  (directory.map Spelling.normalize).getD ""

theorem leadsOut_directoryKey (directory : Option Spelling) :
    LeadsOut (directoryKey directory >>= fun key => d.locate key) ↔
      LeadsOut (d.locate (listedPath directory)) := by
  cases directory with
  | none => rfl
  | some path =>
    rcases path.exists_ofText_or_half with ⟨s, rfl⟩ | ⟨htext, half, hhalf⟩
    · have hkey : directoryKey (some (s : Spelling)) = .ok (Path.normalize s) := by
        rw [directoryKey, Spelling.text_ofText]
        rfl
      rw [listedPath, Option.map_some, Option.getD_some, Spelling.normalize_ofText]
      simp only [hkey, bind, Except.bind]
    · obtain ⟨f, hencode⟩ := Spelling.exists_encode_error hhalf
      obtain ⟨g, hnormal⟩ := Spelling.exists_encode_error (Spelling.half_mem_normalize hhalf)
      have hkey : directoryKey (some path) = .error f := by
        rw [directoryKey, Spelling.text, htext, if_neg Bool.false_ne_true, hencode]
        rfl
      have hbind : (directoryKey (some path) >>= fun key => d.locate key) = .error f := by
        rw [hkey]
        rfl
      rw [hbind, listedPath, Option.map_some, Option.getD_some, d.locate_of_encode hnormal]
      exact iff_of_false (not_leadsOut_of_encode hencode) (not_leadsOut_of_encode hnormal)

theorem leadsOut_folders (directory : Option Spelling) :
    LeadsOut (d.folders directory) ↔ LeadsOut (d.locate (listedPath directory)) := by
  rw [← leadsOut_directoryKey, folders]
  cases directoryKey directory with
  | error f => simp [LeadsOut, bind, Except.bind]
  | ok key =>
    refine Iff.trans ?_ (d.leadsOut_folderAt key)
    show LeadsOut (d.folderAt key >>= _) ↔ LeadsOut (d.folderAt key)
    refine LeadsOut.bind_iff fun found => ?_
    rintro ⟨_, _, h⟩
    cases h

variable {d} in
theorem leadsOut_list (h : d.Keeps d.listings) (now : Binary64) (directory : Option Spelling) :
    LeadsOut (d.list now directory).1 ↔ LeadsOut (d.locate (listedPath directory)) := by
  rw [← leadsOut_directoryKey]
  generalize hlist : d.list now directory = outcome
  cases hlist ▸ lists_list now directory d with
  | invalid hkey =>
    rw [hkey]
    simp [LeadsOut, bind, Except.bind]
  | @kept key l hkey hkept =>
    obtain ⟨route, hlocate⟩ := h _ hkept
    rw [hkey]
    simp [LeadsOut, bind, Except.bind, hlocate]
  | missing hkey hfolder | shown hkey hfolder =>
    rw [hkey]
    refine Iff.trans ?_ (d.leadsOut_folderAt _)
    rw [hfolder]
    simp [LeadsOut]

end Disk

/-! ## Runs -/

/-- What a vault on disk can be asked. -/
inductive Request where
  | text (path : Spelling)
  | note (path : Spelling)
  | write (path : Spelling) (content : Loose)
  | contains (path : Spelling)
  | list (directory : Option Spelling)
  | folders (directory : Option Spelling)

/-- What a request comes to if it does not fail. -/
inductive Answer where
  | text (content : String)
  | note (note : Note)
  | written
  | contains (found : Bool)
  | files (files : List FileEntry)
  | folders (folders : List String)

namespace Request

def run (now : Binary64) : Request → Disk → Except Failure Answer × Disk
  | .text path, d => ((d.read path).map .text, d)
  | .note path, d => ((d.readNote path).map .note, d)
  | .write path content, d =>
    ((d.write path content).1.map fun _ => .written, (d.write path content).2)
  | .contains path, d => ((d.contains path).map .contains, d)
  | .list directory, d => ((d.list now directory).1.map .files, (d.list now directory).2)
  | .folders directory, d => ((d.folders directory).map .folders, d)

/-- The path that a request is about. -/
def path : Request → Spelling
  | .text path | .write path _ | .contains path => path
  | .note path => path.normalize
  | .list directory | .folders directory => Disk.listedPath directory

/-- The answers to requests one after the other, each at its time, and the vault that is left. -/
def runAll : List (Binary64 × Request) → Disk → List (Except Failure Answer) × Disk
  | [], d => ([], d)
  | (now, request) :: requests, d =>
    let (answer, d) := request.run now d
    let (answers, d) := runAll requests d
    (answer :: answers, d)

theorem confined_run (now : Binary64) (request : Request) : Confined (request.run now) := by
  cases request with
  | text path => exact (Confined.of_answer fun d tree h => d.read_of_sight h path).map _
  | note path =>
    have hnote : Confined fun d => (Disk.readNote path d, d) :=
      Confined.of_answer fun d tree h => by rw [Disk.readNote, Disk.readNote, d.read_of_sight h]
    exact hnote.map _
  | write path content => exact (Confined.write path content).map _
  | contains path => exact (Confined.of_answer fun d tree h => d.contains_of_sight h path).map _
  | list directory => exact (Confined.list now directory).map _
  | folders directory =>
    exact (Confined.of_answer fun d tree h => d.folders_of_sight h directory).map _

/-- A request is refused exactly if its path leads out of the vault. -/
theorem leadsOut_run {d : Disk} (h : d.Keeps d.listings) (now : Binary64) (request : Request) :
    LeadsOut (request.run now d).1 ↔ LeadsOut (d.locate request.path) := by
  cases request with
  | text path => exact LeadsOut.map_iff.trans (d.leadsOut_read path)
  | note path => exact LeadsOut.map_iff.trans (d.leadsOut_readNote path)
  | write path content => exact LeadsOut.map_iff.trans (d.leadsOut_write path content)
  | contains path => exact LeadsOut.map_iff.trans (d.leadsOut_contains path)
  | list directory => exact LeadsOut.map_iff.trans (Disk.leadsOut_list h now directory)
  | folders directory => exact LeadsOut.map_iff.trans (d.leadsOut_folders directory)

theorem runAll_alone (requests : List (Binary64 × Request)) (d : Disk)
    (children : List (String × Tree)) :
    ∃ answers children' listings, (d.Keeps d.listings → d.Keeps listings) ∧
      ∀ tree : Tree, tree.find? d.root = some (.folder children) →
        runAll requests { d with tree } = (answers, { d with
          tree := Tree.mount (.folder children') d.root tree
          listings }) := by
  induction requests generalizing d children with
  | nil =>
    refine ⟨[], children, d.listings, id, fun tree htree => ?_⟩
    rw [runAll, Tree.mount_of_find? htree]
  | cons request requests ih =>
    obtain ⟨now, request⟩ := request
    obtain ⟨answer, children', listings, hkept, hrun⟩ := request.confined_run now d children
    obtain ⟨answers, children'', listings', hkept', hrest⟩ := ih { d with listings } children'
    refine ⟨answer :: answers, children'', listings', hkept' ∘ hkept, fun tree htree => ?_⟩
    have hrest := hrest _ (Tree.find?_mount_self (.folder children') d.root tree)
    simp only [runAll, hrun tree htree, hrest, Tree.mount_mount]

end Request

/-- A vault on disk whose folder is there, and whose listings are of folders in it. -/
structure Disk.Rooted (d : Disk) : Prop where
  names : ∀ name ∈ d.root, Route.IsName name
  folder : ∃ children, d.tree.find? d.root = some (.folder children)
  kept : d.Keeps d.listings

/-- A path that is a text without NUL characters leads where the normal form of the folder's route
with the parts of the path behind it says, and it is said to lead out of the vault exactly where
that is not below the folder. Any other path is refused in another way. A request is refused as its
path is. So the answers to any requests are told by the vault's folder alone, and nothing but this
folder is another one afterwards. -/
theorem Disk.Rooted.requests_confined {d : Disk} (h : d.Rooted) :
    (∀ path : String, ∃ route, d.Resolves path route ∧
      ∀ r, Route.Normalizes (d.root ++ Route.pieces (Path.normalize path)) r ↔ r = route) ∧
    (∀ path half, .inr half ∈ path.units →
      d.locate path = .error .badPath ∨ d.locate path = .error .unencodable) ∧
    (∀ now (request : Request), LeadsOut (request.run now d).1 ↔
      d.locate request.path = .error (.outsideVault request.path.plain d.name)) ∧
    ∀ requests, ∃ answers children listings,
      Rooted { d with tree := Tree.mount (.folder children) d.root d.tree, listings } ∧
      ∀ tree : Tree, tree.find? d.root = d.tree.find? d.root →
        Request.runAll requests { d with tree } = (answers,
          { d with tree := Tree.mount (.folder children) d.root tree, listings }) := by
  refine ⟨fun path => ?_, fun path half hhalf => ?_, fun now request => ?_, fun requests => ?_⟩
  · exact ⟨_, d.resolves_follow path, Route.normalizes_follow h.names _⟩
  · obtain ⟨f, hencode⟩ := Spelling.exists_encode_error hhalf
    rw [d.locate_of_encode hencode]
    rcases Spelling.encode_eq_error hencode with ⟨rfl, -⟩ | ⟨rfl, -⟩
    · exact .inl rfl
    · exact .inr rfl
  · exact (request.leadsOut_run h.kept now).trans (d.leadsOut_locate _)
  · obtain ⟨children, hfolder⟩ := h.folder
    obtain ⟨answers, children', listings, hkept, hrun⟩ := Request.runAll_alone requests d children
    rw [hfolder]
    exact ⟨answers, children', listings,
      ⟨h.names, ⟨children', Tree.find?_mount_self _ _ _⟩, hkept h.kept⟩, hrun⟩

/-- A vault beside a folder whose name begins with the name of the vault's own. -/
def Disk.besideNamesake : Disk where
  name := "main"
  root := ["notes"]
  tree := .folder [("notes", .folder [("a.md", .file ⟨"x".toUTF8, .zero false⟩)]),
    ("notes2", .folder [("b.md", .file ⟨"y".toUTF8, .zero false⟩)])]
  stamp := .zero false
  listings := []

theorem Disk.rooted_besideNamesake : besideNamesake.Rooted where
  names := by decide
  folder := ⟨_, rfl⟩
  kept := fun _ hl => (List.not_mem_nil hl).elim

theorem Disk.Rooted.requests_confined_namesake :
    Disk.besideNamesake.Rooted ∧
      Disk.besideNamesake.locate "/sub\\..\\../notes2/b.md" =
        .error (.outsideVault "/sub\\..\\../notes2/b.md" "main") ∧
      ∃ answers children listings, Request.runAll
        [(.zero false, .write "../notes2/b.md" "z"), (.zero false, .text "../notes/a.md")]
        Disk.besideNamesake = (answers, { Disk.besideNamesake with
          tree := Tree.mount (.folder children) ["notes"] Disk.besideNamesake.tree
          listings }) := by
  obtain ⟨hpaths, -, -, hrequests⟩ :=
    Disk.Rooted.requests_confined Disk.rooted_besideNamesake
  refine ⟨Disk.rooted_besideNamesake, ?_, ?_⟩
  · obtain ⟨route, hresolves, hnormal⟩ := hpaths "/sub\\..\\../notes2/b.md"
    have hroute : ["notes2", "b.md"] = route :=
      (hnormal _).1 (Route.normalizes_iff.2 (by decide +kernel))
    subst hroute
    exact hresolves.outside.2 ⟨by decide +kernel, by decide +kernel⟩
  · obtain ⟨answers, children, listings, -, h⟩ := hrequests
      [(.zero false, .write "../notes2/b.md" "z"), (.zero false, .text "../notes/a.md")]
    have hsame : { Disk.besideNamesake with tree := Disk.besideNamesake.tree } =
      Disk.besideNamesake := rfl
    have hrun := h Disk.besideNamesake.tree rfl
    rw [hsame] at hrun
    exact ⟨answers, children, listings, hrun⟩

/-- A path with a NUL character leads out of the vault and is refused in another way. -/
theorem Disk.locate_nul_outside :
    Route.Normalizes (besideNamesake.root ++ Route.pieces (Path.normalize "../\x00")) ["\x00"] ∧
      ¬ ((∃ path vault, besideNamesake.locate "../\x00" = .error (.outsideVault path vault)) ↔
        ¬ besideNamesake.root <+: ["\x00"]) := by
  have hlocate : besideNamesake.locate "../\x00" = .error .badPath :=
    (resolves_follow besideNamesake "../\x00").invalid.2 (by decide +kernel)
  refine ⟨Route.normalizes_iff.2 (by decide +kernel), fun h => ?_⟩
  obtain ⟨path, vault, houtside⟩ := h.2 (by decide +kernel)
  rw [hlocate] at houtside
  cases houtside

end MarkdownVault
