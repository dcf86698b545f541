import MarkdownVault.Proofs.Ranking
import MarkdownVault.Proofs.Vault.Tree

/-!
# Listings are complete

A listing of a vault on disk shows every file that no name hides, once, in the order of the paths.
A folder's own listing shows those whose paths are below the folder's path, and the listing of
folders shows the folders that are on the way to them.
-/

namespace MarkdownVault

/-- A vault on disk in a tree as a file system keeps it, whose folder is there. -/
structure Disk.Proper (d : Disk) : Prop where
  tree : d.tree.Proper
  folder : ∃ children, d.tree.find? d.root = some (.folder children)

variable {d : Disk} {children cs : List (String × Tree)} {start route : Route} {data : FileData}
  {f : FileEntry} {dir path : String}

/-! ## What a folder lists -/

namespace Disk

theorem path_entryAt (start : Route) (f : Route × FileData) :
    (entryAt start f).path = (start ++ f.1).text := by
  rw [entryAt, entryOf]
  split <;> rfl

/-- A file below a folder is listed for the folder as it is for the whole vault. -/
theorem entryAt_append {start below : Route} (hne : below ≠ []) (data : FileData) :
    entryAt [] (start ++ below, data) = entryAt start (below, data) := by
  have hlast : (start ++ below).getLastD "" = below.getLastD "" := by
    rw [List.getLastD_eq_getLast?, List.getLastD_eq_getLast?, List.getLast?_append_of_ne_nil _ hne]
  rw [entryAt, entryAt, List.nil_append, hlast]

end Disk

namespace Tree.Proper

/-- The route to a file in a folder has names, none of them with a slash. -/
theorem of_read? (h : (Tree.folder children).Proper)
    (hread : (Tree.folder children).read? route = some data) :
    route ≠ [] ∧ ∀ name ∈ route, '/' ∉ name.toList := by
  constructor
  · rintro rfl
    cases hread
  · rw [read?_eq_bind, Option.bind_eq_some_iff] at hread
    obtain ⟨u, hfind, -⟩ := hread
    exact fun name hname => ((h.of_find? hfind).2 name hname).noSlash

theorem mem_filesBelow_iff {folder : Tree} (h : folder.Proper) :
    f ∈ Disk.filesBelow start folder ↔ ∃ route data, folder.read? route = some data ∧
      route.Visible ∧ f = Disk.entryAt start (route, data) := by
  rw [Disk.filesBelow, List.mem_mergeSort, List.mem_map]
  constructor
  · rintro ⟨⟨route, data⟩, hfile, rfl⟩
    obtain ⟨hread, hvisible⟩ := h.mem_files_iff.1 hfile
    exact ⟨route, data, hread, hvisible, rfl⟩
  · rintro ⟨route, data, hread, hvisible, rfl⟩
    exact ⟨(route, data), h.mem_files_iff.2 ⟨hread, hvisible⟩, rfl⟩

/-- A path is listed if it leads to a file by names that are not passed over. -/
theorem mem_paths_filesBelow_iff (h : (Tree.folder children).Proper) :
    path ∈ (Disk.filesBelow [] (.folder children)).map FileEntry.path ↔
      Route.Visible (Route.pieces path) ∧
        ∃ data, (Tree.folder children).read? (Route.pieces path) = some data := by
  rw [List.mem_map]
  constructor
  · rintro ⟨f, hf, rfl⟩
    obtain ⟨route, data, hread, hvisible, rfl⟩ := h.mem_filesBelow_iff.1 hf
    obtain ⟨hne, hslash⟩ := h.of_read? hread
    rw [Disk.path_entryAt, List.nil_append, Route.pieces_text hne hslash]
    exact ⟨hvisible, data, hread⟩
  · rintro ⟨hvisible, data, hread⟩
    refine ⟨_, h.mem_filesBelow_iff.2 ⟨_, data, hread, hvisible, rfl⟩, ?_⟩
    rw [Disk.path_entryAt, List.nil_append, Route.text_pieces]

/-- Files in different places have different paths. -/
theorem pairwise_filesBelow (h : (Tree.folder children).Proper)
    (hstart : ∀ name ∈ start, '/' ∉ name.toList) :
    (Disk.filesBelow start (.folder children)).Pairwise fun f g => f.path < g.path := by
  refine Sorting.pairwise_lt_mergeSort (List.pairwise_map.2 ?_)
  refine h.pairwise_files.imp_of_mem fun {f g} hf hg hne => ?_
  obtain ⟨hf, hfnames⟩ := h.of_read? (h.mem_files_iff.1 hf).1
  obtain ⟨hg, hgnames⟩ := h.of_read? (h.mem_files_iff.1 hg).1
  rw [Disk.path_entryAt, Disk.path_entryAt, Ne, Route.text_inj (by simp [hf]) (by simp [hg]),
    List.append_cancel_left_eq]
  · exact hne
  · exact List.forall_mem_append.2 ⟨hstart, hfnames⟩
  · exact List.forall_mem_append.2 ⟨hstart, hgnames⟩

/-- Of the files in a folder those are below another folder whose paths begin with its path. -/
theorem filter_filesBelow {above : Route} (h : (Tree.folder children).Proper) (hne : above ≠ [])
    (hfind : (Tree.folder children).find? above = some (.folder cs)) (hvisible : above.Visible) :
    (Disk.filesBelow [] (.folder children)).filter
      (fun f => startsWith f.path (above.text ++ "/")) = Disk.filesBelow above (.folder cs) := by
  obtain ⟨hcs, habove⟩ := h.of_find? hfind
  have hslash : ∀ name ∈ above, '/' ∉ name.toList := fun name hname => (habove name hname).noSlash
  have hirrefl : Std.Irrefl fun f g : FileEntry => f.path < g.path := ⟨fun f => lt_irrefl f.path⟩
  have hantisymm : Std.Antisymm fun f g : FileEntry => f.path < g.path :=
    ⟨fun f g hfg hgf => absurd hgf (lt_asymm hfg)⟩
  have hread (below : Route) : (Tree.folder children).read? (above ++ below) =
      (Tree.folder cs).read? below := by
    rw [read?_eq_bind, read?_eq_bind, find?_append, hfind, Option.bind_some]
  refine List.Pairwise.eq_of_mem_iff ((h.pairwise_filesBelow (by simp)).filter _)
    (hcs.pairwise_filesBelow hslash) fun f => ?_
  rw [List.mem_filter, h.mem_filesBelow_iff, hcs.mem_filesBelow_iff]
  constructor
  · rintro ⟨⟨route, data, hfile, hroute, rfl⟩, hstarts⟩
    obtain ⟨hroute', hnames⟩ := h.of_read? hfile
    rw [Disk.path_entryAt, List.nil_append, Route.startsWith_folder_iff,
      Route.pieces_text hroute' hnames, Route.pieces_text hne hslash] at hstarts
    obtain ⟨below, hbelow, rfl⟩ := hstarts
    exact ⟨below, data, (hread below).symm.trans hfile, (List.forall_mem_append.1 hroute).2,
      Disk.entryAt_append hbelow data⟩
  · rintro ⟨below, data, hfile, hbelow, rfl⟩
    have hbelow' := (hcs.of_read? hfile).1
    rw [← hread] at hfile
    obtain ⟨hroute, hnames⟩ := h.of_read? hfile
    refine ⟨⟨_, data, hfile, List.forall_mem_append.2 ⟨hvisible, hbelow⟩,
      (Disk.entryAt_append hbelow' data).symm⟩, ?_⟩
    rw [Disk.path_entryAt, Route.startsWith_folder_iff, Route.pieces_text hroute hnames,
      Route.pieces_text hne hslash]
    exact ⟨below, hbelow', rfl⟩

/-- The folders that a folder shows, by their paths. -/
theorem mem_texts_folders_iff (h : (Tree.folder children).Proper) :
    dir ∈ (Tree.folder children).folders.map Route.text ↔ Route.Visible (Route.pieces dir) ∧
      ∃ cs, (Tree.folder children).find? (Route.pieces dir) = some (.folder cs) := by
  rw [List.mem_map]
  constructor
  · rintro ⟨route, hroute, rfl⟩
    obtain ⟨hne, hvisible, cs, hfind⟩ := h.mem_folders_iff.1 hroute
    rw [Route.pieces_text hne fun name hname => ((h.of_find? hfind).2 name hname).noSlash]
    exact ⟨hvisible, cs, hfind⟩
  · rintro ⟨hvisible, cs, hfind⟩
    exact ⟨Route.pieces dir, h.mem_folders_iff.2 ⟨Route.pieces_ne_nil dir, hvisible, cs, hfind⟩,
      Route.text_pieces dir⟩

theorem nodup_texts_folders (h : (Tree.folder children).Proper) :
    ((Tree.folder children).folders.map Route.text).Nodup := by
  refine (List.nodup_map_iff_inj_on (List.nodup_cons.1 h.nodup_cons_folders).2).2 ?_
  intro route hroute other hother htext
  obtain ⟨hne, -, _, hfind⟩ := h.mem_folders_iff.1 hroute
  obtain ⟨hne', -, _, hfind'⟩ := h.mem_folders_iff.1 hother
  exact (Route.text_inj hne hne' (fun name hname => ((h.of_find? hfind).2 name hname).noSlash)
    fun name hname => ((h.of_find? hfind').2 name hname).noSlash).1 htext

end Tree.Proper

/-! ## What a vault lists -/

namespace Disk

/-- A listing that is not kept is made of what the folder holds. -/
theorem list_dropListings (d : Disk) (now : Binary64) {directory : Option Spelling} {key : String}
    (h : directoryKey directory = .ok key) : (d.dropListings.list now directory).1 =
      (d.folderAt key).map fun found => filesBelow found.1 found.2 := by
  have hfolder : d.dropListings.folderAt = d.folderAt := rfl
  rw [list, h, hfolder]
  dsimp only
  cases d.folderAt key <;> rfl

/-- A path of visible names leads through these names; nothing else of it counts. -/
theorem locate_parts (hnormal : Path.normalize dir = dir) (hnul : '\x00' ∉ dir.toList)
    (hvisible : Route.Visible (Route.pieces dir)) : d.locate dir = .ok (Route.parts dir) := by
  have hback : ".." ∉ Route.parts dir := fun hmem =>
    hvisible.ne_dots (List.mem_of_mem_filter hmem) rfl
  refine ((d.resolves_follow dir).inside _).2 ⟨hnul, ?_⟩
  rw [hnormal, Route.follow_of_notMem hback]

/-- The text of a route of names leads down by them, unless a name has a backslash. -/
theorem locate_text (hne : route ≠ [])
    (hnames : ∀ name ∈ route, Tree.IsEntryName name ∧ '\\' ∉ name.toList) :
    d.locate route.text = .ok route := by
  have hpieces := Route.pieces_text hne fun name hname => (hnames name hname).1.noSlash
  have hnotMem {c : Char} (hc : c ≠ '/') (hall : ∀ name ∈ route, c ∉ name.toList) :
      c ∉ route.text.toList := by
    intro hmem
    obtain ⟨name, hname, hname'⟩ := Route.exists_mem_pieces_iff.2 ⟨hmem, hc⟩
    exact hall name (hpieces ▸ hname) hname'
  have hback := hnotMem (by decide) fun name hname => (hnames name hname).2
  have hnul := hnotMem (by decide) fun name hname => (hnames name hname).1.noNul
  have hslash : route.text.toList.head? ≠ some '/' := by
    intro hhead
    obtain ⟨rest, hrest⟩ := List.head?_eq_some_iff.1 hhead
    have htext : route.text = "" ++ "/" ++ String.ofList rest := by
      rw [← @String.ofList_toList route.text, hrest, String.ofList_cons]
      rfl
    rw [htext, Route.pieces_slash] at hpieces
    exact (hnames "" (hpieces ▸ List.mem_append_left _ (by decide))).1.isName.1 rfl
  refine ((d.resolves_follow _).inside _).2 ⟨hnul, ?_⟩
  rw [Path.normalize_eq_self hslash hback, Route.follow_eq, hpieces]
  exact Route.foldl_onward_names (fun name hname => (hnames name hname).1.isName) d.root

theorem folderAt_parts (hnormal : Path.normalize dir = dir) (hnul : '\x00' ∉ dir.toList)
    (hvisible : Route.Visible (Route.pieces dir))
    (hfind : d.find? (Route.parts dir) = some (.folder cs)) :
    d.folderAt dir = .ok (Route.parts dir, .folder cs) := by
  rw [folderAt_eq_ok_iff, startAt_eq_locate]
  exact ⟨locate_parts hnormal hnul hvisible, cs, rfl, hfind⟩

theorem folderAt_empty (h : d.tree.find? d.root = some (.folder children)) :
    d.folderAt "" = .ok ([], .folder children) := by
  have hfind : d.find? (Route.parts "") = some (.folder children) :=
    (congrArg (Tree.find? · d.tree) (List.append_nil d.root)).trans h
  have hvisible : Route.Visible (Route.pieces "") :=
    fun part hpart => List.mem_singleton.1 hpart ▸ rfl
  exact folderAt_parts rfl (List.not_mem_nil) hvisible hfind

theorem list_none (h : d.tree.find? d.root = some (.folder children)) (now : Binary64) :
    (d.dropListings.list now none).1 = .ok (filesBelow [] (.folder children)) := by
  rw [list_dropListings d now rfl, folderAt_empty h]
  rfl

/-- In the folder of a vault on disk the names on a route have no NUL character. -/
theorem Proper.nul_notMem (h : d.Proper) {sub : Tree}
    (hfind : d.find? (Route.parts dir) = some sub) : '\x00' ∉ dir.toList := by
  intro hmem
  obtain ⟨part, hpart, hnul⟩ := Route.exists_mem_pieces_iff.2 ⟨hmem, by decide⟩
  by_cases hname : part ≠ "" ∧ part ≠ "."
  · have hparts : part ∈ Route.parts dir :=
      List.mem_filter.2 ⟨hpart, by simpa using hname⟩
    exact ((h.tree.of_find? hfind).2 part (List.mem_append_right _ hparts)).noNul hnul
  · obtain rfl | rfl : part = "" ∨ part = "." := by grind
    · simp at hnul
    · exact absurd hnul (by decide)

theorem Proper.list_some (h : d.Proper) (now : Binary64) (hnormal : Path.normalize dir = dir)
    (hvisible : Route.Visible (Route.pieces dir))
    (hfind : d.find? (Route.parts dir) = some (.folder cs)) :
    (d.dropListings.list now (some dir)).1 = .ok (filesBelow (Route.parts dir) (.folder cs)) := by
  have hfolder := folderAt_parts hnormal (h.nul_notMem hfind) hvisible hfind
  have hkey : directoryKey (some (dir : Spelling)) = .ok dir := by
    rw [directoryKey, Spelling.text_ofText]
    exact congrArg Except.ok hnormal
  rw [list_dropListings d now hkey, hfolder]
  rfl

theorem folders_none (h : d.tree.find? d.root = some (.folder children)) : d.folders none =
    .ok (((Tree.folder children).folders.map Route.text).mergeSort textLe) := by
  simp only [folders, directoryKey, bind, Except.bind, folderAt_empty h]
  rfl

/-- Everything below the vault's folder is found from there. -/
theorem find?_of_root (h : d.tree.find? d.root = some (.folder children)) (route : Route) :
    d.find? route = (Tree.folder children).find? route := by
  rw [find?, Tree.find?_append, h, Option.bind_some]

theorem read?_of_root (h : d.tree.find? d.root = some (.folder children)) (route : Route) :
    d.tree.read? (d.root ++ route) = (Tree.folder children).read? route := by
  rw [Tree.read?_eq_bind, Tree.read?_eq_bind, ← find?_of_root h, find?]

/-- The listing for a folder is the part below the folder of the whole listing. -/
theorem Proper.list_some_eq (h : d.Proper) (hroot : d.tree.find? d.root = some (.folder children))
    (now : Binary64) (hnormal : Path.normalize dir = dir)
    (hvisible : Route.Visible (Route.pieces dir))
    (hfind : d.find? (Route.parts dir) = some (.folder cs)) :
    (d.dropListings.list now (some dir)).1 = .ok (if Route.parts dir = []
      then filesBelow [] (.folder children)
      else (filesBelow [] (.folder children)).filter fun f =>
        startsWith f.path (Route.text (Route.parts dir) ++ "/")) := by
  have hproper := (h.tree.of_find? hroot).1
  have hparts : Route.Visible (Route.parts dir) :=
    fun name hname => hvisible name (List.mem_of_mem_filter hname)
  rw [h.list_some now hnormal hvisible hfind]
  rw [find?_of_root hroot] at hfind
  split
  case isTrue hnil =>
    rw [hnil] at hfind ⊢
    cases hfind
    rfl
  case isFalse hne => rw [hproper.filter_filesBelow hne hfind hparts]

/-- A listing of a vault shows, in the order of their paths and each once, the files to which names
lead that are not passed over. For a folder at such names it shows those whose paths begin with the
folder's, in which empty parts count for nothing. The listing of folders shows, in the order of
their paths and each once, the folders to which such names lead, among them those on the way to a
file that is listed. -/
theorem Proper.listings_complete (h : d.Proper) (now : Binary64) : ∃ files folders,
    (d.dropListings.list now none).1 = .ok files ∧ d.folders none = .ok folders ∧
    files.Pairwise (fun f g => f.path < g.path) ∧
    (∀ path, path ∈ files.map FileEntry.path ↔ Route.Visible (Route.pieces path) ∧
      ∃ data, d.tree.read? (d.root ++ Route.pieces path) = some data) ∧
    (∀ dir cs, Path.normalize dir = dir → Route.Visible (Route.pieces dir) →
      d.find? (Route.parts dir) = some (.folder cs) →
      (d.dropListings.list now (some dir)).1 = .ok (if Route.parts dir = [] then files
        else files.filter fun f => startsWith f.path (Route.text (Route.parts dir) ++ "/")) ∧
      ("" ∉ Route.pieces dir → (d.dropListings.list now (some dir)).1 =
        .ok (files.filter fun f => startsWith f.path (dir ++ "/")))) ∧
    folders.Pairwise (· < ·) ∧
    (∀ dir, dir ∈ folders ↔ Route.Visible (Route.pieces dir) ∧
      ∃ cs, d.find? (Route.pieces dir) = some (.folder cs)) ∧
    ∀ f ∈ files, ∀ dir, startsWith f.path (dir ++ "/") → dir ∈ folders := by
  obtain ⟨children, hroot⟩ := h.folder
  have hproper := (h.tree.of_find? hroot).1
  refine ⟨_, _, list_none hroot now, folders_none hroot, hproper.pairwise_filesBelow (by simp),
    fun path => ?_, fun dir cs hnormal hvisible hdir => ?_,
    Sorting.pairwise_lt_mergeSort hproper.nodup_texts_folders, fun dir => ?_,
    fun f hf dir hstarts => ?_⟩
  · rw [hproper.mem_paths_filesBelow_iff]
    simp only [read?_of_root hroot]
  · have hlist := h.list_some_eq hroot now hnormal hvisible hdir
    refine ⟨hlist, fun hempty => ?_⟩
    have hpieces := Route.parts_eq_pieces fun part hpart =>
      ⟨fun heq => hempty (heq ▸ hpart), hvisible.ne_dot hpart⟩
    rw [hlist, hpieces, if_neg (Route.pieces_ne_nil dir), Route.text_pieces]
  · rw [List.mem_mergeSort, hproper.mem_texts_folders_iff]
    simp only [find?_of_root hroot]
  · obtain ⟨hvisible, data, hdata⟩ :=
      hproper.mem_paths_filesBelow_iff.1 (List.mem_map_of_mem hf)
    obtain ⟨below, hne, hpieces⟩ := Route.startsWith_folder_iff.1 hstarts
    rw [hpieces] at hvisible hdata
    rw [List.mem_mergeSort, hproper.mem_texts_folders_iff]
    exact ⟨(List.forall_mem_append.1 hvisible).1, Tree.exists_folder_of_read? hne hdata⟩

/-- A vault in which the order of the paths is none of the order of the names, with notes that no
listing shows. -/
def nestedNotes : Disk where
  name := "main"
  root := ["vault"]
  tree := .folder [("vault", .folder [
    ("a", .folder [("x.md", .file ⟨"x".toUTF8, .zero false⟩),
      (".trash", .folder [("y.md", .file ⟨"y".toUTF8, .zero false⟩)])]),
    ("a.md", .file ⟨"a".toUTF8, .zero false⟩),
    ("node_modules", .folder [("z.md", .file ⟨"z".toUTF8, .zero false⟩)])])]
  stamp := .zero false
  listings := []

theorem proper_nestedNotes : nestedNotes.Proper where
  tree := by
    simp only [nestedNotes, Tree.proper_folder_iff, Tree.proper_file, List.forall_mem_cons,
      List.not_mem_nil, false_imp_iff, imp_true_iff, and_true, List.map_cons, List.map_nil]
    decide
  folder := ⟨_, rfl⟩

/-- The note below the folder is listed for the folder as well, and the hidden one is not. -/
theorem Proper.listings_complete_nested : nestedNotes.Proper ∧ ∃ files folders,
    (nestedNotes.dropListings.list (.zero false) none).1 = .ok files ∧
    nestedNotes.folders none = .ok folders ∧
    "a/x.md" ∈ files.map FileEntry.path ∧ "a/.trash/y.md" ∉ files.map FileEntry.path ∧
    Path.normalize "a" = "a" ∧ Route.Visible (Route.pieces "a") ∧
    (∃ cs, nestedNotes.find? (Route.parts "a") = some (.folder cs)) ∧
    (nestedNotes.dropListings.list (.zero false) (some "a")).1 =
      .ok (files.filter fun f => startsWith f.path "a/") ∧
    "a" ∈ folders ∧ "a/.trash" ∉ folders := by
  obtain ⟨files, folders, hfiles, hfolders, -, hmem, hbelow, -, hmem', -⟩ :=
    proper_nestedNotes.listings_complete (.zero false)
  have hparts : Route.parts "a" = ["a"] := by decide +kernel
  have hvisible : Route.Visible (Route.pieces "a") := by decide +kernel
  have hfind : nestedNotes.find? (Route.parts "a") = some (.folder [
      ("x.md", .file ⟨"x".toUTF8, .zero false⟩),
      (".trash", .folder [("y.md", .file ⟨"y".toUTF8, .zero false⟩)])]) := by rw [hparts]; rfl
  have hnormal : Path.normalize "a" = "a" := by decide +kernel
  refine ⟨proper_nestedNotes, files, folders, hfiles, hfolders, ?_, ?_, hnormal, hvisible,
    ⟨_, hfind⟩, ?_, ?_, ?_⟩
  · have hpieces : Route.pieces "a/x.md" = ["a", "x.md"] := by decide +kernel
    rw [hmem, hpieces]
    exact ⟨by decide +kernel, _, rfl⟩
  · have hpieces : Route.pieces "a/.trash/y.md" = ["a", ".trash", "y.md"] := by decide +kernel
    rw [hmem, hpieces]
    exact fun h => absurd h.1 (by decide +kernel)
  · exact (hbelow "a" _ hnormal hvisible hfind).2 (by decide +kernel)
  · have hpieces : Route.pieces "a" = ["a"] := by decide +kernel
    rw [hmem', hpieces]
    exact ⟨by decide +kernel, _, rfl⟩
  · have hpieces : Route.pieces "a/.trash" = ["a", ".trash"] := by decide +kernel
    rw [hmem', hpieces]
    exact fun h => absurd h.1 (by decide +kernel)

/-- A folder's listing is no restriction of the whole listing that loses one of its files. -/
theorem Proper.list_some_ne (h : d.Proper) (now : Binary64) (hnormal : Path.normalize dir = dir)
    (hvisible : Route.Visible (Route.pieces dir))
    (hfind : ∃ cs, d.find? (Route.parts dir) = some (.folder cs))
    (hread : d.tree.read? (d.root ++ Route.parts dir ++ route) = some data) (hroute : route.Visible)
    {start : String} (hstart : startsWith (Route.text (Route.parts dir ++ route)) start = false) :
    ¬ ∃ files, (d.dropListings.list now none).1 = .ok files ∧
      (d.dropListings.list now (some dir)).1 =
        .ok (files.filter fun f => startsWith f.path start) := by
  rintro ⟨files, -, hlist⟩
  obtain ⟨cs, hfind⟩ := hfind
  rw [h.list_some now hnormal hvisible hfind] at hlist
  rw [find?] at hfind
  rw [Tree.read?_eq_bind, Tree.find?_append, hfind, Option.bind_some, ← Tree.read?_eq_bind]
    at hread
  have hlisted : entryAt (Route.parts dir) (route, data) ∈
      filesBelow (Route.parts dir) (.folder cs) :=
    (h.tree.of_find? hfind).1.mem_filesBelow_iff.2 ⟨route, data, hread, hroute, rfl⟩
  rw [Except.ok.inj hlist] at hlisted
  have hstarts := (List.mem_filter.1 hlisted).2
  rw [path_entryAt, hstart] at hstarts
  cases hstarts

/-- An empty part of a folder's path counts for nothing, so that no path needs to begin with the
folder's path and a slash to be listed for the folder. -/
theorem listing_of_empty_part : nestedNotes.Proper ∧ ∀ dir ∈ ["", "a/"],
    Path.normalize dir = dir ∧ Route.Visible (Route.pieces dir) ∧
    (∃ cs, nestedNotes.find? (Route.parts dir) = some (.folder cs)) ∧
    ¬ ∃ files, (nestedNotes.dropListings.list (.zero false) none).1 = .ok files ∧
      (nestedNotes.dropListings.list (.zero false) (some dir)).1 =
        .ok (files.filter fun f => startsWith f.path (dir ++ "/")) := by
  have hnotes := proper_nestedNotes
  refine ⟨hnotes, List.forall_mem_cons.2 ⟨?_, List.forall_mem_singleton.2 ?_⟩⟩
  · have hnormal : Path.normalize "" = "" := by decide +kernel
    have hvisible : Route.Visible (Route.pieces "") := by decide +kernel
    have hparts : Route.parts "" = [] := by decide +kernel
    have hfind : ∃ cs, nestedNotes.find? (Route.parts "") = some (.folder cs) := by
      rw [hparts]
      exact ⟨_, rfl⟩
    have hread : nestedNotes.tree.read? (nestedNotes.root ++ Route.parts "" ++ ["a.md"]) =
        some ⟨"a".toUTF8, .zero false⟩ := by rw [hparts]; rfl
    exact ⟨hnormal, hvisible, hfind, hnotes.list_some_ne _ hnormal hvisible hfind hread
      (by decide +kernel) (by decide +kernel)⟩
  · have hnormal : Path.normalize "a/" = "a/" := by decide +kernel
    have hvisible : Route.Visible (Route.pieces "a/") := by decide +kernel
    have hparts : Route.parts "a/" = ["a"] := by decide +kernel
    have hfind : ∃ cs, nestedNotes.find? (Route.parts "a/") = some (.folder cs) := by
      rw [hparts]
      exact ⟨_, rfl⟩
    have hread : nestedNotes.tree.read? (nestedNotes.root ++ Route.parts "a/" ++ ["x.md"]) =
        some ⟨"x".toUTF8, .zero false⟩ := by rw [hparts]; rfl
    exact ⟨hnormal, hvisible, hfind, hnotes.list_some_ne _ hnormal hvisible hfind hread
      (by decide +kernel) (by decide +kernel)⟩

end Disk

end MarkdownVault
