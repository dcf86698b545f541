import MarkdownVault.Proofs.Vault.Confinement

/-!
# What a tree shows

In a tree as a file system keeps it the children of a folder have different names, each of which can
stand between the slashes of a path. What is found at the end of a route is then what its listing
shows, except where a name on the way is passed over.
-/

namespace MarkdownVault

/-- A name that can stand for a file or a folder. -/
structure Tree.IsEntryName (name : String) : Prop where
  isName : Route.IsName name
  noSlash : '/' ∉ name.toList
  noNul : '\x00' ∉ name.toList

instance (name : String) : Decidable (Tree.IsEntryName name) :=
  decidable_of_iff (Route.IsName name ∧ '/' ∉ name.toList ∧ '\x00' ∉ name.toList)
    ⟨fun h => ⟨h.1, h.2.1, h.2.2⟩, fun h => ⟨h.isName, h.noSlash, h.noNul⟩⟩

/-- A route with no name that listings pass over. -/
def Route.Visible (route : Route) : Prop := ∀ name ∈ route, Tree.isSkipped name = false

instance (route : Route) : Decidable route.Visible :=
  inferInstanceAs (Decidable (∀ name ∈ route, Tree.isSkipped name = false))

namespace Route.Visible

variable {route : Route} {name : String}

theorem ne_dot (h : route.Visible) (hname : name ∈ route) : name ≠ "." := by
  rintro rfl
  exact absurd (h "." hname) (by decide)

theorem ne_dots (h : route.Visible) (hname : name ∈ route) : name ≠ ".." := by
  rintro rfl
  exact absurd (h ".." hname) (by decide)

end Route.Visible

namespace Tree

/-- A tree as a file system keeps it. -/
inductive Proper : Tree → Prop where
  | file (data : FileData) : Proper (.file data)
  | folder {children : List (String × Tree)} (names : ∀ c ∈ children, IsEntryName c.1)
      (apart : (children.map Prod.fst).Nodup) (below : ∀ c ∈ children, Proper c.2) :
      Proper (.folder children)

variable {name : String} {route : Route} {data : FileData} {t t' sub : Tree}
  {children : List (String × Tree)}

theorem proper_file (data : FileData) : (Tree.file data).Proper := .file data

theorem proper_folder_iff : (Tree.folder children).Proper ↔ (∀ c ∈ children, IsEntryName c.1) ∧
    (children.map Prod.fst).Nodup ∧ ∀ c ∈ children, c.2.Proper := by
  constructor
  · rintro (_ | ⟨names, apart, below⟩)
    exact ⟨names, apart, below⟩
  · exact fun ⟨names, apart, below⟩ => .folder names apart below

/-- What is found in a proper tree is one, and the names on the way are names of children. -/
theorem Proper.of_find? (h : t.Proper) (hfind : t.find? route = some sub) :
    sub.Proper ∧ ∀ name ∈ route, IsEntryName name := by
  induction route generalizing t with
  | nil =>
    cases hfind
    exact ⟨h, fun _ hname => nomatch hname⟩
  | cons name route ih =>
    cases h with
    | file data => cases hfind
    | folder names apart below =>
      obtain ⟨u, hu, hsub⟩ := Option.bind_eq_some_iff.1 hfind
      have hmem := (lookup_eq_some_iff_mem apart).1 hu
      obtain ⟨hsub, hnames⟩ := ih (below _ hmem) hsub
      exact ⟨hsub, List.forall_mem_cons.2 ⟨names _ hmem, hnames⟩⟩

/-! ## Walks -/

mutual

/-- A tree and everything in it that is not passed over, with the routes that lead there. -/
def walk : Tree → List (Route × Tree)
  | .file data => [([], .file data)]
  | .folder children => ([], .folder children) :: walkAmong children

def walkAmong : List (String × Tree) → List (Route × Tree)
  | [] => []
  | (name, t) :: cs =>
    (if isSkipped name then [] else (walk t).map fun n => (name :: n.1, n.2)) ++ walkAmong cs

end

def data? : Tree → Option FileData
  | .file data => some data
  | .folder _ => none

theorem read?_eq_bind (route : Route) (t : Tree) : t.read? route = (t.find? route).bind data? := by
  rw [read?]
  rcases t.find? route with _ | _ | _ <;> rfl

/-- What stands on the way to a file is a folder. -/
theorem exists_folder_of_read? {below : Route} (hne : below ≠ [])
    (h : t.read? (route ++ below) = some data) : ∃ cs, t.find? route = some (.folder cs) := by
  rw [read?_eq_bind, find?_append, Option.bind_assoc, Option.bind_eq_some_iff] at h
  obtain ⟨u, hu, hbelow⟩ := h
  obtain ⟨name, rest, rfl⟩ := List.exists_cons_of_ne_nil hne
  cases u with
  | file old => cases hbelow
  | folder cs => exact ⟨cs, hu⟩

mutual

/-- The files that a tree shows are met on the walk. -/
theorem files_eq : (t : Tree) →
    t.files = t.walk.filterMap fun n => n.2.data?.map fun data => (n.1, data)
  | .file data => rfl
  | .folder children => by rw [files, walk, filesAmong_eq children]; rfl

theorem filesAmong_eq : (children : List (String × Tree)) → filesAmong children =
    (walkAmong children).filterMap fun n => n.2.data?.map fun data => (n.1, data)
  | [] => rfl
  | (name, t) :: cs => by
    rw [filesAmong, walkAmong, List.filterMap_append, filesAmong_eq cs, files_eq t]
    cases isSkipped name
    · simp [List.map_filterMap, List.filterMap_map, Function.comp_def]
    · rfl

end

mutual

/-- The folders that a folder shows are met on the walk, behind the folder itself. -/
theorem folders_eq : (t : Tree) → (if t.isFolder then [[]] else []) ++ t.folders =
    (t.walk.filter (·.2.isFolder)).map Prod.fst
  | .file data => rfl
  | .folder children => by rw [folders, walk, foldersAmong_eq children]; rfl

theorem foldersAmong_eq : (children : List (String × Tree)) →
    foldersAmong children = ((walkAmong children).filter (·.2.isFolder)).map Prod.fst
  | [] => rfl
  | (name, t) :: cs => by
    have hchild : ((t.walk.map fun n => (name :: n.1, n.2)).filter (·.2.isFolder)).map Prod.fst =
        ((if t.isFolder then [[]] else []) ++ t.folders).map (name :: ·) := by
      rw [folders_eq t, List.filter_map, List.map_map, List.map_map]
      rfl
    rw [foldersAmong, walkAmong, List.filter_append, List.map_append, foldersAmong_eq cs]
    cases isSkipped name
    · rw [if_neg Bool.false_ne_true, hchild]
      cases t <;> rfl
    · rfl

end

theorem mem_walkAmong_iff {n : Route × Tree} : n ∈ walkAmong children ↔
    ∃ c ∈ children, isSkipped c.1 = false ∧ ∃ m ∈ c.2.walk, n = (c.1 :: m.1, m.2) := by
  induction children with
  | nil => simp [walkAmong]
  | cons c children ih =>
    obtain ⟨name, t⟩ := c
    rw [walkAmong, List.mem_append, ih, List.exists_mem_cons_iff]
    refine or_congr_left ?_
    cases isSkipped name <;> simp [eq_comm]

/-- On the walk through a proper tree everything is met that is found on a route without names that
are passed over. -/
theorem Proper.mem_walk_iff (h : t.Proper) :
    (route, sub) ∈ t.walk ↔ t.find? route = some sub ∧ route.Visible := by
  have hnil : Route.Visible [] := fun _ hname => nomatch hname
  induction route generalizing t with
  | nil =>
    have hroot : ([], sub) ∈ t.walk ↔ sub = t := by
      cases t <;> simp [walk, mem_walkAmong_iff]
    simp [hroot, find?, hnil, eq_comm]
  | cons name route ih =>
    cases h with
    | file old => simp [walk, find?]
    | @folder children names apart below =>
      rw [walk, List.mem_cons, or_iff_right (by simp), mem_walkAmong_iff, find?,
        Option.bind_eq_some_iff]
      constructor
      · rintro ⟨⟨k, t⟩, hmem, hskip, ⟨below', sub'⟩, hwalk, heq⟩
        cases heq
        obtain ⟨hfind, hvisible⟩ := (ih (below _ hmem)).1 hwalk
        exact ⟨⟨t, (lookup_eq_some_iff_mem apart).2 hmem, hfind⟩,
          List.forall_mem_cons.2 ⟨hskip, hvisible⟩⟩
      · rintro ⟨⟨t, hlookup, hfind⟩, hvisible⟩
        obtain ⟨hskip, hvisible⟩ := List.forall_mem_cons.1 hvisible
        have hmem := (lookup_eq_some_iff_mem apart).1 hlookup
        exact ⟨_, hmem, hskip, _, (ih (below _ hmem)).2 ⟨hfind, hvisible⟩, rfl⟩

/-- Nothing is met twice. -/
theorem Proper.pairwise_walk (h : t.Proper) : t.walk.Pairwise fun n m => n.1 ≠ m.1 := by
  induction h with
  | file data => simp [walk]
  | @folder children names apart below ih =>
    rw [walk, List.pairwise_cons]
    refine ⟨fun n hn => ?_, ?_⟩
    · obtain ⟨c, -, -, m, -, rfl⟩ := mem_walkAmong_iff.1 hn
      simp
    clear names below
    induction children with
    | nil => simp [walkAmong]
    | cons c children ihs =>
      obtain ⟨name, t⟩ := c
      obtain ⟨hname, apart⟩ := List.nodup_cons.1 apart
      obtain ⟨ht, ih⟩ := List.forall_mem_cons.1 ih
      rw [walkAmong, List.pairwise_append]
      refine ⟨?_, ihs apart ih, fun n hn m hm => ?_⟩
      · split
        · exact .nil
        · exact List.pairwise_map.2 (ht.imp fun hne heq => hne (List.cons.inj heq).2)
      · obtain ⟨c, hc, -, m, -, rfl⟩ := mem_walkAmong_iff.1 hm
        split at hn
        · cases hn
        · obtain ⟨n, -, rfl⟩ := List.mem_map.1 hn
          exact fun heq => hname (List.mem_map.2 ⟨c, hc, (List.cons.inj heq).1.symm⟩)

/-! ## Listings -/

theorem Proper.mem_files_iff (h : t.Proper) :
    (route, data) ∈ t.files ↔ t.read? route = some data ∧ route.Visible := by
  rw [files_eq, List.mem_filterMap, read?_eq_bind, Option.bind_eq_some_iff]
  constructor
  · rintro ⟨⟨route', u⟩, hwalk, hdata⟩
    obtain ⟨data', hu, heq⟩ := Option.map_eq_some_iff.1 hdata
    cases heq
    obtain ⟨hfind, hvisible⟩ := h.mem_walk_iff.1 hwalk
    exact ⟨⟨u, hfind, hu⟩, hvisible⟩
  · rintro ⟨⟨u, hfind, hu⟩, hvisible⟩
    exact ⟨(route, u), h.mem_walk_iff.2 ⟨hfind, hvisible⟩, by rw [hu]; rfl⟩

theorem Proper.pairwise_files (h : t.Proper) : t.files.Pairwise fun f g => f.1 ≠ g.1 := by
  rw [files_eq, List.pairwise_filterMap]
  refine h.pairwise_walk.imp fun {n m} hne f hf g hg => ?_
  obtain ⟨_, -, rfl⟩ := Option.map_eq_some_iff.1 hf
  obtain ⟨_, -, rfl⟩ := Option.map_eq_some_iff.1 hg
  exact hne

/-- A folder itself and the folders that it shows. -/
theorem cons_folders (children : List (String × Tree)) : [] :: (folder children).folders =
    ((folder children).walk.filter (·.2.isFolder)).map Prod.fst :=
  folders_eq (folder children)

theorem Proper.nodup_cons_folders (h : (Tree.folder children).Proper) :
    ([] :: (Tree.folder children).folders).Nodup := by
  rw [cons_folders]
  exact List.pairwise_map.2 (h.pairwise_walk.sublist List.filter_sublist)

theorem Proper.mem_cons_folders_iff (h : (Tree.folder children).Proper) :
    route ∈ [] :: (Tree.folder children).folders ↔
      route.Visible ∧ ∃ cs, (Tree.folder children).find? route = some (.folder cs) := by
  rw [cons_folders, List.mem_map]
  constructor
  · rintro ⟨⟨route', u⟩, hn, rfl⟩
    obtain ⟨hwalk, hfolder⟩ := List.mem_filter.1 hn
    obtain ⟨hfind, hvisible⟩ := h.mem_walk_iff.1 hwalk
    cases u with
    | file data => cases hfolder
    | folder cs => exact ⟨hvisible, cs, hfind⟩
  · rintro ⟨hvisible, cs, hfind⟩
    exact ⟨(route, .folder cs), List.mem_filter.2 ⟨h.mem_walk_iff.2 ⟨hfind, hvisible⟩, rfl⟩, rfl⟩

theorem Proper.mem_folders_iff (h : (Tree.folder children).Proper) :
    route ∈ (Tree.folder children).folders ↔ route ≠ [] ∧ route.Visible ∧
      ∃ cs, (Tree.folder children).find? route = some (.folder cs) := by
  have hnil := (List.nodup_cons.1 h.nodup_cons_folders).1
  rw [← h.mem_cons_folders_iff, List.mem_cons]
  constructor
  · exact fun hroute => ⟨fun heq => hnil (heq ▸ hroute), .inr hroute⟩
  · exact fun ⟨hne, hroute⟩ => hroute.resolve_left hne

/-! ## Writes -/

theorem proper_chain (data : FileData) (h : ∀ name ∈ route, IsEntryName name) :
    (chain data route).Proper := by
  induction route with
  | nil => exact .file data
  | cons name route ih =>
    obtain ⟨hname, hroute⟩ := List.forall_mem_cons.1 h
    exact proper_folder_iff.2 ⟨by simpa using hname, by simp, by simpa using ih hroute⟩

theorem map_fst_putChild (name : String) (t : Tree) (children : List (String × Tree)) :
    (putChild name t children).map Prod.fst = if name ∈ children.map Prod.fst
      then children.map Prod.fst else children.map Prod.fst ++ [name] := by
  induction children with
  | nil => simp [putChild]
  | cons c children ih =>
    by_cases hc : c.1 = name
    · simp [putChild, hc]
    · rw [putChild, if_neg hc, List.map_cons, ih]
      by_cases hname : name ∈ children.map Prod.fst
      · simp [hname]
      · simp [hname, Ne.symm hc]

theorem forall_mem_putChild {p : String × Tree → Prop} (h : ∀ c ∈ children, p c)
    (ht : p (name, t)) : ∀ c ∈ putChild name t children, p c := by
  induction children with
  | nil => simpa [putChild] using ht
  | cons c children ih =>
    obtain ⟨hc, hchildren⟩ := List.forall_mem_cons.1 h
    rw [putChild]
    split
    · exact List.forall_mem_cons.2 ⟨ht, hchildren⟩
    · exact List.forall_mem_cons.2 ⟨hc, ih hchildren⟩

theorem proper_putChild (h : (Tree.folder children).Proper) (hname : IsEntryName name)
    (ht : t.Proper) : (Tree.folder (putChild name t children)).Proper := by
  obtain ⟨names, apart, below⟩ := proper_folder_iff.1 h
  refine .folder (forall_mem_putChild names hname) ?_ (forall_mem_putChild below ht)
  rw [map_fst_putChild]
  split
  case isTrue => exact apart
  case isFalse hnew => exact List.nodup_append.2 ⟨apart, by simp, by grind⟩

/-- A write under proper names keeps a tree proper. -/
theorem Proper.of_write? (h : t.Proper) (hroute : ∀ name ∈ route, IsEntryName name)
    (hwrite : t.write? data route = some t') : t'.Proper := by
  fun_induction Tree.write? data route t generalizing t' with
  | case1 old =>
    cases hwrite
    exact .file data
  | case2 => cases hwrite
  | case3 => cases hwrite
  | case4 name route children hlookup =>
    cases hwrite
    obtain ⟨hname, hroute⟩ := List.forall_mem_cons.1 hroute
    exact proper_putChild h hname (proper_chain data hroute)
  | case5 name route children t hlookup ih =>
    obtain ⟨u, hu, rfl⟩ := Option.map_eq_some_iff.1 hwrite
    obtain ⟨hname, hroute⟩ := List.forall_mem_cons.1 hroute
    obtain ⟨-, apart, below⟩ := proper_folder_iff.1 h
    have ht := below _ ((lookup_eq_some_iff_mem apart).1 hlookup)
    exact proper_putChild h hname (ih ht hroute hu)

end Tree

end MarkdownVault
