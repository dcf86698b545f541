import Mathlib.Data.List.Find
import MarkdownVault.Proofs.Graph.Coherence
import MarkdownVault.Proofs.Vault.Steadiness

/-!
# Listings in another order

The last one of several notes with a name is the one that is meant, so the order of a listing
matters where notes share a name. Where they share none, graphs of the same notes differ in nothing
but the order of nodes, of backlinks and of unresolved links.
-/

namespace MarkdownVault

/-! ## Names that are not shared -/

namespace LinkIndex

/-- No name is a name of two paths. -/
def NoneShared (paths : List String) : Prop :=
  ∀ p ∈ paths, ∀ q ∈ paths, ∀ name ∈ namesOf p, name ∈ namesOf q → p = q

instance (paths : List String) : Decidable (NoneShared paths) := by
  unfold NoneShared
  infer_instance

variable {paths paths' : List String}

theorem mem_entries_ofPaths {name path : String} :
    (name, path) ∈ (ofPaths paths).entries ↔
      path ∈ paths.map Path.normalize ∧ name ∈ namesOf path := by
  simp only [ofPaths, List.mem_flatMap, List.mem_map, Prod.mk.injEq]
  constructor
  · rintro ⟨_, ⟨q, hq, rfl⟩, _, hname, rfl, rfl⟩
    exact ⟨⟨q, hq, rfl⟩, hname⟩
  · rintro ⟨⟨q, hq, rfl⟩, hname⟩
    exact ⟨_, ⟨q, hq, rfl⟩, name, hname, rfl, rfl⟩

/-- A name that is not shared leads to its path, wherever that stands. -/
theorem find?_eq_some_iff (hnames : NoneShared (paths.map Path.normalize)) {name path : String} :
    (ofPaths paths).find? name = some path ↔
      path ∈ paths.map Path.normalize ∧ name ∈ namesOf path := by
  rw [← mem_entries_ofPaths, ← List.mem_reverse, find?]
  refine lookup_eq_some_iff_mem_of_agree fun p hp q hq => ?_
  rw [List.mem_reverse, mem_entries_ofPaths] at hp hq
  exact hnames p hp.1 q hq.1 name hp.2 hq.2

theorem find?_perm (hperm : paths.Perm paths')
    (hnames : NoneShared (paths.map Path.normalize)) (name : String) :
    (ofPaths paths).find? name = (ofPaths paths').find? name := by
  have hmem {p : String} : p ∈ paths'.map Path.normalize ↔ p ∈ paths.map Path.normalize :=
    (hperm.map Path.normalize).symm.mem_iff
  have hnames' : NoneShared (paths'.map Path.normalize) := fun p hp q hq =>
    hnames p (hmem.1 hp) q (hmem.1 hq)
  ext path
  rw [find?_eq_some_iff hnames, find?_eq_some_iff hnames', hmem]

theorem resolve_perm (hperm : paths.Perm paths')
    (hnames : NoneShared (paths.map Path.normalize)) :
    (ofPaths paths).resolve = (ofPaths paths').resolve := by
  funext target
  simp only [resolve, find?_perm hperm hnames]

end LinkIndex

/-! ## Graphs that are alike -/

/-- Nodes that differ in nothing but the order of their backlinks. -/
structure GraphNode.Alike (n m : GraphNode) : Prop where
  path : n.path = m.path
  title : n.title = m.title
  tags : n.tags = m.tags
  embeds : n.embeds = m.embeds
  outgoing : n.outgoing = m.outgoing
  incoming : n.incoming.Perm m.incoming

/-- Graphs that have alike nodes under the same paths, and the same unresolved links. -/
structure Graph.Alike (g h : Graph) : Prop where
  paths : g.paths.Perm h.paths
  nodes : ∀ path, Option.Rel GraphNode.Alike (g.find? path) (h.find? path)
  unresolved : g.unresolved.Perm h.unresolved

namespace Graph

variable {notes notes' : List ReadNote}

theorem targetsOf_congr {index index' : LinkIndex} (h : index.resolve = index'.resolve) :
    targetsOf index = targetsOf index' := by
  funext note
  rw [targetsOf, targetsOf, h]

theorem unresolvedOf_congr {index index' : LinkIndex} (h : index.resolve = index'.resolve) :
    unresolvedOf index = unresolvedOf index' := by
  funext note
  rw [unresolvedOf, unresolvedOf, h]

theorem sourcesOf_perm {edges edges' : List (String × List String)} (h : edges.Perm edges')
    (path : String) : (sourcesOf edges path).Perm (sourcesOf edges' path) :=
  (h.filter _).map _

theorem eraseDups_perm {xs ys : List String} (h : xs.Perm ys) :
    xs.eraseDups.Perm ys.eraseDups := by
  rw [List.perm_ext_iff_of_nodup (nodup_eraseDups xs) (nodup_eraseDups ys)]
  intro x
  rw [List.mem_eraseDups, List.mem_eraseDups, h.mem_iff]

/-- What is found under a path, by the notes that a graph is made of. -/
theorem find?_of_nodes {unresolved : List String} (path : String) :
    find? ⟨notes.map (nodeIn notes), unresolved⟩ path =
      (notes.find? (·.file.path == path)).map (nodeIn notes) :=
  List.find?_map

/-- The graphs of the same notes in two orders are alike if every link means the same in both. -/
theorem alike_of_perm (hperm : notes.Perm notes')
    (hresolve : (indexOf notes).resolve = (indexOf notes').resolve)
    (hdistinct : (notes.map (·.file.path)).Nodup) {g h : Graph} (hg : ofNotes? notes = some g)
    (hh : ofNotes? notes' = some h) : g.Alike h := by
  obtain ⟨rfl, -⟩ := of_ofNotes? hg
  obtain ⟨rfl, -⟩ := of_ofNotes? hh
  have hedges : (edgesOf notes).Perm (edgesOf notes') := by
    rw [edgesOf, edgesOf, targetsOf_congr hresolve]
    exact hperm.map _
  constructor
  case paths =>
    rw [paths_nodeIn, paths_nodeIn]
    exact hperm.map _
  case nodes =>
    intro path
    have hfound : notes.find? (·.file.path == path) = notes'.find? (·.file.path == path) := by
      refine List.find?_eq_find?_of_perm hperm fun n hn m hm => ?_
      have heq : n.file.path = m.file.path :=
        (beq_iff_eq.1 hn.2).trans (beq_iff_eq.1 hm.2).symm
      exact List.inj_on_of_nodup_map hdistinct hn.1 hm.1 heq
    rw [find?_of_nodes, find?_of_nodes, ← hfound]
    cases notes.find? (·.file.path == path) with
    | none => exact .none
    | some n =>
      refine .some ?_
      simp only [nodeIn, nodeOf, targetsOf_congr hresolve]
      exact ⟨rfl, rfl, rfl, rfl, rfl, sourcesOf_perm hedges n.file.path⟩
  case unresolved =>
    rw [unresolvedOf_congr hresolve]
    exact eraseDups_perm (hperm.flatMap_right _)

end Graph

/-! ## Builds -/

/-- A sweep that is not stopped gleans the same in any order. -/
theorem Reply.glean_perm {α : Type} {read : Reply → String → Except Yaml.Fault α}
    {rs rs' : List Reply} (h : rs.Perm rs') {xs : List α} (hxs : glean read rs = .ok xs) :
    ∃ ys, glean read rs' = .ok ys ∧ xs.Perm ys := by
  induction h generalizing xs with
  | nil => exact ⟨xs, hxs, .refl xs⟩
  | cons r _ ih =>
    obtain ⟨first, rest, hfirst, hrest, rfl⟩ := glean_cons_eq_ok_iff.1 hxs
    obtain ⟨ys, hys, hperm⟩ := ih hrest
    exact ⟨first.toList ++ ys, glean_cons_eq_ok_iff.2 ⟨first, ys, hfirst, hys, rfl⟩,
      hperm.append_left first.toList⟩
  | swap r q rs =>
    obtain ⟨first, others, hfirst, hothers, rfl⟩ := glean_cons_eq_ok_iff.1 hxs
    obtain ⟨second, rest, hsecond, hrest, rfl⟩ := glean_cons_eq_ok_iff.1 hothers
    refine ⟨second.toList ++ (first.toList ++ rest), ?_, ?_⟩
    · refine glean_cons_eq_ok_iff.2 ⟨second, _, hsecond, ?_, rfl⟩
      exact glean_cons_eq_ok_iff.2 ⟨first, rest, hfirst, hrest, rfl⟩
    · rw [← List.append_assoc, ← List.append_assoc]
      exact List.perm_append_comm.append_right rest
  | trans _ _ ih ih' =>
    obtain ⟨ys, hys, hperm⟩ := ih hxs
    obtain ⟨zs, hzs, hperm'⟩ := ih' hys
    exact ⟨zs, hzs, hperm.trans hperm'⟩

section Builds

variable {σ τ : Type} [Backend σ] [Backend τ] {now later : Binary64}
  {known known' : String → String} {text text' : String → Except Failure String}
  {files files' : List FileEntry} {v : VaultOf σ} {w : VaultOf τ} {notes : List ReadNote}

/-- The notes that a build reads. -/
def Vault.GleanedNotes (text : String → Except Failure String) (files : List FileEntry)
    (notes : List ReadNote) : Prop :=
  Reply.glean buildReader ((files.filter FileEntry.isNote).map (Reply.fixed id text)) = .ok notes

namespace Vault.GleanedNotes

theorem file_sublist (h : GleanedNotes text files notes) :
    (notes.map (·.file)).Sublist (files.filter FileEntry.isNote) := by
  rw [Reply.map_glean (fun _ _ _ => file_of_buildReader) h]
  have hfiles : ((files.filter FileEntry.isNote).map (Reply.fixed id text)).map Reply.file =
      files.filter FileEntry.isNote := by simp [Reply.fixed, Function.comp_def]
  have hsublist := (List.filter_sublist (p := Reply.isText)
    (l := (files.filter FileEntry.isNote).map (Reply.fixed id text))).map Reply.file
  rwa [hfiles] at hsublist

theorem path_sublist (h : GleanedNotes text files notes) :
    (notes.map (·.file.path)).Sublist ((files.filter FileEntry.isNote).map (·.path)) := by
  have hpaths := h.file_sublist.map FileEntry.path
  rwa [List.map_map] at hpaths

theorem perm (h : GleanedNotes text files notes) (hperm : files.Perm files')
    (htext : ∀ f ∈ files, text' f.path = text f.path) :
    ∃ notes', GleanedNotes text' files' notes' ∧ notes.Perm notes' := by
  have hreplies : (files.filter FileEntry.isNote).map (Reply.fixed id text') =
      (files.filter FileEntry.isNote).map (Reply.fixed id text) := by
    refine List.map_congr_left fun f hf => ?_
    simp only [Reply.fixed, id_eq, htext f (List.mem_of_mem_filter hf)]
  rw [GleanedNotes, ← hreplies] at h
  exact Reply.glean_perm ((hperm.filter FileEntry.isNote).map _) h

theorem normal (h : GleanedNotes text files notes)
    (hnormal : ∀ f ∈ files, f.isNote → Path.normalize f.path = f.path) :
    ∀ n ∈ notes, Path.normalize n.file.path = n.file.path := by
  intro n hn
  obtain ⟨hf, hnote⟩ := List.mem_filter.1 (h.file_sublist.subset (List.mem_map_of_mem hn))
  exact hnormal n.file hf hnote

end Vault.GleanedNotes

/-- A build that comes to its end has read its notes and made a graph of them. -/
theorem VaultOf.Shows.build_eq_ok_iff (h : v.Shows now known text files) {g : Graph} :
    (Vault.build now v).1.map Snapshot.graph = .ok g ↔
      ∃ notes, Vault.GleanedNotes text files notes ∧ Graph.ofNotes? notes = some g := by
  rw [h.result_build, Vault.graphOf]
  simp only [Except.bind, Vault.GleanedNotes]
  cases Reply.glean Vault.buildReader
      ((files.filter FileEntry.isNote).map (Reply.fixed id text)) with
  | error f => simp
  | ok notes => cases hg : Graph.ofNotes? notes <;> simp [hg]

theorem VaultOf.Shows.exists_build_iff (h : v.Shows now known text files)
    (hnormal : ∀ f ∈ files, f.isNote → Path.normalize f.path = f.path) :
    (∃ s, (Vault.build now v).1 = .ok s) ↔
      ∀ f ∈ files, f.isNote → (Reply.fixed id text f).Passable := by
  have hpass : (∀ f ∈ files, f.isNote → (Reply.fixed id text f).Passable) ↔
      ∃ notes, Vault.GleanedNotes text files notes := by
    simp only [Vault.GleanedNotes, Reply.glean_ok_iff Vault.onlyMetadata_buildReader,
      List.forall_mem_map, List.mem_filter, and_imp]
  rw [hpass]
  constructor
  · rintro ⟨s, hs⟩
    obtain ⟨notes, hnotes, -⟩ := h.build_eq_ok_iff.1 (by rw [hs]; rfl)
    exact ⟨notes, hnotes⟩
  · rintro ⟨notes, hnotes⟩
    have hgraph := Graph.ofNotes?_eq_some (hnotes.normal hnormal)
    have hbuild := h.build_eq_ok_iff.2 ⟨notes, hnotes, hgraph⟩
    obtain ⟨s, hs, -⟩ := map_eq_ok_iff.1 hbuild
    exact ⟨s, hs⟩

/-- Whether a build comes to its end does not depend on the order of its files, and if no two of
its notes share a name, what it builds does not depend on it either. -/
theorem build_reordered (hv : v.Shows now known text files)
    (hw : w.Shows later known' text' files') (hperm : files.Perm files')
    (htext : ∀ f ∈ files, text' f.path = text f.path)
    (hnormal : ∀ f ∈ files, f.isNote → Path.normalize f.path = f.path)
    (hdistinct : ((files.filter FileEntry.isNote).map (·.path)).Nodup)
    (hnames : LinkIndex.NoneShared ((files.filter FileEntry.isNote).map (·.path))) :
    ((∃ s, (Vault.build now v).1 = .ok s) ↔
      ∀ f ∈ files, f.isNote → (Reply.fixed id text f).Passable) ∧
    ((∃ s, (Vault.build later w).1 = .ok s) ↔
      ∀ f ∈ files, f.isNote → (Reply.fixed id text f).Passable) ∧
    ∀ s s', (Vault.build now v).1 = .ok s → (Vault.build later w).1 = .ok s' →
      s.graph.Alike s'.graph := by
  refine ⟨hv.exists_build_iff hnormal, ?_, ?_⟩
  · rw [hw.exists_build_iff fun f hf => hnormal f (hperm.mem_iff.2 hf)]
    refine forall_congr' fun f => ?_
    rw [hperm.mem_iff]
    refine forall_congr' fun hf => ?_
    rw [Reply.fixed, Reply.fixed, id, htext f (hperm.mem_iff.2 hf)]
  · intro s s' hs hs'
    obtain ⟨notes, hnotes, hg⟩ := hv.build_eq_ok_iff.1 (by rw [hs]; rfl)
    obtain ⟨notes', hnotes', hg'⟩ := hw.build_eq_ok_iff.1 (by rw [hs']; rfl)
    obtain ⟨taken, htaken, hsame⟩ := hnotes.perm hperm htext
    cases hnotes'.symm.trans htaken
    have hpaths : (notes.map (·.file.path)).map Path.normalize = notes.map (·.file.path) := by
      rw [List.map_map]
      exact List.map_congr_left (hnotes.normal hnormal)
    refine Graph.alike_of_perm hsame ?_ (hdistinct.sublist hnotes.path_sublist) hg hg'
    apply LinkIndex.resolve_perm (hsame.map _)
    rw [hpaths]
    exact fun p hp q hq => hnames p (hnotes.path_sublist.subset hp) q
      (hnotes.path_sublist.subset hq)

end Builds

/-- Two notes that link to each other, one that cannot be read, and a file that is no note. -/
def penFriends : List FileEntry :=
  ["x/one.md", "lost.md", "two.md", "plan.txt"].map (FileEntry.ofPath · .empty)

def penFriends.listed (files : List FileEntry) : VaultOf Files where
  name := "notes"
  store := {
    listing := fun _ => .ok files
    text := fun path =>
      if path = "lost.md" then .error .system
      else if path = "two.md" then .ok "[[One]] [[lost]]"
      else .ok "[[two]] [[nowhere]]" }
  memo := .empty

theorem build_reordered_reversed :
    ∃ s s', (Vault.build default (penFriends.listed penFriends)).1 = .ok s ∧
      (Vault.build default (penFriends.listed penFriends.reverse)).1 = .ok s' ∧
      s.graph.Alike s'.graph := by
  have hshows (files : List FileEntry) : (penFriends.listed files).Shows default id
      (penFriends.listed files).store.text files := ⟨rfl, Files.steady _⟩
  obtain ⟨hfirst, hsecond, halike⟩ := build_reordered (hshows penFriends)
    (hshows penFriends.reverse) penFriends.reverse_perm.symm (fun _ _ => rfl) (by decide +kernel)
    (by decide +kernel) (by decide +kernel)
  have hpass : ∀ f ∈ penFriends, f.isNote →
      (Reply.fixed id (penFriends.listed penFriends).store.text f).Passable := by decide +kernel
  obtain ⟨s, hs⟩ := hfirst.2 hpass
  obtain ⟨s', hs'⟩ := hsecond.2 hpass
  exact ⟨s, s', hs, hs', halike s s' hs hs'⟩

end MarkdownVault
