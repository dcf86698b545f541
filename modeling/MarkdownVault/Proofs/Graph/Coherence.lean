import Mathlib.Data.List.Nodup
import MarkdownVault.Proofs.Lookup
import MarkdownVault.Proofs.Vault.Reading

/-!
# Coherent graphs

Every edge of a graph leads from node to node and is kept at both of its ends. That rests on the
index of names: whatever key finds a note, the path it gives is one that was indexed, so a link
that resolves never leaves the notes that were read.
-/

namespace MarkdownVault

theorem nodup_eraseDups {α : Type} [BEq α] [LawfulBEq α] (xs : List α) :
    xs.eraseDups.Nodup := by
  induction hlength : xs.length using Nat.strongRecOn generalizing xs with
  | _ length ih =>
    cases xs with
    | nil => simp
    | cons x rest =>
      have hshorter : (rest.filter fun y => !y == x).length < length := by
        have hle := List.length_filter_le (fun y => !y == x) rest
        rw [List.length_cons] at hlength
        omega
      rw [List.eraseDups_cons, List.nodup_cons]
      constructor
      · simp [List.mem_eraseDups]
      · exact ih _ hshorter _ rfl

/-! ## Names lead to indexed paths -/

namespace LinkIndex

theorem mem_of_find? {paths : List String} {name path : String}
    (h : (ofPaths paths).find? name = some path) : path ∈ paths.map Path.normalize := by
  have hmem : (name, path) ∈ (ofPaths paths).entries := List.mem_reverse.1 (mem_of_lookup h)
  simp only [ofPaths, List.mem_flatMap, List.mem_map, Prod.mk.injEq] at hmem ⊢
  obtain ⟨p, ⟨q, hq, rfl⟩, -, -, -, rfl⟩ := hmem
  exact ⟨q, hq, rfl⟩

theorem mem_of_resolve {paths : List String} {target path : String}
    (h : (ofPaths paths).resolve target = some path) : path ∈ paths.map Path.normalize := by
  simp only [resolve] at h
  split at h
  · cases h
  · obtain ⟨key, -, hkey⟩ := List.exists_of_findSome?_eq_some h
    exact mem_of_find? (Option.filter_eq_some_iff.1 hkey).1

end LinkIndex

namespace Graph

/-- The paths of the nodes, in order. -/
def paths (g : Graph) : List String := g.nodes.map (·.path)

/-- Links that name nothing but a heading resolve to nothing, so all links may be looked at. -/
theorem mem_targetsOf {index : LinkIndex} {note : ReadNote} {path : String} :
    path ∈ targetsOf index note ↔
      ∃ raw ∈ Note.linksOf note.body, index.resolve raw = some path := by
  simp only [targetsOf, namingLinks, List.mem_eraseDups, List.mem_filterMap, List.mem_filter]
  constructor
  · rintro ⟨raw, ⟨hraw, -⟩, hpath⟩
    exact ⟨raw, hraw, hpath⟩
  · rintro ⟨raw, hraw, hpath⟩
    refine ⟨raw, ⟨hraw, ?_⟩, hpath⟩
    cases hempty : (LinkIndex.targetName raw).isEmpty with
    | false => rfl
    | true => simp only [LinkIndex.resolve, hempty, if_true, reduceCtorEq] at hpath

/-! ## Edges from their end -/

theorem mem_sourcesOf {edges : List (String × List String)} {source target : String} :
    source ∈ sourcesOf edges target ↔ ∃ targets, (source, targets) ∈ edges ∧ target ∈ targets := by
  simp [sourcesOf]

theorem sourcesOf_sublist (edges : List (String × List String)) (target : String) :
    (sourcesOf edges target).Sublist (edges.map (·.1)) :=
  List.filter_sublist.map _

/-! ## Nodes by their paths -/

theorem find?_of_mem {g : Graph} (h : g.paths.Nodup) {n : GraphNode} (hn : n ∈ g.nodes) :
    g.find? n.path = some n := by
  rw [find?, List.find?_eq_some_iff_append]
  obtain ⟨before, after, hnodes⟩ := List.append_of_mem hn
  refine ⟨by simp, before, after, hnodes, ?_⟩
  intro m hm
  have hne : m.path ≠ n.path := by
    simp only [paths, hnodes, List.map_append, List.map_cons, List.nodup_append] at h
    exact h.2.2 m.path (List.mem_map_of_mem hm) n.path (by simp)
  simp [hne]

theorem path_of_find? {g : Graph} {path : String} {n : GraphNode} (h : g.find? path = some n) :
    n.path = path := by simpa using List.find?_some h

/-- Nothing is lost when paths of nodes are looked up. -/
theorem map_path_nodesAt {g : Graph} {ps : List String} (h : ∀ p ∈ ps, p ∈ g.paths) :
    (g.nodesAt ps).map (·.path) = ps := by
  induction ps with
  | nil => rfl
  | cons p ps ih =>
    obtain ⟨hp, hps⟩ := List.forall_mem_cons.1 h
    obtain ⟨n, hn, hpath⟩ := List.mem_map.1 hp
    have hfound : (g.find? p).isSome := List.find?_isSome.2 ⟨n, hn, by simp [hpath]⟩
    obtain ⟨m, hm⟩ := Option.isSome_iff_exists.1 hfound
    simp only [nodesAt, List.filterMap_cons, hm, List.map_cons, path_of_find? hm]
    exact congrArg _ (ih hps)

/-! ## Coherence -/

/-- Nodes have paths of their own, and every edge leads from node to node and is kept at both ends,
each time once. Nodes stand in one order, also among those that link to a note. -/
structure Coherent (g : Graph) : Prop where
  nodup_paths : g.paths.Nodup
  mem_paths : ∀ n ∈ g.nodes, ∀ p ∈ n.outgoing, p ∈ g.paths
  nodup_outgoing : ∀ n ∈ g.nodes, n.outgoing.Nodup
  incoming_sublist : ∀ n ∈ g.nodes, n.incoming.Sublist g.paths
  mem_outgoing_iff : ∀ a ∈ g.nodes, ∀ b ∈ g.nodes, b.path ∈ a.outgoing ↔ a.path ∈ b.incoming

namespace Coherent

variable {g : Graph} (h : g.Coherent)
include h

theorem nodup_incoming {n : GraphNode} (hn : n ∈ g.nodes) : n.incoming.Nodup :=
  h.nodup_paths.sublist (h.incoming_sublist n hn)

theorem map_path_outgoing {n : GraphNode} (hn : n ∈ g.nodes) :
    (g.outgoing n.path).map (·.path) = n.outgoing := by
  simp [outgoing, find?_of_mem h.nodup_paths hn, map_path_nodesAt (h.mem_paths n hn)]

theorem map_path_incoming {n : GraphNode} (hn : n ∈ g.nodes) :
    (g.incoming n.path).map (·.path) = n.incoming := by
  simp [incoming, find?_of_mem h.nodup_paths hn,
    map_path_nodesAt fun _ hp => (h.incoming_sublist n hn).subset hp]

end Coherent

/-! ## Graphs of notes -/

/-- The names of notes that were read. -/
def indexOf (notes : List ReadNote) : LinkIndex := .ofPaths (notes.map (·.file.path))

/-- The paths of notes with the targets of their links. -/
def edgesOf (notes : List ReadNote) : List (String × List String) :=
  notes.map fun n => (n.file.path, targetsOf (indexOf notes) n)

/-- The node of one note among those that were read. -/
def nodeIn (notes : List ReadNote) (n : ReadNote) : GraphNode :=
  nodeOf (edgesOf notes) n (targetsOf (indexOf notes) n)

section Notes

variable {notes : List ReadNote}

theorem map_fst_edgesOf : (edgesOf notes).map (·.1) = notes.map (·.file.path) := by
  simp [edgesOf, Function.comp_def]

/-- An edge into a path starts at a note with a link that leads there. -/
theorem mem_incoming_nodeIn {n : ReadNote} {source : String} :
    source ∈ (nodeIn notes n).incoming ↔
      ∃ m ∈ notes, m.file.path = source ∧ n.file.path ∈ targetsOf (indexOf notes) m := by
  simp only [nodeIn, nodeOf, mem_sourcesOf, edgesOf, List.mem_map, Prod.mk.injEq]
  constructor
  · rintro ⟨_, ⟨m, hm, rfl, rfl⟩, ht⟩
    exact ⟨m, hm, rfl, ht⟩
  · rintro ⟨m, hm, rfl, ht⟩
    exact ⟨_, ⟨m, hm, rfl, rfl⟩, ht⟩

theorem paths_nodeIn (unresolved : List String) :
    paths ⟨notes.map (nodeIn notes), unresolved⟩ = notes.map (·.file.path) := by
  simp [paths, nodeIn, nodeOf, Function.comp_def]

/-- A graph has one node for each note, and no link leads out of it. -/
theorem of_ofNotes? {g : Graph} (h : ofNotes? notes = some g) :
    g = ⟨notes.map (nodeIn notes), (notes.flatMap (unresolvedOf (indexOf notes))).eraseDups⟩ ∧
      ∀ n ∈ notes, ∀ p ∈ targetsOf (indexOf notes) n, p ∈ notes.map (·.file.path) := by
  simp only [ofNotes?] at h
  split at h
  case isFalse => cases h
  case isTrue hinside =>
    cases h
    refine ⟨rfl, ?_⟩
    simp only [List.all_map, List.all_eq_true, Function.comp_apply, List.contains_iff_mem]
      at hinside
    exact hinside

variable (hnormal : ∀ n ∈ notes, Path.normalize n.file.path = n.file.path)
include hnormal

theorem mem_paths_of_mem_targetsOf {note : ReadNote} {path : String}
    (h : path ∈ targetsOf (indexOf notes) note) : path ∈ notes.map (·.file.path) := by
  obtain ⟨raw, -, hraw⟩ := mem_targetsOf.1 h
  obtain ⟨p, hp, rfl⟩ := List.mem_map.1 (LinkIndex.mem_of_resolve hraw)
  obtain ⟨n, hn, rfl⟩ := List.mem_map.1 hp
  rw [hnormal n hn]
  exact hp

/-- Notes with normalized paths have a graph: no link leads out of it. -/
theorem ofNotes?_eq_some : ofNotes? notes =
    some ⟨notes.map (nodeIn notes), (notes.flatMap (unresolvedOf (indexOf notes))).eraseDups⟩ := by
  refine if_pos ?_
  simp only [List.all_map, List.all_eq_true, Function.comp_apply, List.contains_iff_mem]
  intro n _ p hp
  exact mem_paths_of_mem_targetsOf hnormal hp

/-- The graph of notes with normalized paths of their own is coherent. -/
theorem coherent_of_ofNotes? (hdistinct : (notes.map (·.file.path)).Nodup) {g : Graph}
    (hg : ofNotes? notes = some g) : g.paths = notes.map (·.file.path) ∧ g.Coherent := by
  rw [ofNotes?_eq_some hnormal, Option.some.injEq] at hg
  subst hg
  have hpaths : paths ⟨notes.map (nodeIn notes),
      (notes.flatMap (unresolvedOf (indexOf notes))).eraseDups⟩ = notes.map (·.file.path) :=
    paths_nodeIn _
  refine ⟨hpaths, ?_⟩
  constructor
  case nodup_paths => exact hpaths ▸ hdistinct
  case mem_paths =>
    rw [List.forall_mem_map]
    intro n _ p hp
    rw [hpaths]
    exact mem_paths_of_mem_targetsOf hnormal hp
  case nodup_outgoing =>
    rw [List.forall_mem_map]
    intro n _
    exact nodup_eraseDups _
  case incoming_sublist =>
    rw [List.forall_mem_map, hpaths, ← map_fst_edgesOf]
    intro n _
    exact sourcesOf_sublist _ _
  case mem_outgoing_iff =>
    simp only [List.forall_mem_map]
    intro a ha b hb
    rw [mem_incoming_nodeIn]
    constructor
    · exact fun h => ⟨a, ha, rfl, h⟩
    · rintro ⟨m, hm, hpath, h⟩
      have hma : m = a := List.inj_on_of_nodup_map hdistinct hm ha hpath
      exact hma ▸ h

end Notes

end Graph

/-! ## Graphs that are built -/

namespace Vault

variable {σ : Type} [Backend σ]

/-- The links of the note in a text lead exactly to the notes that its node links to. -/
def LinksAsWritten (g : Graph) (r : Reply) : Prop :=
  ∀ content note, r.text = .ok content → ReadNote.ofText r.file content = .ok note →
    ∃ n ∈ g.nodes, n.path = r.file.path ∧ ∀ p, p ∈ n.outgoing ↔
      ∃ raw ∈ Note.linksOf note.body, (LinkIndex.ofPaths g.paths).resolve raw = some p

/-- The notes of a build are files of its listing, in their order. -/
theorem file_sublist_of_glean {files : List FileEntry} {s : σ} {notes : List ReadNote}
    (h : Reply.glean buildReader (Backend.replies listedPath (files.filter FileEntry.isNote) s) =
      .ok notes) : (notes.map (·.file)).Sublist files := by
  rw [Reply.map_glean (fun _ _ _ => file_of_buildReader) h]
  refine (List.filter_sublist.map _).trans ?_
  rw [Backend.map_file_replies]
  exact List.filter_sublist

theorem normal_of_glean {files : List FileEntry} {s : σ} {notes : List ReadNote}
    (hnormal : ∀ f ∈ files, Path.normalize f.path = f.path)
    (h : Reply.glean buildReader (Backend.replies listedPath (files.filter FileEntry.isNote) s) =
      .ok notes) : ∀ n ∈ notes, Path.normalize n.file.path = n.file.path := by
  intro n hn
  apply hnormal
  exact (file_sublist_of_glean h).subset (List.mem_map_of_mem hn)

/-- The graph of a listing whose replies let the build pass has a node for every note that was
read, in the order of the listing, and is coherent. -/
theorem coherent_graphOf {files : List FileEntry} {s : σ}
    (hdistinct : (files.map FileEntry.path).Nodup)
    (hnormal : ∀ f ∈ files, Path.normalize f.path = f.path)
    (hpass : ∀ r ∈ Backend.replies listedPath (files.filter FileEntry.isNote) s, r.Passable) :
    ∃ g, graphOf (.ok files) (fun fs => Backend.replies listedPath fs s) = .ok g ∧ g.Coherent ∧
      g.paths = ((Backend.replies listedPath (files.filter FileEntry.isNote) s).filter
        Reply.isText).map (·.file.path) ∧
      ∀ r ∈ Backend.replies listedPath (files.filter FileEntry.isNote) s, LinksAsWritten g r := by
  obtain ⟨notes, hnotes⟩ := (Reply.glean_ok_iff onlyMetadata_buildReader _).2 hpass
  have hfiles := Reply.map_glean (fun _ _ _ => file_of_buildReader) hnotes
  have hpaths : notes.map (·.file.path) = (notes.map (·.file)).map (·.path) := by simp
  have hdistinct' : (notes.map (·.file.path)).Nodup := by
    rw [hpaths]
    exact hdistinct.sublist ((file_sublist_of_glean hnotes).map _)
  have hnormal' := normal_of_glean hnormal hnotes
  have hg := Graph.ofNotes?_eq_some hnormal'
  obtain ⟨hnodes, hcoherent⟩ := Graph.coherent_of_ofNotes? hnormal' hdistinct' hg
  refine ⟨_, ?_, hcoherent, ?_, ?_⟩
  · simp only [graphOf, Except.bind, hnotes, hg]
  · rw [hnodes, hpaths, hfiles, List.map_map]
    rfl
  · intro r hr content note htext hnote
    have hmem : note ∈ notes := Reply.mem_glean hnotes hr htext hnote
    have hfile : note.file = r.file := file_of_buildReader hnote
    refine ⟨Graph.nodeIn notes note, List.mem_map_of_mem hmem, congrArg FileEntry.path hfile, ?_⟩
    intro p
    rw [hnodes]
    exact Graph.mem_targetsOf

/-- A build over any backend completes with a coherent graph of the notes that can be read, as long
as the listing tells normalized paths, each once, and no text stops the build. -/
theorem build_coherent (now : Binary64) (v : VaultOf σ) {files : List FileEntry} {s : σ}
    (hlist : Backend.list now none v.store = (.ok files, s))
    (hdistinct : (files.map FileEntry.path).Nodup)
    (hnormal : ∀ f ∈ files, Path.normalize f.path = f.path)
    (hpass : ∀ r ∈ Backend.replies listedPath (files.filter FileEntry.isNote) s, r.Passable) :
    ∃ snapshot w, build now v = (.ok snapshot, w) ∧
      let g := snapshot.graph
      let replies := Backend.replies listedPath (files.filter FileEntry.isNote) s
      g.paths = (replies.filter Reply.isText).map (·.file.path) ∧
      (∀ r ∈ replies, LinksAsWritten g r) ∧
      (∀ n ∈ g.nodes, g.find? n.path = some n) ∧
      (∀ n ∈ g.nodes, ∀ p, p ∈ n.outgoing ∨ p ∈ n.incoming → p ∈ g.paths) ∧
      (∀ n ∈ g.nodes, n.outgoing.Nodup ∧ n.incoming.Nodup) ∧
      (∀ a ∈ g.nodes, ∀ b ∈ g.nodes, b.path ∈ a.outgoing ↔ a.path ∈ b.incoming) ∧
      (∀ n ∈ g.nodes, n.incoming.Sublist g.paths) ∧
      ∀ n ∈ g.nodes, (g.outgoing n.path).map (·.path) = n.outgoing ∧
        (g.incoming n.path).map (·.path) = n.incoming := by
  obtain ⟨g, hg, hcoherent, hpaths, hlinks⟩ := coherent_graphOf hdistinct hnormal hpass
  have hresult := result_build now v
  rw [hlist] at hresult
  simp only [hg, Except.map] at hresult
  refine ⟨⟨v.memo.builds, g⟩, (build now v).2, Prod.ext hresult rfl, hpaths, hlinks,
    ?_, ?_, ?_, ?_, ?_, ?_⟩
  · exact fun n hn => Graph.find?_of_mem hcoherent.nodup_paths hn
  · rintro n hn p (hp | hp)
    · exact hcoherent.mem_paths n hn p hp
    · exact (hcoherent.incoming_sublist n hn).subset hp
  · exact fun n hn => ⟨hcoherent.nodup_outgoing n hn, hcoherent.nodup_incoming hn⟩
  · exact hcoherent.mem_outgoing_iff
  · exact hcoherent.incoming_sublist
  · exact fun n hn => ⟨hcoherent.map_path_outgoing hn, hcoherent.map_path_incoming hn⟩

/-- Two notes of one name, both linking to that name, and a note that cannot be read. -/
def namesakes : Memory :=
  { name := "namesakes"
    files := [("x/note.md", "[[note]]"), ("lost.md", "[[note]]"),
      ("y/note.md", "[[note]] [[lost]]")]
    stats := []
    failing := ["lost.md"]
    reads := [] }

theorem build_coherent_namesakes :
    ∃ snapshot w, build (Binary64.ofNat 0) ⟨"namesakes", Store.memory namesakes, .empty⟩ =
        (.ok snapshot, w) ∧
      snapshot.graph.paths = ["x/note.md", "y/note.md"] ∧
      ∀ a ∈ snapshot.graph.nodes, ∀ b ∈ snapshot.graph.nodes,
        b.path ∈ a.outgoing ↔ a.path ∈ b.incoming := by
  have hpass : ∀ r ∈ Backend.replies listedPath ((namesakes.list none).filter FileEntry.isNote)
      (Store.memory namesakes), r.Passable := by decide +kernel
  have hlist : Backend.list (Binary64.ofNat 0) none (Store.memory namesakes) =
      (.ok (namesakes.list none), Store.memory namesakes) := rfl
  obtain ⟨snapshot, w, hbuild, hpaths, -, -, -, -, hedges, -⟩ :=
    build_coherent (Binary64.ofNat 0) ⟨"namesakes", Store.memory namesakes, .empty⟩ hlist
      (by decide +kernel) (by decide +kernel) hpass
  exact ⟨snapshot, w, hbuild, hpaths.trans (by decide +kernel), hedges⟩

end Vault

end MarkdownVault
