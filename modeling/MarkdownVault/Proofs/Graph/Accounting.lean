import MarkdownVault.Proofs.Graph.Coherence
import MarkdownVault.Proofs.Graph.Schedule
import MarkdownVault.Proofs.Vault.Skipping

/-!
# What becomes of links

A link names a heading only, or leads to a note of the graph, or is kept among the unresolved links.
Unresolved links are kept for all notes together and edges for each note, but what a link means
depends on the link and the paths of the graph alone, so the two never overlap, whichever note a
link stands in.
-/

namespace MarkdownVault

/-- A link that names nothing but a heading. -/
def LinkIndex.IsHeading (raw : String) : Prop := targetName raw = ""

instance (raw : String) : Decidable (LinkIndex.IsHeading raw) :=
  inferInstanceAs (Decidable (_ = _))

theorem LinkIndex.resolve_of_isHeading {raw : String} (h : IsHeading raw) (index : LinkIndex) :
    index.resolve raw = none := by
  rw [IsHeading] at h
  simp [resolve, h]

namespace Graph

/-- The note that a link means in a graph. -/
def resolve (g : Graph) (raw : String) : Option String := (LinkIndex.ofPaths g.paths).resolve raw

/-- An edge from a note to a path comes from a link of the note. -/
def LeadsTo (g : Graph) (note : ReadNote) (raw path : String) : Prop :=
  raw ∈ Note.linksOf note.body ∧ g.resolve raw = some path

/-- A node that accounts for the links of a note: it has an edge for everything that they resolve
to, in the order in which it is first met, and every link is in one of three classes. -/
structure Accounts (g : Graph) (note : ReadNote) (n : GraphNode) : Prop where
  path : n.path = note.file.path
  outgoing : n.outgoing = ((Note.linksOf note.body).filterMap g.resolve).eraseDups
  classes : ∀ raw ∈ Note.linksOf note.body,
    (LinkIndex.IsHeading raw ∧ g.resolve raw = none ∧ raw ∉ g.unresolved) ∨
    (¬LinkIndex.IsHeading raw ∧ (∃ p ∈ n.outgoing, g.LeadsTo note raw p) ∧ raw ∉ g.unresolved) ∨
    (¬LinkIndex.IsHeading raw ∧ g.resolve raw = none ∧ raw ∈ g.unresolved)

variable {index : LinkIndex} {note : ReadNote} {notes : List ReadNote} {raw : String}

/-- Links that name nothing but a heading need not be left out: they resolve to nothing. -/
theorem targetsOf_eq (index : LinkIndex) (note : ReadNote) :
    targetsOf index note = ((Note.linksOf note.body).filterMap index.resolve).eraseDups := by
  have hall : (namingLinks note).filterMap index.resolve =
      (Note.linksOf note.body).filterMap index.resolve := by
    rw [namingLinks, List.filterMap_filter]
    refine List.filterMap_congr fun raw _ => ?_
    by_cases hheading : LinkIndex.IsHeading raw
    · rw [LinkIndex.resolve_of_isHeading hheading, ite_self]
    · rw [if_pos (by simpa [LinkIndex.IsHeading] using hheading)]
  rw [targetsOf, hall]

theorem mem_unresolvedOf : raw ∈ unresolvedOf index note ↔
    raw ∈ Note.linksOf note.body ∧ ¬LinkIndex.IsHeading raw ∧ index.resolve raw = none := by
  simp only [unresolvedOf, namingLinks, List.mem_filter, and_assoc, Option.isNone_iff_eq_none,
    Bool.not_eq_true', String.isEmpty_eq_false_iff, LinkIndex.IsHeading, ne_eq]

section Notes

variable {g : Graph} (hg : ofNotes? notes = some g)
include hg

theorem paths_of_ofNotes? : g.paths = notes.map (·.file.path) := by
  rw [(of_ofNotes? hg).1]
  exact paths_nodeIn _

theorem resolve_of_ofNotes? : g.resolve = (indexOf notes).resolve := by
  funext raw
  rw [resolve, paths_of_ofNotes? hg, indexOf]

/-- The unresolved links are those of all notes together. -/
theorem mem_unresolved_iff : raw ∈ g.unresolved ↔ ∃ note ∈ notes,
    raw ∈ Note.linksOf note.body ∧ ¬LinkIndex.IsHeading raw ∧ g.resolve raw = none := by
  rw [resolve_of_ofNotes? hg, (of_ofNotes? hg).1]
  simp only [List.mem_eraseDups, List.mem_flatMap, mem_unresolvedOf]

theorem nodup_unresolved : g.unresolved.Nodup := by
  rw [(of_ofNotes? hg).1]
  exact nodup_eraseDups _

theorem accounts_nodeIn (hnote : note ∈ notes) : g.Accounts note (nodeIn notes note) where
  path := rfl
  outgoing := by
    rw [resolve_of_ofNotes? hg, ← targetsOf_eq]
    rfl
  classes := by
    intro raw hraw
    by_cases hheading : LinkIndex.IsHeading raw
    · refine .inl ⟨hheading, LinkIndex.resolve_of_isHeading hheading _, ?_⟩
      intro hmem
      obtain ⟨_, -, -, hnaming, -⟩ := (mem_unresolved_iff hg).1 hmem
      exact hnaming hheading
    · cases hpath : g.resolve raw with
      | none => exact .inr (.inr ⟨hheading, rfl, (mem_unresolved_iff hg).2
          ⟨note, hnote, hraw, hheading, hpath⟩⟩)
      | some p =>
        have hedge : p ∈ (nodeIn notes note).outgoing :=
          mem_targetsOf.2 ⟨raw, hraw, resolve_of_ofNotes? hg ▸ hpath⟩
        refine .inr (.inl ⟨hheading, ⟨p, hedge, hraw, hpath⟩, ?_⟩)
        intro hmem
        obtain ⟨_, -, -, -, hnone⟩ := (mem_unresolved_iff hg).1 hmem
        rw [hpath] at hnone
        cases hnone

theorem exists_accounts (hnote : note ∈ notes) : ∃ n ∈ g.nodes, g.Accounts note n := by
  refine ⟨nodeIn notes note, ?_, accounts_nodeIn hg hnote⟩
  rw [(of_ofNotes? hg).1]
  exact List.mem_map_of_mem hnote

theorem exists_note_of_mem_nodes {n : GraphNode} (hn : n ∈ g.nodes) :
    ∃ note ∈ notes, g.Accounts note n := by
  rw [(of_ofNotes? hg).1] at hn
  obtain ⟨note, hnote, rfl⟩ := List.mem_map.1 hn
  exact ⟨note, hnote, accounts_nodeIn hg hnote⟩

end Notes

end Graph

/-- A reply is a text that reads as a note. -/
def Reply.Gives (r : Reply) (note : ReadNote) : Prop :=
  ∃ content, r.text = .ok content ∧ ReadNote.ofText r.file content = .ok note

/-- The notes of a build are those that its replies give. -/
theorem Reply.mem_glean_iff {rs : List Reply} {notes : List ReadNote}
    (h : glean Vault.buildReader rs = .ok notes) {note : ReadNote} :
    note ∈ notes ↔ ∃ r ∈ rs, r.Gives note := by
  constructor
  · exact exists_of_mem_glean h
  · rintro ⟨r, hr, content, htext, hnote⟩
    exact mem_glean h hr htext hnote

/-- A graph is built from the notes that the replies to its listing give. -/
theorem Vault.exists_notes_of_build {σ : Type} [Backend σ] {now : Binary64} {v : VaultOf σ}
    {snapshot : Snapshot} (h : (build now v).1 = .ok snapshot) :
    ∃ files s notes, Backend.list now none v.store = (.ok files, s) ∧
      Reply.glean buildReader (Backend.replies listedPath (files.filter FileEntry.isNote) s) =
        .ok notes ∧ Graph.ofNotes? notes = some snapshot.graph := by
  rw [result_build] at h
  obtain ⟨g, hg, rfl⟩ := map_eq_ok_iff.1 h
  obtain ⟨files, hlist, hg⟩ := bind_eq_ok_iff.1 hg
  obtain ⟨notes, hnotes, hg⟩ := bind_eq_ok_iff.1 hg
  refine ⟨files, _, notes, Prod.ext hlist rfl, hnotes, ?_⟩
  cases hgraph : Graph.ofNotes? notes with
  | none => simp [hgraph] at hg
  | some g' =>
    simp only [hgraph, Except.ok.injEq] at hg
    rw [hg]

/-- Every graph that is built accounts for all links of all notes that were read for it. -/
theorem Vault.build_accounts {σ : Type} [Backend σ] {now : Binary64} {v : VaultOf σ}
    {snapshot : Snapshot} (h : (build now v).1 = .ok snapshot) :
    ∃ files s, Backend.list now none v.store = (.ok files, s) ∧
      let g := snapshot.graph
      let replies := Backend.replies listedPath (files.filter FileEntry.isNote) s
      (∀ r ∈ replies, ∀ note, r.Gives note → ∃ n ∈ g.nodes, g.Accounts note n) ∧
      (∀ n ∈ g.nodes, ∃ r ∈ replies, ∃ note, r.Gives note ∧ g.Accounts note n) ∧
      (∀ raw, raw ∈ g.unresolved ↔ ∃ r ∈ replies, ∃ note, r.Gives note ∧
        raw ∈ Note.linksOf note.body ∧ ¬LinkIndex.IsHeading raw ∧ g.resolve raw = none) ∧
      g.unresolved.Nodup ∧
      ∀ raw ∈ g.unresolved, ∀ r ∈ replies, ∀ note, r.Gives note → ∀ p, ¬g.LeadsTo note raw p := by
  obtain ⟨files, s, notes, hlist, hnotes, hg⟩ := exists_notes_of_build h
  refine ⟨files, s, hlist, ?_, ?_, ?_, Graph.nodup_unresolved hg, ?_⟩
  · intro r hr note hnote
    exact Graph.exists_accounts hg ((Reply.mem_glean_iff hnotes).2 ⟨r, hr, hnote⟩)
  · intro n hn
    obtain ⟨note, hnote, haccounts⟩ := Graph.exists_note_of_mem_nodes hg hn
    obtain ⟨r, hr, hgives⟩ := (Reply.mem_glean_iff hnotes).1 hnote
    exact ⟨r, hr, note, hgives, haccounts⟩
  · intro raw
    rw [Graph.mem_unresolved_iff hg]
    constructor
    · rintro ⟨note, hnote, hraw⟩
      obtain ⟨r, hr, hgives⟩ := (Reply.mem_glean_iff hnotes).1 hnote
      exact ⟨r, hr, note, hgives, hraw⟩
    · rintro ⟨r, hr, note, hgives, hraw⟩
      exact ⟨note, (Reply.mem_glean_iff hnotes).2 ⟨r, hr, hgives⟩, hraw⟩
  · rintro raw hraw r hr note hgives p ⟨-, hlead⟩
    obtain ⟨_, -, -, -, hnone⟩ := (Graph.mem_unresolved_iff hg).1 hraw
    rw [hlead] at hnone
    cases hnone

/-- Two notes of which one has links of all three classes, and a note that cannot be read. -/
def mixedLinks : VaultOf Files where
  name := "notes"
  store := {
    listing := fun _ => .ok (["a.md", "lost.md", "b.md"].map (FileEntry.ofPath · .empty))
    text := fun path =>
      if path = "lost.md" then .error .system
      else if path = "a.md" then .ok "[[b]] [[#Top]] [[lost]] [[B#Top]]"
      else .ok "[[lost]]" }
  memo := .empty

theorem Vault.build_accounts_mixedLinks :
    ∃ snapshot, (build default mixedLinks).1 = .ok snapshot ∧
      "lost" ∈ snapshot.graph.unresolved ∧
      ∃ n ∈ snapshot.graph.nodes, n.path = "a.md" ∧
        ∃ p ∈ n.outgoing, snapshot.graph.resolve "B#Top" = some p := by
  let file : FileEntry := .ofPath "a.md" .empty
  let content : String := "[[b]] [[#Top]] [[lost]] [[B#Top]]"
  obtain ⟨snapshot, hbuild⟩ := toBool_iff.1
    (show (build default mixedLinks).1.toBool by decide +kernel)
  obtain ⟨files, s, hlist, hnotes, -⟩ := build_accounts hbuild
  cases hlist
  have hplain : (Text.dropStart? ['-', '-', '-'] (Text.trimStart content.toList)).isSome = false := by
    decide +kernel
  have hgives : (Reply.mk file "a.md" (.ok content)).Gives ⟨file, content, [], content⟩ := by
    refine ⟨content, rfl, ?_⟩
    simp only [ReadNote.ofText, Note.frontMatterOf, hplain]
    rfl
  have hgraph : (build default mixedLinks).1.map (fun s => s.graph.paths) =
      .ok ["a.md", "b.md"] := eq_ok_of_toOption (by decide +kernel)
  rw [hbuild] at hgraph
  have hpaths : snapshot.graph.paths = ["a.md", "b.md"] := Except.ok.inj hgraph
  have hlost : snapshot.graph.resolve "lost" = none := by
    rw [Graph.resolve, hpaths]
    decide +kernel
  have hb : snapshot.graph.resolve "B#Top" = some "b.md" := by
    rw [Graph.resolve, hpaths]
    decide +kernel
  obtain ⟨n, hn, haccounts⟩ := hnotes _ (.head _) _ hgives
  refine ⟨snapshot, hbuild, ?_, n, hn, haccounts.path, ?_⟩
  · have hclass := haccounts.classes "lost" (by decide +kernel)
    have hnaming : ¬LinkIndex.IsHeading "lost" := by decide +kernel
    simpa [hnaming, hlost, Graph.LeadsTo] using hclass
  · have hclass := haccounts.classes "B#Top" (by decide +kernel)
    have hnaming : ¬LinkIndex.IsHeading "B#Top" := by decide +kernel
    simp only [hnaming, hb, Graph.LeadsTo, false_and, reduceCtorEq, and_false, or_false, false_or,
      not_false_eq_true, true_and] at hclass
    obtain ⟨⟨p, hp, -, hlead⟩, -⟩ := hclass
    exact ⟨p, hp, hb.trans hlead⟩

end MarkdownVault
