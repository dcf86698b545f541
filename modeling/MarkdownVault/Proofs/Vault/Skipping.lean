import MarkdownVault.Proofs.Base.Query
import MarkdownVault.Proofs.Graph.Coherence
import MarkdownVault.Proofs.Vault.Steadiness

/-!
# Files that leave nothing in a sweep

Files that are no notes, and notes that fail to be read in a way that is passed over, might as well
not be listed: graphs, views, searches and counts are those of the other files.
-/

namespace MarkdownVault

/-- Whether a sweep passes over a file, by what came of reading it. -/
def Failure.passesOver : Except Failure String → Bool
  | .ok _ => false
  | .error f => f.isSkipped

theorem Failure.passesOver_congr {a b : Except Failure String} (h : skipped a = skipped b) :
    passesOver a = passesOver b := by
  have hpasses (x : Except Failure String) : passesOver x ↔ skipped x = .ok none := by
    cases x with
    | ok content => simp [passesOver]
    | error f => by_cases hf : f.isSkipped <;> simp [passesOver, skipped, hf]
  rw [Bool.eq_iff_iff, hpasses, hpasses, h]

theorem Failure.skipped_eq_some_iff {a : Except Failure String} {content : String} :
    skipped a = .ok (some content) ↔ a = .ok content := by
  cases a with
  | ok other => simp
  | error f => by_cases hf : f.isSkipped <;> simp [skipped, hf]

/-- The files of a listing that a sweep does not pass over. -/
def Vault.remaining (text : String → Except Failure String) (files : List FileEntry) :
    List FileEntry :=
  files.filter fun f => f.isNote && !Failure.passesOver (text f.path)

/-! ## Replies that are passed over -/

namespace Reply

variable {α : Type} {read : Reply → String → Except Yaml.Fault α}

theorem taken_of_passesOver {r : Reply} (h : Failure.passesOver r.text) :
    taken read r = .ok none := by
  rcases r with ⟨file, path, f | content⟩
  · have hf : f.isSkipped := h
    simp [taken, Except.bind, Failure.skipped, hf]
  · cases h

theorem taken_eq_some {r : Reply} {x : α} (h : taken read r = .ok (some x)) :
    ∃ content, r.text = .ok content ∧ read r content = .ok x := by
  have htext := (taken_text h).1
  obtain ⟨content, hcontent⟩ : ∃ content, r.text = .ok content := toBool_iff.1 htext
  refine ⟨content, hcontent, ?_⟩
  cases hr : read r content with
  | error fault => simp [taken, hcontent, Except.bind, hr] at h
  | ok y =>
    simp only [taken, hcontent, Except.bind, hr, mapError_ok, Failure.skipped_ok, Except.ok.injEq,
      Option.some.injEq] at h
    rw [h]

/-- Everything that is gleaned is read from a text. -/
theorem exists_of_mem_glean {rs : List Reply} {xs : List α} (h : glean read rs = .ok xs) {x : α}
    (hx : x ∈ xs) : ∃ r ∈ rs, ∃ content, r.text = .ok content ∧ read r content = .ok x := by
  induction rs generalizing xs with
  | nil =>
    cases h
    cases hx
  | cons r rs ih =>
    obtain ⟨first, rest, hr, hrs, rfl⟩ := glean_cons_eq_ok_iff.1 h
    rw [List.mem_append, Option.mem_toList] at hx
    rcases hx with hx | hx
    · exact ⟨r, List.mem_cons_self, taken_eq_some (hx ▸ hr)⟩
    · obtain ⟨q, hq, hcontent⟩ := ih hrs hx
      exact ⟨q, List.mem_cons_of_mem r hq, hcontent⟩

/-- Replies from which nothing is taken may be left out. -/
theorem glean_filter {keep : Reply → Bool} {rs : List Reply}
    (h : ∀ r ∈ rs, keep r = false → taken read r = .ok none) :
    glean read (rs.filter keep) = glean read rs := by
  induction rs with
  | nil => rfl
  | cons r rs ih =>
    obtain ⟨hr, hrs⟩ := List.forall_mem_cons.1 h
    cases hkeep : keep r with
    | true => rw [List.filter_cons_of_pos hkeep, glean, glean, ih hrs]
    | false =>
      rw [List.filter_cons_of_neg (by simp [hkeep]), ih hrs, glean, hr hkeep]
      cases glean read rs <;> rfl

theorem glean_remaining {place : String → String} {text : String → Except Failure String}
    {files : List FileEntry}
    (hplace : ∀ f ∈ files, Failure.skipped (text (place f.path)) = Failure.skipped (text f.path))
    (wanted : FileEntry → Bool) :
    glean read (((Vault.remaining text files).filter fun f => f.isNote && wanted f).map
        (fixed place text)) =
      glean read ((files.filter fun f => f.isNote && wanted f).map (fixed place text)) := by
  have hreplies : ((Vault.remaining text files).filter fun f => f.isNote && wanted f).map
      (fixed place text) = ((files.filter fun f => f.isNote && wanted f).map
        (fixed place text)).filter fun r => !Failure.passesOver (text r.file.path) := by
    rw [List.filter_map, List.filter_filter, Vault.remaining, List.filter_filter]
    congr 2
    funext f
    cases f.isNote <;> simp [fixed, Bool.and_comm]
  rw [hreplies]
  apply glean_filter
  intro r hr hpass
  obtain ⟨f, hf, rfl⟩ := List.mem_map.1 hr
  apply taken_of_passesOver
  rw [fixed, Failure.passesOver_congr (hplace f (List.mem_of_mem_filter hf))]
  simpa [fixed] using hpass

end Reply

/-! ## What sweeps come to -/

section Results

variable {σ α β : Type} (now : Binary64) (v : VaultOf σ)

theorem result_bind_ofExcept (op : OperationM σ α) (f : α → Except Failure β) :
    ((op >>= fun a => MonadExcept.ofExcept (f a)) now v).1 = (op now v).1.bind f := by
  rw [run_bind]
  rcases op now v with ⟨_ | a, w⟩
  · rfl
  · simp [Except.bind]

end Results

/-- What all sweeps over a vault come to. -/
structure Findings where
  graph : Except Failure Graph
  view : Base → Int → Except Failure QueryResult
  search : Conversation.Criteria → Int → Except Failure Conversation.SearchResult
  census : Except Failure Conversation.Census

def VaultOf.findings {σ : Type} [Backend σ] (now : Binary64) (v : VaultOf σ) : Findings where
  graph := (Vault.build now v).1.map Snapshot.graph
  view b index := (Session.runBase b index now v).1
  search c limit := (Session.runSearch c limit now v).1
  census := (Session.runCensus now v).1

/-- What is found comes from some files alone: a node for each of them, links that are resolved
among their names, edges between them, and rows, conversations and counts of them. -/
structure Findings.Among (known : String → String) (files : List FileEntry) (a : Findings) :
    Prop where
  built : (∀ f ∈ files, Path.normalize f.path = f.path) → ∃ g, a.graph = .ok g
  nodes : ∀ g, a.graph = .ok g → ∃ notes : List ReadNote, notes.map (·.file) = files ∧
    Graph.indexOf notes = .ofPaths (files.map (·.path)) ∧ g.nodes = notes.map (Graph.nodeIn notes)
  edges : ∀ g, a.graph = .ok g → ∀ n ∈ g.nodes, n.path ∈ files.map (·.path) ∧
    ∀ p, p ∈ n.outgoing ∨ p ∈ n.incoming → p ∈ files.map (·.path)
  rows : ∀ b index result, a.view b index = .ok result →
    (∀ row ∈ result.rows, row.path ∈ files.map (·.path)) ∧ result.total ≤ files.length
  found : ∀ c limit, ∃ result, a.search c limit = .ok result ∧
    ∀ e ∈ result.found, e.note.path ∈ files.map (known ·.path)
  counted : ∃ census, a.census = .ok census ∧ census.conversationCount ≤ files.length

section TwoVaults

variable {σ τ : Type} [Backend σ] [Backend τ] {now later : Binary64} {v : VaultOf σ}
  {w : VaultOf τ}

/-- All that is found comes from the graph and from what sweeps read. -/
theorem findings_congr
    (hgraph : (Vault.build now v).1.map Snapshot.graph = (Vault.build later w).1.map Snapshot.graph)
    (hsweep : ∀ wanted, (Vault.sweep wanted now v).1 = (Vault.sweep wanted later w).1) :
    v.findings now = w.findings later := by
  have hrecords : (Session.records now v).1 = (Session.records later w).1 := by
    simp only [Session.records, run_bind_pure, hsweep]
  have hentries (c : Conversation.Criteria) :
      (Session.conversationsIn c now v).1 = (Session.conversationsIn c later w).1 := by
    simp only [Session.conversationsIn, run_bind_pure, hsweep]
  simp only [VaultOf.findings, Findings.mk.injEq]
  refine ⟨hgraph, ?_, ?_, ?_⟩
  · funext b index
    simp only [Session.runBase, result_bind_ofExcept, hrecords]
  · funext c limit
    simp only [Session.runSearch, run_bind_pure, hentries]
  · simp only [Session.runCensus, run_bind_pure, hentries]

variable {known known' : String → String} {text text' : String → Except Failure String}
  {files : List FileEntry}

/-- Two functions answer alike for the files of a listing, read under either of their paths. -/
structure SameAnswers (known known' : String → String)
    (text text' : String → Except Failure String) (files : List FileEntry) : Prop where
  places : ∀ f ∈ files, known' f.path = known f.path
  listed : ∀ f ∈ files, text' f.path = text f.path
  noted : ∀ f ∈ files, text' (known f.path) = text (known f.path)

theorem findings_eq_of_remaining (hv : v.Shows now known text files)
    (hw : w.Shows later known' text' (Vault.remaining text files))
    (hsame : SameAnswers known known' text text' (Vault.remaining text files))
    (hknown : ∀ f ∈ files,
      Failure.skipped (text (known f.path)) = Failure.skipped (text f.path)) :
    v.findings now = w.findings later := by
  apply findings_congr
  · have hreplies : (((Vault.remaining text files).filter FileEntry.isNote).map
        (Reply.fixed id text')) = ((Vault.remaining text files).filter FileEntry.isNote).map
          (Reply.fixed id text) := by
      refine List.map_congr_left fun f hf => ?_
      simp only [Reply.fixed, id_eq, hsame.listed f (List.mem_of_mem_filter hf)]
    have hlisted : ∀ f ∈ files, Failure.skipped (text (id f.path)) = Failure.skipped (text f.path) :=
      fun _ _ => rfl
    have hglean : Reply.glean Vault.buildReader _ = _ :=
      Reply.glean_remaining hlisted fun _ => true
    simp only [Bool.and_true] at hglean
    rw [hv.result_build, hw.result_build, Vault.graphOf, Vault.graphOf]
    simp only [Except.bind, hreplies, hglean]
  · intro wanted
    rw [hv.result_sweep, hw.result_sweep, ← Reply.glean_remaining hknown]
    refine congrArg _ (List.map_congr_left fun f hf => ?_)
    have hf := List.mem_of_mem_filter hf
    simp only [Reply.fixed, hsame.places f hf, hsame.noted f hf]

end TwoVaults

/-! ## Where findings come from -/

/-- All files are texts whose metadata can be read, under the paths that a rule gives them. -/
def AllReadable (place : String → String) (text : String → Except Failure String)
    (files : List FileEntry) : Prop :=
  ∀ f ∈ files, ∃ content parts,
    text (place f.path) = .ok content ∧ Note.frontMatterOf content = .ok parts

instance (place : String → String) (text : String → Except Failure String)
    (files : List FileEntry) : Decidable (AllReadable place text files) :=
  decidable_of_iff (∀ f ∈ files, (text (place f.path) >>= fun content =>
      (Note.frontMatterOf content).mapError Failure.metadata).toBool) (by
    simp only [AllReadable, toBool_iff, bind_eq_ok_iff, mapError_eq_ok_iff, exists_and_left]
    grind)

theorem Reply.exists_glean_fixed {α : Type} {read : Reply → String → Except Yaml.Fault α}
    {fileOf : α → FileEntry} (honly : OnlyMetadata read)
    (hread : ∀ r content x, read r content = .ok x → fileOf x = r.file)
    {place : String → String} {text : String → Except Failure String} {files : List FileEntry}
    (hmeta : AllReadable place text files) :
    ∃ xs, glean read (files.map (fixed place text)) = .ok xs ∧ xs.map fileOf = files := by
  have hpass : ∀ r ∈ files.map (fixed place text), r.Passable ∧ r.isText := by
    rw [List.forall_mem_map]
    intro f hf
    obtain ⟨content, parts, htext, hparts⟩ := hmeta f hf
    simp only [Passable, isText, fixed, htext]
    exact ⟨⟨parts, hparts⟩, rfl⟩
  obtain ⟨xs, hxs⟩ := (glean_ok_iff honly _).2 fun r hr => (hpass r hr).1
  refine ⟨xs, hxs, ?_⟩
  rw [map_glean hread hxs, List.filter_eq_self.2 fun r hr => (hpass r hr).2, List.map_map]
  exact List.map_id _

theorem of_noteReader {r : Reply} {content : String} {x : FileEntry × Note}
    (h : Vault.noteReader r content = .ok x) : x.1 = r.file ∧ x.2.path = r.path := by
  obtain ⟨note, hnote, rfl⟩ := map_eq_ok_iff.1 h
  obtain ⟨parts, -, hnote⟩ := bind_eq_ok_iff.1 hnote
  cases hnote
  exact ⟨rfl, rfl⟩

namespace VaultOf.Shows

variable {σ : Type} [Backend σ] {now : Binary64} {known : String → String}
  {text : String → Except Failure String} {files : List FileEntry} {v : VaultOf σ}

theorem exists_notes (h : v.Shows now known text files) (hnote : ∀ f ∈ files, f.isNote)
    (hmeta : AllReadable id text files) : ∃ notes : List ReadNote, notes.map (·.file) = files ∧
      (v.findings now).graph = match Graph.ofNotes? notes with
        | none => .error .danglingLink
        | some g => .ok g := by
  obtain ⟨notes, hnotes, hfiles⟩ := Reply.exists_glean_fixed Vault.onlyMetadata_buildReader
    (fun _ _ _ => Vault.file_of_buildReader) hmeta
  refine ⟨notes, hfiles, h.result_build.trans ?_⟩
  cases hgraph : Graph.ofNotes? notes with
  | none => simp only [Vault.graphOf, Except.bind, List.filter_eq_self.2 hnote, hnotes, hgraph]
  | some g => simp only [Vault.graphOf, Except.bind, List.filter_eq_self.2 hnote, hnotes, hgraph]

theorem exists_sweep (h : v.Shows now known text files) (hmeta : AllReadable known text files)
    (wanted : FileEntry → Bool) : ∃ notes, (Vault.sweep wanted now v).1 = .ok notes ∧
      notes.map (·.1) = (files.filter fun f => f.isNote && wanted f) ∧
      ∀ x ∈ notes, x.2.path ∈ files.map (known ·.path) := by
  have hwanted : AllReadable known text (files.filter fun f => f.isNote && wanted f) :=
    fun f hf => hmeta f (List.mem_of_mem_filter hf)
  obtain ⟨notes, hnotes, hfiles⟩ := Reply.exists_glean_fixed Vault.onlyMetadata_noteReader
    (fun _ _ _ hx => (of_noteReader hx).1) hwanted
  refine ⟨notes, (h.result_sweep wanted).trans hnotes, hfiles, ?_⟩
  intro x hx
  obtain ⟨r, hr, content, -, hread⟩ := Reply.exists_of_mem_glean hnotes hx
  obtain ⟨f, hf, rfl⟩ := List.mem_map.1 hr
  rw [(of_noteReader hread).2]
  exact List.mem_map_of_mem (List.mem_of_mem_filter hf)

theorem rows_of_view (h : v.Shows now known text files) (hnote : ∀ f ∈ files, f.isNote)
    (hmeta : AllReadable known text files) {b : Base} {index : Int} {result : QueryResult}
    (hresult : (Session.runBase b index now v).1 = .ok result) :
    (∀ row ∈ result.rows, row.path ∈ files.map (·.path)) ∧ result.total ≤ files.length := by
  obtain ⟨notes, hnotes, hlisted, -⟩ := h.exists_sweep hmeta fun _ => true
  rw [Session.runBase, result_bind_ofExcept, Session.records, run_bind_pure, hnotes] at hresult
  have hpaths : (notes.map fun x => Record.ofNote x.1 x.2).map (·.path) = files.map (·.path) := by
    simp only [List.filter_eq_self.2 hnote, Bool.and_true] at hlisted
    rw [← hlisted, List.map_map, List.map_map]
    rfl
  obtain ⟨hrows, htotal⟩ := Base.rows_of_query (mapError_eq_ok_iff.1 hresult)
  rw [hpaths] at hrows
  refine ⟨hrows, htotal.trans_eq ?_⟩
  rw [← List.length_map (·.path), hpaths, List.length_map]

theorem exists_conversations (h : v.Shows now known text files)
    (hmeta : AllReadable known text files) (c : Conversation.Criteria) :
    ∃ entries, (Session.conversationsIn c now v).1 = .ok entries ∧
      entries.length ≤ files.length ∧ ∀ e ∈ entries, e.note.path ∈ files.map (known ·.path) := by
  obtain ⟨notes, hnotes, hfiles, hpaths⟩ := h.exists_sweep hmeta fun f => c.inFolder f.path
  refine ⟨Conversation.entriesOf (notes.map (·.2)), ?_, ?_, ?_⟩
  · rw [Session.conversationsIn, run_bind_pure, hnotes]
    rfl
  · calc (Conversation.entriesOf (notes.map (·.2))).length
        ≤ _ := List.length_filter_le _ _
      _ = (notes.map (·.1)).length := by simp only [List.length_map]
      _ ≤ files.length := by rw [hfiles]; exact List.length_filter_le _ _
  · intro e he
    obtain ⟨note, hnote, rfl⟩ := List.mem_map.1 (List.mem_of_mem_filter he)
    obtain ⟨x, hx, rfl⟩ := List.mem_map.1 hnote
    exact hpaths x hx

/-- Where all files are notes that can be read, all findings come from them. -/
theorem among (h : v.Shows now known text files) (hnote : ∀ f ∈ files, f.isNote)
    (hlisted : AllReadable id text files) (hmeta : AllReadable known text files) :
    (v.findings now).Among known files := by
  obtain ⟨notes, hfiles, hgraph⟩ := h.exists_notes hnote hlisted
  have hpaths : notes.map (·.file.path) = files.map (·.path) := by
    rw [← hfiles, List.map_map]
    rfl
  have hnotes (g : Graph) (hg : (v.findings now).graph = .ok g) :
      Graph.ofNotes? notes = some g := by
    rw [hgraph] at hg
    cases hnodes : Graph.ofNotes? notes with
    | none => simp [hnodes] at hg
    | some g' => simpa [hnodes] using hg
  constructor
  case built =>
    intro hnormal
    have hnormal' : ∀ n ∈ notes, Path.normalize n.file.path = n.file.path := by
      intro n hn
      exact hnormal _ (hfiles ▸ List.mem_map_of_mem hn)
    exact ⟨_, by rw [hgraph, Graph.ofNotes?_eq_some hnormal']⟩
  case nodes =>
    intro g hg
    obtain ⟨rfl, -⟩ := Graph.of_ofNotes? (hnotes g hg)
    exact ⟨notes, hfiles, by rw [Graph.indexOf, hpaths], rfl⟩
  case edges =>
    intro g hg
    obtain ⟨rfl, htargets⟩ := Graph.of_ofNotes? (hnotes g hg)
    rw [List.forall_mem_map, ← hpaths]
    intro n hn
    refine ⟨List.mem_map_of_mem hn, ?_⟩
    rintro p (hp | hp)
    · exact htargets n hn p hp
    · rw [← Graph.map_fst_edgesOf]
      exact (Graph.sourcesOf_sublist _ _).subset hp
  case rows => exact fun b index result => h.rows_of_view hnote hmeta
  case found =>
    intro c limit
    obtain ⟨entries, hentries, -, hmem⟩ := h.exists_conversations hmeta c
    refine ⟨⟨c, Conversation.search c limit entries⟩, ?_, ?_⟩
    · simp only [findings, Session.runSearch, run_bind_pure, hentries, Except.map]
    · intro e he
      have hsorted := List.mem_of_mem_take he
      rw [List.mem_mergeSort] at hsorted
      exact hmem e (List.mem_of_mem_filter hsorted)
  case counted =>
    obtain ⟨entries, hentries, hlength, -⟩ := h.exists_conversations hmeta .none
    refine ⟨.ofEntries entries, ?_, hlength⟩
    simp only [findings, Session.runCensus, run_bind_pure, hentries, Except.map]

end VaultOf.Shows

section TwoVaults

variable {σ τ : Type} [Backend σ] [Backend τ] {now later : Binary64} {v : VaultOf σ}
  {w : VaultOf τ} {known known' : String → String} {text text' : String → Except Failure String}
  {files : List FileEntry}

/-- A vault finds what it would find if the files that are no notes and those that are passed over
were not listed. If the others have metadata that can be read, all findings come from them. -/
theorem findings_of_remaining (hv : v.Shows now known text files)
    (hw : w.Shows later known' text' (Vault.remaining text files))
    (hsame : SameAnswers known known' text text' (Vault.remaining text files))
    (hknown : ∀ f ∈ files,
      Failure.skipped (text (known f.path)) = Failure.skipped (text f.path)) :
    v.findings now = w.findings later ∧
      (AllReadable id text (Vault.remaining text files) →
        (v.findings now).Among known (Vault.remaining text files)) := by
  have heq := findings_eq_of_remaining hv hw hsame hknown
  refine ⟨heq, fun hlisted => ?_⟩
  have hnote : ∀ f ∈ Vault.remaining text files, f.isNote := fun f hf =>
    (Bool.and_eq_true_iff.1 (List.mem_filter.1 hf).2).1
  have hlisted' : AllReadable id text' (Vault.remaining text files) := by
    intro f hf
    rw [id, hsame.listed f hf]
    exact hlisted f hf
  have hnoted' : AllReadable known' text' (Vault.remaining text files) := by
    intro f hf
    obtain ⟨content, parts, htext, hparts⟩ := hlisted f hf
    have hskipped := hknown f (List.mem_of_mem_filter hf)
    rw [id] at htext
    rw [htext, Failure.skipped_ok, Failure.skipped_eq_some_iff] at hskipped
    exact ⟨content, parts, by rw [hsame.places f hf, hsame.noted f hf, hskipped], hparts⟩
  have hplaces : (Vault.remaining text files).map (known' ·.path) =
      (Vault.remaining text files).map (known ·.path) := List.map_congr_left hsame.places
  have hamong := hw.among hnote hlisted' hnoted'
  rw [heq]
  exact { hamong with found := hplaces ▸ hamong.found }

end TwoVaults

/-- Two notes that can be read, one that cannot, and a file that is no note. -/
def oneLost : Memory :=
  { name := "notes"
    files := [("a.md", "[[lost]] [[b]]"), ("lost.md", "[[a]]"), ("plan.txt", "[[a]]"),
      ("b.md", "#x")]
    stats := []
    failing := ["lost.md"]
    reads := [] }

/-- The listing of the same notes without the other two files. -/
def oneLost.others : Files where
  listing _ := .ok (Vault.remaining (fun path => (oneLost.read path).1) (oneLost.list none))
  text path := (oneLost.read path).1

theorem findings_of_remaining_lost :
    let v : Vault := ⟨"notes", .memory oneLost, .empty⟩
    let w : VaultOf Files := ⟨"notes", oneLost.others, .empty⟩
    let files := Vault.remaining (fun path => (oneLost.read path).1) (oneLost.list none)
    v.findings default = w.findings default ∧ (v.findings default).Among id files ∧
      files.map (·.path) = ["a.md", "b.md"] := by
  intro v w files
  have hv : v.Shows default id (fun path => (oneLost.read path).1) (oneLost.list none) :=
    ⟨rfl, (Store.memory oneLost).steady⟩
  have hw : w.Shows default id (fun path => (oneLost.read path).1) files :=
    ⟨rfl, oneLost.others.steady⟩
  obtain ⟨heq, hamong⟩ := findings_of_remaining hv hw
    ⟨fun _ _ => rfl, fun _ _ => rfl, fun _ _ => rfl⟩
    fun f _ => (Store.memory oneLost).skipped_read_notePath f.path
  exact ⟨heq, hamong (by decide +kernel), by decide +kernel⟩

end MarkdownVault
