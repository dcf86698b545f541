import MarkdownVault.Proofs.Graph.Coherence
import MarkdownVault.Proofs.Yaml.Document

/-!
# Sweeps that come to their end

The metadata of one note can stop a sweep: what the reader of documents reports as malformed only
costs the note its metadata, and any other fault goes all the way up.
-/

namespace MarkdownVault

/-! ## Metadata of one note -/

namespace Note

variable {content metadata body : String}

/-- What stands between the fences of a note, and the body behind them. -/
def fenced? (content : String) : Option (String × String) :=
  if (Text.dropStart? ['-', '-', '-'] (Text.trimStart content.toList)).isSome then
    (cutFrontMatter? (Text.trim (plainBreaks content.toList))).map fun (metadata, body) =>
      (String.ofList metadata, String.ofList (Text.trim body))
  else none

/-- No other fault between the fences than that the document is malformed. -/
def Harmless (content : String) : Prop :=
  ∀ metadata body fault, fenced? content = some (metadata, body) →
    Yaml.valueOf .lenient metadata = .error fault → fault = .malformed

/-- Metadata and body of a fenced note, by what its metadata mean. -/
def partsOf (content body : String) :
    Except Yaml.Fault Value → Except Yaml.Fault (Properties × String)
  | .ok (.map entries) => .ok (propertiesOf (Value.ownEntries entries), body)
  | .ok _ => .ok ([], body)
  | .error .malformed => .ok ([], content)
  | .error fault => .error fault

theorem frontMatterOf_of_fenced? (h : fenced? content = some (metadata, body)) :
    frontMatterOf content = partsOf content body (Yaml.valueOf .lenient metadata) := by
  rw [fenced?] at h
  split at h
  case isFalse => cases h
  case isTrue hopens =>
    obtain ⟨⟨cs, rest⟩, hcut, hparts⟩ := Option.map_eq_some_iff.1 h
    cases hparts
    simp only [frontMatterOf, hopens, Bool.not_true, Bool.false_eq_true, if_false, hcut]
    rfl

theorem exists_frontMatterOf_of_not_fenced (h : fenced? content = none) :
    ∃ body, frontMatterOf content = .ok ([], body) := by
  rw [fenced?] at h
  split at h
  case isFalse hopens => exact ⟨content, by simp [frontMatterOf, hopens]⟩
  case isTrue hopens =>
    rw [Option.map_eq_none_iff] at h
    simp only [frontMatterOf, hopens, Bool.not_true, Bool.false_eq_true, if_false, h]
    exact ⟨_, rfl⟩

theorem frontMatterOf_of_malformed (h : fenced? content = some (metadata, body))
    (hvalue : Yaml.valueOf .lenient metadata = .error .malformed) :
    frontMatterOf content = .ok ([], content) := by
  rw [frontMatterOf_of_fenced? h, hvalue, partsOf]

theorem frontMatterOf_of_ne_map {v : Value} (h : fenced? content = some (metadata, body))
    (hvalue : Yaml.valueOf .lenient metadata = .ok v) (hmap : ∀ entries, v ≠ .map entries) :
    frontMatterOf content = .ok ([], body) := by
  rw [frontMatterOf_of_fenced? h, hvalue]
  cases v with
  | map entries => exact absurd rfl (hmap entries)
  | _ => rfl

theorem harmless_iff (h : fenced? content = some (metadata, body)) :
    Harmless content ↔
      ∀ fault, Yaml.valueOf .lenient metadata = .error fault → fault = .malformed := by
  constructor
  · intro hall fault
    exact hall metadata body fault h
  · intro hall _ _ fault hcut
    cases h.symm.trans hcut
    exact hall fault

theorem frontMatterOf_ok_iff (content : String) :
    (∃ parts, frontMatterOf content = .ok parts) ↔ Harmless content := by
  cases h : fenced? content with
  | none =>
    obtain ⟨body, hparts⟩ := exists_frontMatterOf_of_not_fenced h
    exact ⟨fun _ => by simp [Harmless, h], fun _ => ⟨_, hparts⟩⟩
  | some parts =>
    obtain ⟨metadata, body⟩ := parts
    rw [frontMatterOf_of_fenced? h, harmless_iff h]
    cases Yaml.valueOf .lenient metadata with
    | error fault => cases fault <;> simp [partsOf]
    | ok v => cases v <;> simp [partsOf]

end Note

/-- A reply that a sweep gets past. -/
def Reply.Harmless (r : Reply) : Prop :=
  match r.text with
  | .ok content => Note.Harmless content
  | .error f => f.isSkipped

theorem Reply.passable_iff (r : Reply) : r.Passable ↔ r.Harmless := by
  rcases r with ⟨file, path, f | content⟩
  · exact Iff.rfl
  · exact Note.frontMatterOf_ok_iff content

/-! ## Sweeps -/

section Sweep

variable {σ : Type} [Backend σ] {now : Binary64} {v : VaultOf σ} {files : List FileEntry} {s : σ}

theorem Vault.build_ok_iff (hlist : Backend.list now none v.store = (.ok files, s))
    (hnormal : ∀ f ∈ files, Path.normalize f.path = f.path) :
    (∃ snapshot, (build now v).1 = .ok snapshot) ↔
      ∀ r ∈ Backend.replies listedPath (files.filter FileEntry.isNote) s, r.Harmless := by
  simp only [← Reply.passable_iff, ← Reply.glean_ok_iff onlyMetadata_buildReader]
  rw [result_build, hlist, graphOf]
  simp only [Except.bind]
  cases hglean : Reply.glean buildReader
      (Backend.replies listedPath (files.filter FileEntry.isNote) s) with
  | error f => simp [Except.map]
  | ok notes =>
    simp [Graph.ofNotes?_eq_some (normal_of_glean hnormal hglean), Except.map]

theorem Vault.sweep_ok_iff (hlist : Backend.list now none v.store = (.ok files, s))
    (wanted : FileEntry → Bool) :
    (∃ notes, (sweep wanted now v).1 = .ok notes) ↔
      ∀ r ∈ Backend.replies knownPath (files.filter fun f => f.isNote && wanted f) s,
        r.Harmless := by
  simp only [← Reply.passable_iff, ← Reply.glean_ok_iff onlyMetadata_noteReader]
  rw [result_sweep, hlist]
  rfl

theorem Session.records_ok_iff (hlist : Backend.list now none v.store = (.ok files, s)) :
    (∃ contexts, (records now v).1 = .ok contexts) ↔
      ∀ r ∈ Backend.replies Vault.knownPath (files.filter FileEntry.isNote) s, r.Harmless := by
  have h := Vault.sweep_ok_iff hlist fun _ => true
  simp only [Bool.and_true] at h
  rw [← h, records, run_bind_pure]
  cases (Vault.sweep (fun _ => true) now v).1 <;> simp [Except.map]

theorem Session.conversationsIn_ok_iff (hlist : Backend.list now none v.store = (.ok files, s))
    (c : Conversation.Criteria) :
    (∃ entries, (conversationsIn c now v).1 = .ok entries) ↔
      ∀ r ∈ Backend.replies Vault.knownPath (files.filter fun f => f.isNote && c.inFolder f.path) s,
        r.Harmless := by
  rw [← Vault.sweep_ok_iff hlist fun f => c.inFolder f.path, conversationsIn, run_bind_pure]
  cases (Vault.sweep (fun f => c.inFolder f.path) now v).1 <;> simp [Except.map]

end Sweep

/-- Reading a note fails exactly if there is a fault between its fences other than a malformed
document. A malformed document costs the note its metadata only, and one that is no mapping its
fences, too. A build, a sweep for records and a search for conversations come to their end exactly
if no reply is such a note or a failure that is not passed over. -/
theorem sweeps_complete_iff {σ : Type} [Backend σ] (now : Binary64) (v : VaultOf σ)
    {files : List FileEntry} {s : σ} (hlist : Backend.list now none v.store = (.ok files, s))
    (hnormal : ∀ f ∈ files, Path.normalize f.path = f.path) :
    (∀ content, (∃ parts, Note.frontMatterOf content = .ok parts) ↔ Note.Harmless content) ∧
    (∀ content metadata body, Note.fenced? content = some (metadata, body) →
      Yaml.valueOf .lenient metadata = .error .malformed →
        Note.frontMatterOf content = .ok ([], content)) ∧
    (∀ content metadata body value, Note.fenced? content = some (metadata, body) →
      Yaml.valueOf .lenient metadata = .ok value → (∀ entries, value ≠ .map entries) →
        Note.frontMatterOf content = .ok ([], body)) ∧
    ((∃ snapshot, (Vault.build now v).1 = .ok snapshot) ↔
      ∀ r ∈ Backend.replies Vault.listedPath (files.filter FileEntry.isNote) s, r.Harmless) ∧
    ((∃ contexts, (Session.records now v).1 = .ok contexts) ↔
      ∀ r ∈ Backend.replies Vault.knownPath (files.filter FileEntry.isNote) s, r.Harmless) ∧
    ∀ c : Conversation.Criteria,
      (∃ entries, (Session.conversationsIn c now v).1 = .ok entries) ↔
        ∀ r ∈ Backend.replies Vault.knownPath
          (files.filter fun f => f.isNote && c.inFolder f.path) s, r.Harmless :=
  ⟨Note.frontMatterOf_ok_iff, fun _ _ _ => Note.frontMatterOf_of_malformed,
    fun _ _ _ _ => Note.frontMatterOf_of_ne_map, Vault.build_ok_iff hlist hnormal,
    Session.records_ok_iff hlist, Session.conversationsIn_ok_iff hlist⟩

/-- Notes kept in memory, by path. -/
def Memory.ofTexts (texts : List (String × String)) : Memory := ⟨"notes", texts, [], [], []⟩

def Vault.ofTexts (texts : List (String × String)) : Vault :=
  ⟨"notes", .memory (.ofTexts texts), .empty⟩

theorem Yaml.valueOf_openBracket : Yaml.valueOf .lenient "\n[\n" = .error .malformed := by
  have htokens : Token.ofText .lenient "\n[\n".toList = .ok [.flowSequenceStart] :=
    tokens_of_chars rfl (by decide +kernel)
  have hnode : Node.ofTokens [.flowSequenceStart] = .error .malformed := rfl
  simp only [valueOf, Node.ofText, htokens, bind, Except.bind, hnode]

/-- A note whose metadata are malformed stops nothing. -/
theorem sweeps_complete_iff_openBracket :
    Note.frontMatterOf "---\n[\n---\nx" = .ok ([], "---\n[\n---\nx") ∧
      let v := Vault.ofTexts [("a.md", "---\n[\n---\nx"), ("b.md", "")]
      (∃ snapshot, (Vault.build (Binary64.ofNat 0) v).1 = .ok snapshot) ∧
      (∃ contexts, (Session.records (Binary64.ofNat 0) v).1 = .ok contexts) ∧
      ∃ entries, (Session.conversationsIn .none (Binary64.ofNat 0) v).1 = .ok entries := by
  let m : Memory := .ofTexts [("a.md", "---\n[\n---\nx"), ("b.md", "")]
  have hlist : Backend.list (Binary64.ofNat 0) none (Store.memory m) =
      (.ok (m.list none), Store.memory m) := rfl
  obtain ⟨-, hmalformed, -, hbuild, hrecords, hconversations⟩ :=
    sweeps_complete_iff (Binary64.ofNat 0)
      (Vault.ofTexts [("a.md", "---\n[\n---\nx"), ("b.md", "")]) hlist (by decide +kernel)
  simp only [← Reply.passable_iff] at hbuild hrecords hconversations
  refine ⟨hmalformed _ "\n[\n" "x" (by decide +kernel) Yaml.valueOf_openBracket, ?_, ?_, ?_⟩
  · exact hbuild.2 (by decide +kernel)
  · exact hrecords.2 (by decide +kernel)
  · exact (hconversations .none).2 (by decide +kernel)

/-- A note that is dated to a thirteenth month. -/
def impossibleDay : String := "---\nd: 2024-13-01\n---\nx"

theorem Yaml.valueOf_impossibleDay :
    Yaml.valueOf .lenient "\nd: 2024-13-01\n" = .error .badScalar := by
  have htokens : Token.ofText .lenient "\nd: 2024-13-01\n".toList =
      .ok [.blockMappingStart, .key, .scalar "d" true, .value, .scalar "2024-13-01" true,
        .blockEnd] :=
    tokens_of_chars rfl (by decide +kernel)
  have htime : timeOf "2024-13-01" = .error .badScalar := rfl
  have hvalue : (Node.mapping .map [(.scalar .text "d", .scalar .time "2024-13-01")]).value =
      .error .badScalar := by
    simp only [Node.value, valueAt, entriesAt, merged, ownEntries, scalarOf, htime]
    rfl
  exact (valueOf_of_tokens htokens rfl).trans hvalue

theorem Yaml.valueOf_listing : Yaml.valueOf .lenient "\n- a\n" = .ok (.list [.text "a"]) := by
  have htokens : Token.ofText .lenient "\n- a\n".toList =
      .ok [.blockSequenceStart, .blockEntry, .scalar "a" true, .blockEnd] :=
    tokens_of_chars rfl (by decide +kernel)
  have hvalue : (Node.sequence .list [.scalar .text "a"]).value = .ok (.list [.text "a"]) := by
    simp only [Node.value, valueAt, valuesAt, scalarOf]
    rfl
  exact (valueOf_of_tokens htokens rfl).trans hvalue

theorem Note.frontMatterOf_impossibleDay : frontMatterOf impossibleDay = .error .badScalar := by
  have hfenced : fenced? impossibleDay = some ("\nd: 2024-13-01\n", "x") := by decide +kernel
  rw [frontMatterOf_of_fenced? hfenced, Yaml.valueOf_impossibleDay]
  rfl

theorem Note.not_harmless_impossibleDay : ¬ Harmless impossibleDay := by
  rw [← frontMatterOf_ok_iff, frontMatterOf_impossibleDay]
  rintro ⟨_, ⟨⟩⟩

theorem Reply.not_forall_harmless {rs : List Reply}
    (h : rs.any fun r => r.text.toOption == some impossibleDay) : ¬∀ r ∈ rs, r.Harmless := by
  obtain ⟨⟨file, path, text⟩, hr, htext⟩ := List.any_eq_true.1 h
  intro hall
  have hharmless := hall _ hr
  cases text with
  | error f => cases htext
  | ok content =>
    obtain rfl : content = impossibleDay := Option.some.inj (eq_of_beq htext)
    exact Note.not_harmless_impossibleDay hharmless

/-- One note with a day that does not exist stops all sweeps, and a list between the fences takes
them from the body. -/
theorem impossibleDay_stops_sweeps :
    Note.frontMatterOf impossibleDay = .error .badScalar ∧
      Note.frontMatterOf "---\n- a\n---\nx" = .ok ([], "x") ∧
      let v := Vault.ofTexts [("a.md", impossibleDay), ("b.md", "")]
      (¬∃ snapshot, (Vault.build (Binary64.ofNat 0) v).1 = .ok snapshot) ∧
      (¬∃ contexts, (Session.records (Binary64.ofNat 0) v).1 = .ok contexts) ∧
      ¬∃ entries, (Session.conversationsIn .none (Binary64.ofNat 0) v).1 = .ok entries := by
  let m : Memory := .ofTexts [("a.md", impossibleDay), ("b.md", "")]
  have hlist : Backend.list (Binary64.ofNat 0) none (Store.memory m) =
      (.ok (m.list none), Store.memory m) := rfl
  refine ⟨Note.frontMatterOf_impossibleDay, ?_, ?_, ?_, ?_⟩
  · apply Note.frontMatterOf_of_ne_map (by decide +kernel) Yaml.valueOf_listing
    simp
  · rw [Vault.build_ok_iff hlist (by decide +kernel)]
    exact Reply.not_forall_harmless (by decide +kernel)
  · rw [Session.records_ok_iff hlist]
    exact Reply.not_forall_harmless (by decide +kernel)
  · rw [Session.conversationsIn_ok_iff hlist]
    exact Reply.not_forall_harmless (by decide +kernel)

end MarkdownVault
