import Mathlib.Algebra.BigOperators.Group.List.Lemmas
import Mathlib.Data.List.Dedup
import MarkdownVault.Conversation.Census
import MarkdownVault.Proofs.Conversation.Detection
import MarkdownVault.Proofs.Conversation.Search
import MarkdownVault.Proofs.Graph.Naming
import MarkdownVault.Proofs.Session.Addressing

/-!
# Counts agree with searches

A census counts the conversations that a search without criteria finds, in all and one by one: by
source, as a search for that source would, and by the month of creation.
-/

namespace MarkdownVault

theorem total_eq_sum (ns : List Nat) : total ns = ns.sum := by
  induction ns with
  | nil => rfl
  | cons n ns ih => rw [total, ih, List.sum_cons]

namespace Conversation

/-! ## Tallies -/

/-- The number that stands beside a text, zero if the text does not occur. -/
def countOf (counts : List (String × Nat)) (s : String) : Nat := (counts.lookup s).getD 0

theorem map_fst_tally (texts : List String) : (tally texts).map (·.1) = texts.eraseDups := by
  rw [tally, List.map_map]
  exact List.map_id _

theorem countOf_tally (texts : List String) (s : String) :
    countOf (tally texts) s = texts.count s := by
  rw [countOf, tally, lookup_map_key]
  by_cases h : s ∈ texts
  · rw [if_pos (List.mem_eraseDups.2 h), Option.getD_some]
  · rw [if_neg (mt List.mem_eraseDups.1 h), Option.getD_none, List.count_eq_zero_of_not_mem h]

/-- Each text is counted under one key. -/
theorem sum_tally (texts : List String) : ((tally texts).map (·.2)).sum = texts.length := by
  have hperm : texts.eraseDups.Perm texts.dedup :=
    (List.perm_ext_iff_of_nodup (nodup_eraseDups texts) texts.nodup_dedup).2 fun s => by
      rw [List.mem_eraseDups, List.mem_dedup]
  calc ((tally texts).map (·.2)).sum
      = (texts.eraseDups.map fun s => texts.count s).sum := by
        rw [tally, List.map_map]
        rfl
    _ = (texts.dedup.map fun s => texts.count s).sum := (hperm.map _).sum_eq
    _ = texts.length := List.sum_map_count_dedup_eq_length texts

/-! ## What a census counts -/

/-- The month in which a conversation was created: the time, cut to seven characters. -/
def Entry.month? (e : Entry) : Option String := e.created?.map (takeChars 7)

/-- A census counts the conversations that were found. -/
structure Census.Counts (c : Census) (found : List Entry) : Prop where
  conversations : c.conversationCount = found.length
  messages : c.messageCount = (found.map (·.summary.messageCount)).sum
  sourceNames : (c.bySource.map (·.1)).Nodup
  sources : (c.bySource.map (·.2)).sum = c.conversationCount
  source : ∀ a : Assistant,
    countOf c.bySource a.name = found.countP fun e => e.summary.source = some a
  unknown : countOf c.bySource "unknown" = found.countP fun e => e.summary.source = none
  monthNames : (c.byMonth.map (·.1)).Nodup
  months : ∀ month, month ∈ c.byMonth.map (·.1) ↔ ∃ e ∈ found, e.month? = some month
  month : ∀ month, countOf c.byMonth month = found.countP fun e => e.month? = some month
  dated : (c.byMonth.map (·.2)).sum = found.countP fun e => e.created?.isSome

namespace Census

theorem sourceName_eq_iff {e : Entry} {a : Assistant} :
    sourceName e = a.name ↔ e.summary.source = some a := by
  have hunknown : "unknown" ≠ a.name := by cases a <;> decide
  cases hsource : e.summary.source with
  | none => simp [sourceName, hsource, hunknown]
  | some b => simp [sourceName, hsource, Assistant.name_injective.eq_iff]

theorem sourceName_eq_unknown_iff {e : Entry} :
    sourceName e = "unknown" ↔ e.summary.source = none := by
  cases hsource : e.summary.source with
  | none => simp [sourceName, hsource]
  | some a =>
    have hknown : a.name ≠ "unknown" := by cases a <;> decide
    simp [sourceName, hsource, hknown]

theorem counts_ofEntries (entries : List Entry) : (ofEntries entries).Counts entries where
  conversations := rfl
  messages := total_eq_sum _
  sourceNames := by
    rw [ofEntries, map_fst_tally]
    exact nodup_eraseDups _
  sources := by rw [ofEntries, sum_tally, List.length_map]
  source a := by
    rw [ofEntries, countOf_tally, List.count, List.countP_map]
    exact List.countP_congr fun e _ => by simp [sourceName_eq_iff]
  unknown := by
    rw [ofEntries, countOf_tally, List.count, List.countP_map]
    exact List.countP_congr fun e _ => by simp [sourceName_eq_unknown_iff]
  monthNames := by
    rw [ofEntries, map_fst_tally]
    exact nodup_eraseDups _
  months month := by
    rw [ofEntries, map_fst_tally, List.mem_eraseDups, List.mem_filterMap]
    rfl
  month month := by
    rw [ofEntries, countOf_tally, List.count, List.countP_filterMap]
    refine List.countP_congr fun e _ => ?_
    rw [Entry.month?]
    cases e.created? <;> simp [Census.month]
  dated := by
    rw [ofEntries, sum_tally, List.length_filterMap_eq_countP]
    exact List.countP_congr fun e _ => by simp

theorem Counts.of_perm {c : Census} {found found' : List Entry} (hperm : found.Perm found')
    (h : c.Counts found) : c.Counts found' where
  conversations := h.conversations.trans hperm.length_eq
  messages := h.messages.trans (hperm.map _).sum_eq
  sourceNames := h.sourceNames
  sources := h.sources
  source a := (h.source a).trans (hperm.countP_eq _)
  unknown := h.unknown.trans (hperm.countP_eq _)
  monthNames := h.monthNames
  months month := (h.months month).trans (by simp only [hperm.mem_iff])
  month month := (h.month month).trans (hperm.countP_eq _)
  dated := h.dated.trans (hperm.countP_eq _)

end Census

/-! ## Searches that nothing is cut from -/

theorem search_perm (c : Criteria) {limit : Int} {entries : List Entry}
    (h : (entries.length : Int) ≤ limit) :
    (search c limit entries).Perm (entries.filter c.accepts) := by
  have hlength : ((entries.filter c.accepts).mergeSort isLater).length ≤ limit.toNat := by
    have hfilter := List.length_filter_le c.accepts entries
    rw [List.length_mergeSort]
    omega
  rw [search, List.take_of_length_le hlength]
  exact List.mergeSort_perm _ _

namespace Criteria

def fromAssistant (source : String) : Criteria := { none with source := some source }

theorem accepts_none (e : Entry) : none.accepts e = true := rfl

/-- A name in any letter case stands for the assistant. -/
theorem accepts_fromAssistant {source : String} {a : Assistant} (h : lower source = lower a.name)
    (e : Entry) : (fromAssistant source).accepts e ↔ e.summary.source = some a := by
  have hlower : ∀ b, lower b.name = lower a.name ↔ b = a := by
    intro b
    cases a <;> cases b <;> decide +kernel
  have hne : source ≠ "" := by
    rintro rfl
    revert h
    cases a <;> decide +kernel
  have hgiven : given (some source) = some source := by simp [given, hne]
  have haccepts : (fromAssistant source).accepts e =
      meets (some source) (fromSource e.summary.source) := by
    simp only [accepts, fromAssistant, none, meets, Option.all_none, Option.filter_none,
      Bool.and_true]
  rw [haccepts, meets_iff, hgiven]
  simp only [Option.mem_some_iff, forall_eq', fromSource_iff, h, hlower, exists_eq_right]

end Criteria

end Conversation

/-! ## Searches and the census of a vault -/

namespace Session

open Conversation

section Vault

variable (now : Binary64) (v : Vault) (c : Criteria)

theorem run_runSearch (limit : Int) : runSearch c limit now v =
    ((conversationsIn c now v).1.map fun entries => ⟨c, Conversation.search c limit entries⟩,
      (conversationsIn c now v).2) := run_bind_pure now v _ _

theorem run_runCensus : runCensus now v =
    ((conversationsIn .none now v).1.map Census.ofEntries, (conversationsIn .none now v).2) :=
  run_bind_pure now v _ _

theorem conversationsIn_again (before : Criteria) :
    (conversationsIn c now (conversationsIn before now v).2).1 = (conversationsIn c now v).1 := by
  simp only [conversationsIn, run_bind_pure, Vault.sweep_again]

/-- There are no more conversations than notes. -/
theorem length_conversationsIn {entries : List Entry}
    (h : (conversationsIn c now v).1 = .ok entries) :
    ∃ files, (Backend.list now none v.store).1 = .ok files ∧
      entries.length ≤ (files.filter FileEntry.isNote).length := by
  rw [conversationsIn, run_bind_pure, Vault.result_sweep] at h
  obtain ⟨notes, hnotes, rfl⟩ := map_eq_ok_iff.1 h
  obtain ⟨files, hfiles, hglean⟩ := bind_eq_ok_iff.1 hnotes
  refine ⟨files, hfiles, ?_⟩
  rw [Reply.entriesOf_of_glean hglean]
  have hreplies := congrArg List.length (Backend.map_file_replies Vault.knownPath
    (files.filter fun f => f.isNote && c.inFolder f.path) (Backend.list now none v.store).2)
  rw [List.length_map] at hreplies
  calc _ ≤ _ := List.length_filterMap_le _ _
    _ = (files.filter fun f => f.isNote && c.inFolder f.path).length := hreplies
    _ ≤ (files.filter FileEntry.isNote).length := by
      simp only [← List.countP_eq_length_filter]
      exact List.countP_mono_left fun f _ h => (Bool.and_eq_true_iff.1 h).1

end Vault

section

variable {α β : Type} {name : Option String} {session : Session}

/-- An operation that comes after another one has the same result if the vault makes no
difference to it. -/
theorem result_on_again {op : VaultM α} {op' : VaultM β} (hkeeps : KeepsName op)
    (hagain : ∀ now v, (op' now (op now v).2).1 = (op' now v).1) (name : Option String)
    (session : Session) : (on name op' (on name op session).2).1 = (on name op' session).1 := by
  cases hfind : session.find name with
  | error f => rw [on_of_error hfind op]
  | ok v =>
    have hfound := find_putVault hfind (hkeeps session.clock v)
    rw [on_of_find hfind op, on_of_find hfound, on_of_find hfind op', hagain]

/-- A limit is at least the number of notes that are listed. -/
def Ample (limit : Int) (name : Option String) (session : Session) : Prop :=
  ∀ v, session.find name = .ok v →
    ∀ files, (Backend.list session.clock none v.store).1 = .ok files →
      (files.filter FileEntry.isNote).length ≤ limit

/-- A search without criteria finds what the census counts. -/
theorem census_of_search {limit : Int} (hlimit : Ample limit name session) {result : SearchResult}
    (h : (search name .none limit session).1 = .ok result) :
    ∃ entries, (census name session).1 = .ok (Census.ofEntries entries) ∧
      result.found.Perm entries ∧
      ∀ source, ∃ found, (search name (.fromAssistant source) limit session).1 =
          .ok ⟨.fromAssistant source, found⟩ ∧
        found.Perm (entries.filter (Criteria.fromAssistant source).accepts) := by
  by_cases hone : 1 ≤ limit
  · cases hfind : session.find name with
    | error f =>
      rw [search_of_limit .none hone, on_of_error hfind] at h
      cases h
    | ok v =>
      have hsource (source : String) : conversationsIn (.fromAssistant source) session.clock v =
          conversationsIn .none session.clock v := rfl
      rw [result_search .none hone hfind, run_runSearch] at h
      obtain ⟨entries, hentries, rfl⟩ := map_eq_ok_iff.1 h
      obtain ⟨files, hfiles, hle⟩ := length_conversationsIn session.clock v .none hentries
      have hlength : (entries.length : Int) ≤ limit :=
        (Int.ofNat_le.2 hle).trans (hlimit v hfind files hfiles)
      refine ⟨entries, ?_, ?_, fun source => ⟨_, ?_, search_perm _ hlength⟩⟩
      · rw [census, on_of_find hfind, run_runCensus, hentries]
        rfl
      · have hall : entries.filter Criteria.none.accepts = entries :=
          List.filter_eq_self.2 fun e _ => Criteria.accepts_none e
        exact (search_perm .none hlength).trans (.of_eq hall)
      · rw [result_search _ hone hfind, run_runSearch, hsource, hentries]
        rfl
  · rw [search_of_not_limit .none hone] at h
    cases h

/-- A census fails where a search without criteria does. -/
theorem census_error_iff {limit : Int} (hone : 1 ≤ limit) (f : Failure) :
    (census name session).1 = .error f ↔ (search name .none limit session).1 = .error f := by
  rw [search_of_limit .none hone, census]
  cases hfind : session.find name with
  | error g => simp [on_of_error hfind]
  | ok v =>
    rw [on_of_find hfind, on_of_find hfind, run_runCensus, run_runSearch]
    cases (conversationsIn .none session.clock v).1 <;> simp [Except.map]

theorem result_after_search {op : VaultM α} (c : Criteria) (limit : Int)
    (hagain : ∀ now v, (op now (conversationsIn c now v).2).1 = (op now v).1) :
    (on name op (search name c limit session).2).1 = (on name op session).1 := by
  by_cases hone : 1 ≤ limit
  · rw [search_of_limit c hone]
    exact result_on_again (accesses_runSearch c limit).keepsName
      (fun now v => by rw [run_runSearch, hagain]) name session
  · rw [search_of_not_limit c hone]

theorem census_after_search (c : Criteria) (limit : Int) :
    (census name (search name c limit session).2).1 = (census name session).1 :=
  result_after_search c limit fun now v => by
    rw [run_runCensus, run_runCensus, conversationsIn_again]

theorem search_after_search (c before : Criteria) (limit : Int) :
    (search name c limit (search name before limit session).2).1 =
      (search name c limit session).1 := by
  by_cases hone : 1 ≤ limit
  · rw [search_of_limit c hone]
    exact result_after_search before limit fun now v => by
      rw [run_runSearch, run_runSearch, conversationsIn_again]
  · rw [search_of_not_limit c hone, search_of_not_limit c hone]

theorem search_after_census (c : Criteria) (limit : Int) :
    (search name c limit (census name session).2).1 = (search name c limit session).1 := by
  by_cases hone : 1 ≤ limit
  · rw [search_of_limit c hone]
    exact result_on_again accesses_runCensus.keepsName
      (fun now v => by rw [run_runSearch, run_runCensus, run_runSearch, conversationsIn_again])
      name session
  · rw [search_of_not_limit c hone, search_of_not_limit c hone]

theorem taken_of_frontMatterOf {file : FileEntry} {path content body : String}
    {properties : Properties} (h : Note.frontMatterOf content = .ok (properties, body)) :
    Reply.taken Vault.noteReader ⟨file, path, .ok content⟩ =
      .ok (some (file, (entryAt path content body properties).note)) := by
  simp only [Reply.taken, Except.bind, Vault.noteReader, Note.ofText, h, bind, pure, Except.pure,
    Except.map, mapError_ok, Failure.skipped_ok]
  rfl

/-- The vault with two conversations, the latter with a day. -/
def oneDatedVault : Vault := ⟨"notes", .memory oneDated, .empty⟩

theorem conversationsIn_oneDated (now : Binary64) :
    (conversationsIn .none now oneDatedVault).1 = .ok [undatedEntry, datedEntry] := by
  obtain ⟨f, g, hreplies⟩ : ∃ f g, searchReplies .none (oneDated.list none) (.memory oneDated) =
      [⟨f, "a.md", .ok "#research"⟩, ⟨g, "b.md", .ok dated⟩] := ⟨_, _, rfl⟩
  have hplain : Note.frontMatterOf "#research" = .ok ([], "#research") := rfl
  have hglean : Reply.glean Vault.noteReader
      [⟨f, "a.md", .ok "#research"⟩, ⟨g, "b.md", .ok dated⟩] =
        .ok [(f, undatedEntry.note), (g, datedEntry.note)] := by
    rw [Reply.glean, taken_of_frontMatterOf hplain, Reply.glean,
      taken_of_frontMatterOf frontMatterOf_dated]
    rfl
  have hentries : entriesOf [undatedEntry.note, datedEntry.note] = [undatedEntry, datedEntry] := by
    have hfound := Reply.entriesOf_of_glean hglean
    rwa [List.filterMap_cons, conversation?_of_frontMatterOf hplain (by decide +kernel),
      List.filterMap_cons, conversation?_of_frontMatterOf frontMatterOf_dated (by decide +kernel)]
      at hfound
  have hlist : Backend.list now none oneDatedVault.store =
      (.ok (oneDated.list none), .memory oneDated) := rfl
  rw [searchReplies] at hreplies
  rw [conversationsIn, run_bind_pure, Vault.result_sweep, hlist]
  dsimp only [Except.bind]
  rw [hreplies, hglean, ← hentries]
  rfl

/-- A search without criteria that takes in all notes finds what the census counts, a search for an
assistant so many of them as the census says, and none of these requests makes a difference to
another one that follows. -/
theorem census_agrees_with_search {limit : Int} (hlimit : Ample limit name session) :
    (∀ c, (census name (search name c limit session).2).1 = (census name session).1) ∧
    (∀ c, (search name c limit (census name session).2).1 = (search name c limit session).1) ∧
    (∀ c before, (search name c limit (search name before limit session).2).1 =
      (search name c limit session).1) ∧
    (1 ≤ limit → ∀ f,
      (census name session).1 = .error f ↔ (search name .none limit session).1 = .error f) ∧
    ∀ result, (search name .none limit session).1 = .ok result →
      ∃ counts, (census name session).1 = .ok counts ∧ counts.Counts result.found ∧
        ∀ a source, lower source = lower (Assistant.name a) →
          ∃ fromSource, (search name (.fromAssistant source) limit session).1 = .ok fromSource ∧
            countOf counts.bySource a.name = fromSource.found.length := by
  refine ⟨fun c => census_after_search c limit, fun c => search_after_census c limit,
    fun c before => search_after_search c before limit, census_error_iff, fun result h => ?_⟩
  obtain ⟨entries, hcensus, hperm, hsource⟩ := census_of_search hlimit h
  refine ⟨_, hcensus, (Census.counts_ofEntries entries).of_perm hperm.symm, ?_⟩
  intro a source hname
  obtain ⟨found, hfound, hfoundPerm⟩ := hsource source
  refine ⟨_, hfound, ?_⟩
  rw [(Census.counts_ofEntries entries).source, hfoundPerm.length_eq,
    ← List.countP_eq_length_filter]
  exact List.countP_congr fun e _ => by
    rw [decide_eq_true_eq, Criteria.accepts_fromAssistant hname]

/-- Of two conversations one was created on a known day. -/
theorem census_agrees_with_search_oneDated : ∃ counts,
    (census none oneDatedSession).1 = .ok counts ∧ counts.conversationCount = 2 ∧
      countOf counts.bySource "unknown" = 2 ∧ countOf counts.byMonth "2024-01" = 1 ∧
      (counts.byMonth.map (·.2)).sum = 1 := by
  have hample : Ample 2 none oneDatedSession := by
    intro v hv files hfiles
    cases hv
    cases hfiles
    decide
  have hfind : oneDatedSession.find none = .ok oneDatedVault := rfl
  have hresult : (search none .none 2 oneDatedSession).1 =
      .ok ⟨.none, Conversation.search .none 2 [undatedEntry, datedEntry]⟩ := by
    rw [result_search .none (by decide) hfind, run_runSearch, conversationsIn_oneDated]
    rfl
  have hperm : (Conversation.search .none 2 [undatedEntry, datedEntry]).Perm
      [undatedEntry, datedEntry] := search_perm .none (by decide)
  obtain ⟨-, -, -, -, hagrees⟩ := census_agrees_with_search hample
  obtain ⟨counts, hcensus, h, -⟩ := hagrees _ hresult
  have h := h.of_perm hperm
  exact ⟨counts, hcensus, h.conversations, h.unknown.trans (by decide +kernel),
    (h.month _).trans (by decide +kernel), h.dated.trans (by decide +kernel)⟩

end

end Session

end MarkdownVault
