import MarkdownVault.Proofs.Base.Template
import MarkdownVault.Proofs.Conversation.Time
import MarkdownVault.Proofs.Ranking
import MarkdownVault.Proofs.Vault.Completion
import MarkdownVault.Proofs.Vault.Skipping

/-!
# What a search for conversations finds

A search answers unless a note stops the sweep. What it finds are the first of the conversations
that meet all criteria, the latest ones in front.
-/

namespace MarkdownVault

/-! ## Conversations among replies -/

namespace Reply

open Conversation in
/-- The conversation in a reply, if it is a note that can be read and that is one. -/
def conversation? (r : Reply) : Option Entry :=
  r.text.toOption.bind fun content => (Note.ofText r.path content).toOption.bind fun note =>
    if (detect note.content note.frontMatter).isConversation then
      some ⟨note, detect note.content note.frontMatter⟩
    else none

theorem entriesOf_of_glean {rs : List Reply} {notes : List (FileEntry × Note)}
    (h : glean Vault.noteReader rs = .ok notes) :
    Conversation.entriesOf (notes.map (·.2)) = rs.filterMap conversation? := by
  rw [eq_filterMap_of_glean h, Conversation.entriesOf, List.map_filterMap, List.map_filterMap,
    List.filter_filterMap]
  congr 1
  funext r
  rcases r with ⟨file, path, f | content⟩
  · rfl
  · simp only [read?, conversation?, Vault.noteReader, Except.toOption, Option.bind_some]
    cases Note.ofText path content <;> rfl

/-- The metadata of the conversations of a vault are on the calendar. -/
theorem onCalendar_of_conversation? {r : Reply} {e : Conversation.Entry}
    (h : r.conversation? = some e) : e.note.frontMatter.OnCalendar := by
  obtain ⟨content, -, h⟩ := Option.bind_eq_some_iff.1 h
  obtain ⟨note, hnote, h⟩ := Option.bind_eq_some_iff.1 h
  obtain ⟨-, ⟨⟩⟩ := Option.ite_none_right_eq_some.1 h
  exact Note.onCalendar_of_ofText (eq_ok_of_toOption hnote)

end Reply

namespace Conversation

/-! ## Criteria -/

namespace Criteria

/-- A criterion, if it is given at all. -/
def given (criterion : Option String) : Option String := criterion.filter (!·.isEmpty)

/-- A conversation without a time meets every first day. -/
def NotBefore (c : Criteria) (e : Entry) : Prop :=
  ∀ day ∈ given c.earliest, ∀ time ∈ e.created?, ¬cut day time < day

def NotAfter (c : Criteria) (e : Entry) : Prop :=
  ∀ day ∈ given c.latest, ∀ time ∈ e.created?, ¬day < cut day time

/-- All criteria but the folder, in terms of the conversation. -/
structure Met (c : Criteria) (e : Entry) : Prop where
  source : ∀ name ∈ given c.source, ∃ a, e.summary.source = some a ∧ lower a.name = lower name
  messages : ∀ n ∈ c.leastMessages, n ≠ 0 → n ≤ e.summary.messageCount
  callout : ∀ type ∈ given c.callout, upper type ∈ e.summary.calloutTypes
  earliest : c.NotBefore e
  latest : c.NotAfter e
  query : ∀ q ∈ given c.query,
    (lower q).toList <:+: (lower ((e.note.label? "title").getD "")).toList ∨
      (lower q).toList <:+: (lower e.note.body).toList

theorem meets_iff {criterion : Option String} {test : String → Bool} :
    meets criterion test ↔ ∀ s ∈ given criterion, test s := by
  rw [meets, Option.all_eq_true]
  rfl

theorem fromSource_iff {source : Option Assistant} {name : String} :
    fromSource source name ↔ ∃ a, source = some a ∧ lower a.name = lower name := by
  rw [fromSource, Option.any_eq_true]
  simp only [beq_iff_eq]

theorem mentions_iff {e : Entry} {q : String} : mentions e q ↔
    (lower q).toList <:+: (lower ((e.note.label? "title").getD "")).toList ∨
      (lower q).toList <:+: (lower e.note.body).toList := by
  rw [mentions, Bool.or_eq_true, hasPart, hasPart, Text.hasPart_iff_infix, Text.hasPart_iff_infix]

theorem enough_iff {n : Int} {count : Nat} :
    (n == 0 || decide (n ≤ Int.ofNat count)) ↔ (n ≠ 0 → n ≤ count) := by
  rw [Bool.or_eq_true, beq_iff_eq, decide_eq_true_eq, or_iff_not_imp_left]
  rfl

theorem accepts_iff {c : Criteria} {e : Entry} : c.accepts e ↔ c.Met e := by
  simp only [accepts, Bool.and_eq_true, meets_iff, fromSource_iff, enough_iff, mentions_iff,
    Option.all_eq_true, textLe_iff, List.contains_iff_mem]
  constructor
  · rintro ⟨⟨⟨⟨⟨hsource, hmessages⟩, hcallout⟩, hearliest⟩, hlatest⟩, hquery⟩
    exact ⟨hsource, hmessages, hcallout, hearliest, hlatest, hquery⟩
  · intro h
    exact ⟨⟨⟨⟨⟨h.source, h.messages⟩, h.callout⟩, h.earliest⟩, h.latest⟩, h.query⟩

instance (c : Criteria) (e : Entry) : Decidable (c.Met e) := decidable_of_iff _ accepts_iff

theorem inFolder_iff {c : Criteria} {path : String} : c.inFolder path ↔
    ∀ folder ∈ given c.folder, trimmedFolder folder = "" ∨
      (trimmedFolder folder ++ "/").toList <+: path.toList := by
  simp only [inFolder, meets_iff, below_eq_startsWith, Bool.or_eq_true, String.isEmpty_iff,
    startsWith, List.isPrefixOf_iff_prefix]

end Criteria

/-! ## Order and limit -/

namespace Entry

/-- The time of creation, if it is a day or a moment without an offset. -/
def localMoment? (e : Entry) : Option Moment :=
  (e.note.frontMatter.lookup "created").bind Value.localMoment?

variable {a b : Entry} {t u : Moment}

theorem created?_ne_empty (e : Entry) : e.created? ≠ some "" := by
  intro h
  obtain ⟨v, -, hlabel⟩ := Option.bind_eq_some_iff.1 h
  exact v.label?_ne_empty hlabel

/-- Nothing comes behind a conversation without a time but others without one. -/
theorem undated_of_not_lt (ha : a.created? = none)
    (h : ¬a.created?.getD "" < b.created?.getD "") : b.created? = none := by
  rw [ha, Option.getD_none] at h
  cases hb : b.created? with
  | none => rfl
  | some text =>
    have hne : text ≠ "" := fun heq => b.created?_ne_empty (hb.trans (by rw [heq]))
    obtain ⟨c, cs, hcs⟩ := List.exists_cons_of_ne_nil (l := text.toList) (by simpa using hne)
    rw [hb, Option.getD_some, String.lt_iff_toList_lt, hcs] at h
    exact absurd (List.nil_lt_cons c cs) h

theorem exists_created (h : a.localMoment? = some t) :
    ∃ v text, a.note.frontMatter.lookup "created" = some v ∧ v.localMoment? = some t ∧
      v.label? = some text ∧ a.created? = some text := by
  obtain ⟨v, hlookup, ht⟩ := Option.bind_eq_some_iff.1 h
  have hlabel := Value.label?_of_localMoment? ht
  refine ⟨v, _, hlookup, ht, hlabel, ?_⟩
  rw [created?, Note.label?, hlookup, Option.bind_some, hlabel]

/-- Of two local times the one with the greater text is not the earlier one. -/
theorem epochMicros_le (ha : a.note.frontMatter.OnCalendar) (hb : b.note.frontMatter.OnCalendar)
    (ht : a.localMoment? = some t) (hu : b.localMoment? = some u)
    (h : ¬a.created?.getD "" < b.created?.getD "") : u.epochMicros ≤ t.epochMicros := by
  obtain ⟨v, text, hv, hvt, hvlabel, hcreated⟩ := exists_created ht
  obtain ⟨w, text', hw, hwu, hwlabel, hcreated'⟩ := exists_created hu
  rw [hcreated, hcreated', Option.getD_some, Option.getD_some] at h
  apply Int.not_lt.1
  intro hlt
  exact h (Value.label_lt (ha.lookup hv) (hb.lookup hw) hvt hwu hvlabel hwlabel hlt)

end Entry

/-- Later texts come first. -/
abbrev latestFirst : Entry → Entry → Ordering := Sorting.descending fun e => e.created?.getD ""

theorem isLE_latestFirst {a b : Entry} :
    (latestFirst a b).isLE ↔ ¬a.created?.getD "" < b.created?.getD "" := by
  rw [latestFirst, Sorting.descending, Ordering.isLE_iff_ne_gt]
  exact not_congr compare_gt_iff_gt

theorem isLater_eq (a b : Entry) : isLater a b = (latestFirst a b).isLE := by
  rw [Bool.eq_iff_iff, isLE_latestFirst]
  exact textLe_iff

/-- What a search answers to conversations in the order in which they are listed. -/
structure Answers (c : Criteria) (limit : Nat) (conversations found others : List Entry) :
    Prop where
  foremost : Sorting.Foremost latestFirst limit (conversations.filter (c.Met ·)) found others
  omitted : ∀ a ∈ found, ∀ b ∈ others, ¬a.created?.getD "" < b.created?.getD ""
  undatedLast : (found ++ others).Pairwise fun a b => a.created? = none → b.created? = none
  newestFirst : (found ++ others).Pairwise fun a b =>
    ∀ t ∈ a.localMoment?, ∀ u ∈ b.localMoment?, u.epochMicros ≤ t.epochMicros
  days : ∀ first last : Date, first.valid → last.valid →
    c.earliest = some first.text → c.latest = some last.text →
      ∀ e ∈ conversations, ∀ t ∈ e.localMoment?,
        (c.NotBefore e ∧ c.NotAfter e ↔
          first.number ≤ t.date.number ∧ t.date.number ≤ last.number)

theorem given_text {d : Date} (h : d.valid) : Criteria.given (some d.text) = some d.text := by
  have hne : d.text ≠ "" := by
    intro heq
    have hlength := Date.length_text h
    rw [heq] at hlength
    cases hlength
  simp [Criteria.given, hne]

/-- Bounds that are days take in both days from their first moment to their last one. -/
theorem notBefore_notAfter_iff {c : Criteria} {e : Entry} {t : Moment} {first last : Date}
    (he : e.note.frontMatter.OnCalendar) (ht : e.localMoment? = some t) (hfirst : first.valid)
    (hlast : last.valid) (hearliest : c.earliest = some first.text)
    (hlatest : c.latest = some last.text) : c.NotBefore e ∧ c.NotAfter e ↔
      first.number ≤ t.date.number ∧ t.date.number ≤ last.number := by
  obtain ⟨v, time, hv, hvt, hlabel, hcreated⟩ := Entry.exists_created ht
  have hvalid := Value.valid_of_localMoment? (he.lookup hv) hvt
  have hdate := (Moment.valid_iff.1 hvalid).1
  have hcut {d : Date} (hd : d.valid) : Criteria.cut d.text time = t.date.text :=
    Criteria.cut_of_localMoment? hd (he.lookup hv) hvt hlabel
  simp only [Criteria.NotBefore, Criteria.NotAfter, hearliest, hlatest, given_text hfirst,
    given_text hlast, hcreated, Option.mem_some_iff, forall_eq', hcut hfirst, hcut hlast,
    Date.text_lt_iff hdate hfirst, Date.text_lt_iff hlast hdate, Nat.not_lt]

/-- What a search finds answers to the criteria. -/
theorem answers_search (c : Criteria) (limit : Int) {conversations : List Entry}
    (h : ∀ e ∈ conversations, e.note.frontMatter.OnCalendar) :
    ∃ others, Answers c limit.toNat conversations (search c limit conversations) others := by
  let found := conversations.filter (c.Met ·)
  have hsearch : search c limit conversations =
      (found.mergeSort fun a b => (latestFirst a b).isLE).take limit.toNat := by
    have haccepts : (conversations.filter c.accepts) = found :=
      List.filter_congr fun e _ => by rw [Bool.eq_iff_iff, Criteria.accepts_iff, decide_eq_true_eq]
    rw [search, haccepts]
    congr 2
    funext a b
    exact isLater_eq a b
  have hforemost : Sorting.Foremost latestFirst limit.toNat found _ _ :=
    Sorting.foremost_mergeSort limit.toNat found
  rw [← hsearch] at hforemost
  have hmem {e : Entry} (he : e ∈ search c limit conversations ++ _) : e ∈ conversations :=
    List.mem_of_mem_filter (hforemost.sorted.perm.subset he)
  refine ⟨_, hforemost, ?_, ?_, ?_, ?_⟩
  · intro a ha b hb
    exact isLE_latestFirst.1 (hforemost.ahead a ha b hb)
  · refine hforemost.sorted.sorted.imp fun {a b} hab hnone => ?_
    exact Entry.undated_of_not_lt hnone (isLE_latestFirst.1 hab)
  · refine hforemost.sorted.sorted.imp_of_mem fun {a b} ha hb hab t ht u hu => ?_
    exact Entry.epochMicros_le (h a (hmem ha)) (h b (hmem hb)) ht hu (isLE_latestFirst.1 hab)
  · intro first last hfirst hlast hearliest hlatest e he t ht
    exact notBefore_notAfter_iff (h e he) ht hfirst hlast hearliest hlatest

end Conversation

/-! ## Searches of a vault -/

namespace Session

open Conversation

variable {limit : Int} {name : Option String} {session : Session} {v : Vault}
  {files : List FileEntry} {s : Store}

theorem search_of_limit (c : Criteria) (hlimit : 1 ≤ limit) :
    search name c limit = on name (runSearch c limit) := by
  rw [search, atLeastOne, if_neg (by omega)]
  rfl

theorem search_of_not_limit (c : Criteria) (hlimit : ¬1 ≤ limit) :
    search name c limit session = (.error (.tooSmall "max_results"), session) := by
  rw [search, atLeastOne, if_pos (by omega)]
  rfl

theorem result_search (c : Criteria) (hlimit : 1 ≤ limit) (hvault : session.find name = .ok v) :
    (search name c limit session).1 = (runSearch c limit session.clock v).1 := by
  rw [search_of_limit c hlimit, on, hvault]
  rfl

/-- The replies to reading the notes below the folder that is asked for. -/
abbrev searchReplies (c : Criteria) (files : List FileEntry) (s : Store) : List Reply :=
  Backend.replies Vault.knownPath (files.filter fun f => f.isNote && c.inFolder f.path) s

/-- A search has a result exactly if no reply stops it. -/
theorem search_ok_iff (c : Criteria) (hlimit : 1 ≤ limit) (hvault : session.find name = .ok v)
    (hlist : Backend.list session.clock none v.store = (.ok files, s)) :
    (∃ result, (search name c limit session).1 = .ok result) ↔
      ∀ r ∈ searchReplies c files s, r.Harmless := by
  rw [← conversationsIn_ok_iff hlist c, result_search c hlimit hvault, runSearch, run_bind_pure]
  cases (conversationsIn c session.clock v).1 <;> simp [Except.map]

/-- A search that is not stopped finds the first of the conversations that can be read and meet
all criteria, the folder among them. -/
theorem search_answers (c : Criteria) (hlimit : 1 ≤ limit) (hvault : session.find name = .ok v)
    (hlist : Backend.list session.clock none v.store = (.ok files, s)) :
    ((∃ result, (search name c limit session).1 = .ok result) ↔
      ∀ r ∈ searchReplies c files s, r.Harmless) ∧
    (∀ path, c.inFolder path ↔ ∀ folder ∈ Criteria.given c.folder, trimmedFolder folder = "" ∨
      (trimmedFolder folder ++ "/").toList <+: path.toList) ∧
    ∀ result, (search name c limit session).1 = .ok result →
      result.criteria = c ∧ ∃ others, Answers c limit.toNat
        ((searchReplies c files s).filterMap Reply.conversation?) result.found others := by
  refine ⟨search_ok_iff c hlimit hvault hlist, fun path => Criteria.inFolder_iff, ?_⟩
  intro result h
  rw [result_search c hlimit hvault, runSearch, run_bind_pure, conversationsIn, run_bind_pure,
    Vault.result_sweep, hlist] at h
  obtain ⟨entries, hentries, rfl⟩ := map_eq_ok_iff.1 h
  obtain ⟨notes, hnotes, rfl⟩ := map_eq_ok_iff.1 hentries
  refine ⟨rfl, ?_⟩
  rw [Reply.entriesOf_of_glean hnotes]
  apply answers_search
  intro e he
  obtain ⟨r, -, hr⟩ := List.mem_filterMap.1 he
  exact Reply.onCalendar_of_conversation? hr

/-- A conversation that was created on a day. -/
def dated : String := "---\ncreated: 2024-01-05\n---\n#research"

def datedProperties : Properties := [("created", .date ⟨2024, 1, 5⟩)]

theorem frontMatterOf_dated : Note.frontMatterOf dated = .ok (datedProperties, "#research") := by
  have hfenced : Note.fenced? dated = some ("\ncreated: 2024-01-05\n", "#research") := by
    decide +kernel
  have htokens : Yaml.Token.ofText .lenient "\ncreated: 2024-01-05\n".toList =
      .ok [.blockMappingStart, .key, .scalar "created" true, .value, .scalar "2024-01-05" true,
        .blockEnd] :=
    Yaml.tokens_of_chars rfl (by decide +kernel)
  have htime : Yaml.timeOf "2024-01-05" = .ok (.date ⟨2024, 1, 5⟩) := rfl
  have hvalue : (Yaml.Node.mapping .map
      [(.scalar .text "created", .scalar .time "2024-01-05")]).value =
        .ok (.map [(.text "created", .date ⟨2024, 1, 5⟩)]) := by
    simp only [Yaml.Node.value, Yaml.valueAt, Yaml.entriesAt, Yaml.merged, Yaml.ownEntries,
      Yaml.scalarOf, htime]
    rfl
  rw [Note.frontMatterOf_of_fenced? hfenced, (Yaml.valueOf_of_tokens htokens rfl).trans hvalue]
  rfl

def entryAt (path content body : String) (properties : Properties) : Entry where
  note := {
    path
    content
    frontMatter := properties
    body
    tags := Note.tagsOf content properties
    links := Note.linksOf body
    embeds := Note.embedsOf body
    fields := Note.fieldsOf body }
  summary := detect content properties

theorem conversation?_of_frontMatterOf {file : FileEntry} {path content body : String}
    {properties : Properties} (hparts : Note.frontMatterOf content = .ok (properties, body))
    (h : (detect content properties).isConversation) :
    Reply.conversation? ⟨file, path, .ok content⟩ =
      some (entryAt path content body properties) := by
  simp only [Reply.conversation?, Note.ofText, hparts, bind, Except.bind, pure, Except.pure,
    Except.toOption, Option.bind_some, if_pos h]
  rfl

/-- Two conversations, the latter with a day. -/
def oneDated : Memory := .ofTexts [("a.md", "#research"), ("b.md", dated)]

def undatedEntry : Entry := entryAt "a.md" "#research" "#research" []

def datedEntry : Entry := entryAt "b.md" dated "#research" datedProperties

def oneDatedSession : Session := ⟨[⟨"notes", .memory oneDated, .empty⟩], .ofNat 0⟩

/-- Everything from one day to the end of the same day. -/
def onOneDay : Criteria :=
  { Criteria.none with
    earliest := some (Date.text ⟨2024, 1, 5⟩)
    latest := some (Date.text ⟨2024, 1, 5⟩) }

/-- The conversation of that day is found before the one without a time. -/
theorem search_answers_onOneDay : ∃ result,
    (search none onOneDay 1 oneDatedSession).1 = .ok result ∧ result.found = [datedEntry] := by
  obtain ⟨hcomplete, -, hanswers⟩ := @search_answers 1 none oneDatedSession
    ⟨"notes", .memory oneDated, .empty⟩ (oneDated.list none) (Store.memory oneDated) onOneDay
    (by decide) rfl rfl
  obtain ⟨f, g, hreplies⟩ : ∃ f g,
      searchReplies onOneDay (oneDated.list none) (Store.memory oneDated) =
        [⟨f, "a.md", .ok "#research"⟩, ⟨g, "b.md", .ok dated⟩] := ⟨_, _, rfl⟩
  have hplain : Note.frontMatterOf "#research" = .ok ([], "#research") := rfl
  have hharmless : ∀ r ∈ [(⟨f, "a.md", .ok "#research"⟩ : Reply), ⟨g, "b.md", .ok dated⟩],
      r.Harmless := by
    simp only [List.forall_mem_cons, List.not_mem_nil, false_imp_iff, implies_true, and_true]
    exact ⟨(Note.frontMatterOf_ok_iff _).1 ⟨_, hplain⟩,
      (Note.frontMatterOf_ok_iff _).1 ⟨_, frontMatterOf_dated⟩⟩
  have hentries : [(⟨f, "a.md", .ok "#research"⟩ : Reply), ⟨g, "b.md", .ok dated⟩].filterMap
      Reply.conversation? = [undatedEntry, datedEntry] := by
    rw [List.filterMap_cons, conversation?_of_frontMatterOf hplain (by decide +kernel),
      List.filterMap_cons, conversation?_of_frontMatterOf frontMatterOf_dated (by decide +kernel)]
    rfl
  rw [hreplies] at hcomplete hanswers
  obtain ⟨result, hresult⟩ := hcomplete.2 hharmless
  obtain ⟨-, others, h⟩ := hanswers result hresult
  rw [hentries] at h
  refine ⟨result, hresult, ?_⟩
  have hmet : [undatedEntry, datedEntry].filter (onOneDay.Met ·) = [undatedEntry, datedEntry] :=
    List.filter_eq_self.2 (by decide +kernel)
  have hperm := h.foremost.sorted.perm
  have hlength := h.foremost.length
  have hlast := h.undatedLast
  rw [hmet] at hperm hlength
  obtain ⟨e, he⟩ := List.length_eq_one_iff.1 hlength
  rw [he] at hperm hlast ⊢
  have hmem : e ∈ [undatedEntry, datedEntry] := hperm.subset (by simp)
  rcases List.mem_cons.1 hmem with rfl | hmem
  · have hdated : datedEntry ∈ [undatedEntry] ++ others := hperm.symm.subset (by simp)
    have hsecond : datedEntry ∈ others := by
      rcases List.mem_cons.1 hdated with heq | hmem
      · exact absurd (congrArg (·.note.path) heq) (by decide)
      · exact hmem
    cases (List.pairwise_cons.1 hlast).1 datedEntry hsecond rfl
  · rw [List.mem_singleton.1 hmem]

/-- A note with a day that does not exist keeps the conversation beside it from being found. -/
theorem impossibleDay_stops_search :
    let m : Memory := .ofTexts [("a.md", impossibleDay), ("b.md", "#conversation")]
    (searchReplies .none (m.list none) (Store.memory m)).filterMap Reply.conversation? =
        [entryAt "b.md" "#conversation" "#conversation" []] ∧
      ¬∃ result, (search none .none 50 ⟨[⟨"main", .memory m, .empty⟩], .ofNat 0⟩).1 =
        .ok result := by
  intro m
  obtain ⟨f, g, hreplies⟩ : ∃ f g, searchReplies .none (m.list none) (Store.memory m) =
      [⟨f, "a.md", .ok impossibleDay⟩, ⟨g, "b.md", .ok "#conversation"⟩] := ⟨_, _, rfl⟩
  have hplain : Note.frontMatterOf "#conversation" = .ok ([], "#conversation") := rfl
  have hunread : Reply.conversation? ⟨f, "a.md", .ok impossibleDay⟩ = none := by
    simp only [Reply.conversation?, Note.ofText, Note.frontMatterOf_impossibleDay, bind,
      Except.bind, Except.toOption, Option.bind_some, Option.bind_none]
  constructor
  · rw [hreplies, List.filterMap_cons, hunread, List.filterMap_cons,
      conversation?_of_frontMatterOf hplain (by decide +kernel)]
    rfl
  · have hcomplete := @search_ok_iff 50 none ⟨[⟨"main", .memory m, .empty⟩], .ofNat 0⟩
      ⟨"main", .memory m, .empty⟩ (m.list none) (Store.memory m) .none (by decide) rfl rfl
    rw [hcomplete, hreplies]
    intro hall
    exact Note.not_harmless_impossibleDay (hall _ List.mem_cons_self)

end Session

end MarkdownVault
