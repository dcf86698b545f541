import Mathlib.Data.List.Perm.Subperm
import MarkdownVault.Conversation.Detection
import MarkdownVault.Proofs.Conversation.Marker
import MarkdownVault.Proofs.Graph.Coherence

/-!
# What makes a conversation

A note is a conversation by any one of five signals, though the later ones are only looked for
where the earlier ones name no source.
-/

namespace MarkdownVault.Conversation

/-! ## Assistants by name and by tag -/

namespace Assistant

theorem find?_eq_some_iff {key : Assistant → String} (hkey : Function.Injective key) {s : String}
    {a : Assistant} : all.find? (fun a => key a = s) = some a ↔ key a = s := by
  constructor
  · intro h
    simpa using List.find?_some h
  · rintro rfl
    cases hfind : all.find? fun b => key b = key a with
    | none => simpa using List.find?_eq_none.1 hfind a (mem_all a)
    | some b =>
      have hb : key b = key a := by simpa using List.find?_some hfind
      rw [hkey hb]

theorem name_injective : Function.Injective name := by
  intro a b
  cases a <;> cases b <;> decide

theorem tag_injective : Function.Injective tag := by
  intro a b
  cases a <;> cases b <;> decide +kernel

theorem ofName?_eq_some_iff {s : String} {a : Assistant} : ofName? s = some a ↔ a.name = s :=
  find?_eq_some_iff name_injective

theorem ofTag?_eq_some_iff {s : String} {a : Assistant} : ofTag? s = some a ↔ a.tag = s :=
  find?_eq_some_iff tag_injective

end Assistant

/-- The first text that is the key of an assistant is the key of this one. -/
def FirstOf (key : Assistant → String) (texts : List String) (a : Assistant) : Prop :=
  ∃ before after, texts = before ++ key a :: after ∧ ∀ b, key b ∉ before

section First

variable {key : Assistant → String} {find : String → Option Assistant} {texts : List String}

theorem forall_find_eq_none_iff (hfind : ∀ s a, find s = some a ↔ key a = s) :
    (∀ s ∈ texts, find s = none) ↔ ∀ a, key a ∉ texts := by
  constructor
  · intro h a ha
    cases (h _ ha).symm.trans ((hfind _ a).2 rfl)
  · intro h s hs
    cases hfound : find s with
    | none => rfl
    | some a => exact absurd ((hfind s a).1 hfound ▸ hs) (h a)

theorem findSome?_eq_some_iff (hfind : ∀ s a, find s = some a ↔ key a = s) {a : Assistant} :
    texts.findSome? find = some a ↔ FirstOf key texts a := by
  rw [List.findSome?_eq_some_iff]
  constructor
  · rintro ⟨before, s, after, rfl, hs, hbefore⟩
    obtain rfl := (hfind s a).1 hs
    exact ⟨before, after, rfl, (forall_find_eq_none_iff hfind).1 hbefore⟩
  · rintro ⟨before, after, rfl, hbefore⟩
    exact ⟨before, key a, after, rfl, (hfind _ a).2 rfl,
      (forall_find_eq_none_iff hfind).2 hbefore⟩

theorem findSome?_eq_none_iff (hfind : ∀ s a, find s = some a ↔ key a = s) :
    texts.findSome? find = none ↔ ∀ a, key a ∉ texts := by
  rw [List.findSome?_eq_none_iff, forall_find_eq_none_iff hfind]

theorem isSome_findSome?_iff (hfind : ∀ s a, find s = some a ↔ key a = s) :
    (texts.findSome? find).isSome ↔ ∃ a, key a ∈ texts := by
  rw [Option.isSome_iff_ne_none, ne_eq, findSome?_eq_none_iff hfind]
  push Not
  rfl

end First

/-! ## The source -/

/-- The front matter names an assistant as the source. -/
def Declares (frontMatter : Properties) (a : Assistant) : Prop :=
  frontMatter.lookup "source" = some (.text a.name)

section Source

variable {frontMatter : Properties} {tags speakers : List String} {a : Assistant}

theorem declaredSource?_eq_some_iff :
    declaredSource? frontMatter = some a ↔ Declares frontMatter a := by
  unfold declaredSource? Declares
  split
  case h_1 s hlookup =>
    rw [Assistant.ofName?_eq_some_iff, hlookup, Option.some.injEq, Value.text.injEq, eq_comm]
  case h_2 hother =>
    constructor
    · rintro ⟨⟩
    · intro h
      exact absurd h (hother a.name)

theorem declaredSource?_eq_none_iff :
    declaredSource? frontMatter = none ↔ ∀ a, ¬Declares frontMatter a := by
  rw [Option.eq_none_iff_forall_ne_some]
  exact forall_congr' fun a => not_congr declaredSource?_eq_some_iff

theorem source?_eq_some_iff : source? frontMatter tags speakers = some a ↔
    Declares frontMatter a ∨ (∀ b, ¬Declares frontMatter b) ∧
      (FirstOf Assistant.tag tags a ∨
        (∀ b, Assistant.tag b ∉ tags) ∧ FirstOf Assistant.name speakers a) := by
  have htag := @Assistant.ofTag?_eq_some_iff
  have hname := @Assistant.ofName?_eq_some_iff
  rw [source?, Option.or_eq_some_iff, Option.or_eq_some_iff, declaredSource?_eq_some_iff,
    declaredSource?_eq_none_iff, findSome?_eq_some_iff fun _ _ => htag,
    findSome?_eq_none_iff fun _ _ => htag, findSome?_eq_some_iff fun _ _ => hname]

theorem isSome_source?_iff : (source? frontMatter tags speakers).isSome ↔
    (∃ a, Declares frontMatter a) ∨ (∃ a, Assistant.tag a ∈ tags) ∨
      ∃ a, Assistant.name a ∈ speakers := by
  have htag := @Assistant.ofTag?_eq_some_iff
  have hname := @Assistant.ofName?_eq_some_iff
  rw [source?, Option.isSome_or, Option.isSome_or, Bool.or_eq_true, Bool.or_eq_true,
    isSome_findSome?_iff fun _ _ => htag, isSome_findSome?_iff fun _ _ => hname,
    Option.isSome_iff_exists]
  simp only [declaredSource?_eq_some_iff]

end Source

/-! ## Two who speak -/

/-- Among distinct names that hold the user's there is another one exactly if they are two at
least. -/
theorem two_le_length_iff {names : List String} (hnodup : names.Nodup) (huser : userName ∈ names) :
    2 ≤ names.length ↔ ∃ n ∈ names, n ≠ userName := by
  cases names with
  | nil => cases huser
  | cons first rest =>
    cases rest with
    | nil => simp [List.mem_singleton.1 huser]
    | cons second rest =>
      have hne : first ≠ second := fun heq =>
        (List.nodup_cons.1 hnodup).1 (heq ▸ List.mem_cons_self)
      refine iff_of_true (by simp) ?_
      by_cases hfirst : first = userName
      · exact ⟨second, by simp, fun hsecond => hne (hfirst.trans hsecond.symm)⟩
      · exact ⟨first, by simp, hfirst⟩

theorem length_eraseDups_le (names : List String) : names.eraseDups.length ≤ names.length :=
  ((nodup_eraseDups names).subperm fun _ h => List.mem_eraseDups.1 h).length_le

/-! ## All signals -/

/-- What is told of a note with these tags in which these names speak. -/
structure Recognized (frontMatter : Properties) (tags names : List String) (s : Summary) :
    Prop where
  isConversation_iff : s.isConversation ↔ (∃ a, Declares frontMatter a) ∨
    ("conversation" ∈ tags ∨ "research" ∈ tags) ∨ (∃ a, Assistant.tag a ∈ tags) ∨
      (∃ a, Assistant.name a ∈ s.speakers) ∨
        "User" ∈ s.speakers ∧ ∃ n ∈ s.speakers, n ≠ "User"
  source_iff : ∀ a, s.source = some a ↔ Declares frontMatter a ∨
    (∀ b, ¬Declares frontMatter b) ∧ (FirstOf Assistant.tag tags a ∨
      (∀ b, Assistant.tag b ∉ tags) ∧ FirstOf Assistant.name s.speakers a)
  source_isConversation : s.source.isSome → s.isConversation
  speakers : s.speakers = names.eraseDups
  messageCount : s.messageCount = names.length
  userCount : s.userCount = names.count "User"
  assistantCount : s.assistantCount = (names.filter (· ≠ "User")).length
  total : s.messageCount = s.userCount + s.assistantCount

theorem isConversation_detect_iff (content : String) (frontMatter : Properties) :
    (detect content frontMatter).isConversation ↔
      (detect content frontMatter).source.isSome ∨
        ("conversation" ∈ Note.tagsOf content frontMatter ∨
          "research" ∈ Note.tagsOf content frontMatter) ∨
        "User" ∈ (speakers content).eraseDups ∧
          ∃ n ∈ (speakers content).eraseDups, n ≠ "User" := by
  have htags : (Note.tagsOf content frontMatter).any conversationTags.contains ↔
      "conversation" ∈ Note.tagsOf content frontMatter ∨
        "research" ∈ Note.tagsOf content frontMatter := by
    simp only [List.any_eq_true, conversationTags, List.contains_iff_mem, List.mem_cons,
      List.not_mem_nil, or_false]
    constructor
    · rintro ⟨tag, hmem, rfl | rfl⟩
      · exact .inl hmem
      · exact .inr hmem
    · rintro (hmem | hmem)
      · exact ⟨_, hmem, .inl rfl⟩
      · exact ⟨_, hmem, .inr rfl⟩
  have hspeakers : (decide (2 ≤ (speakers content).length) &&
      (speakers content).eraseDups.contains userName &&
        decide (2 ≤ (speakers content).eraseDups.length)) ↔
      userName ∈ (speakers content).eraseDups ∧
        ∃ n ∈ (speakers content).eraseDups, n ≠ userName := by
    simp only [Bool.and_eq_true, decide_eq_true_eq, List.contains_iff_mem]
    constructor
    · rintro ⟨⟨-, huser⟩, htwo⟩
      exact ⟨huser, (two_le_length_iff (nodup_eraseDups _) huser).1 htwo⟩
    · rintro ⟨huser, hother⟩
      have htwo := (two_le_length_iff (nodup_eraseDups _) huser).2 hother
      exact ⟨⟨htwo.trans (length_eraseDups_le _), huser⟩, htwo⟩
  simp only [detect, Bool.or_eq_true, htags, hspeakers, or_assoc]
  rfl

theorem recognized_detect (content : String) (frontMatter : Properties) :
    Recognized frontMatter (Note.tagsOf content frontMatter) (speakers content)
      (detect content frontMatter) := by
  have hsignals := isConversation_detect_iff content frontMatter
  have hcount : (speakers content).length = (speakers content).count userName +
      ((speakers content).filter (· ≠ userName)).length := by
    rw [List.length_eq_countP_add_countP (· == userName), ← List.countP_eq_length_filter,
      List.count]
    simp
  have hothers : (detect content frontMatter).assistantCount =
      ((speakers content).filter (· ≠ userName)).length := by
    change (speakers content).length - (speakers content).count userName = _
    omega
  refine ⟨?_, fun a => source?_eq_some_iff, fun h => hsignals.2 (.inl h), rfl, rfl, rfl, hothers,
    ?_⟩
  · have hsource : (detect content frontMatter).source =
        source? frontMatter (Note.tagsOf content frontMatter) (speakers content).eraseDups := rfl
    rw [hsignals, hsource, isSome_source?_iff]
    constructor
    · rintro ((hdeclared | htag | hname) | hmarked | htwo)
      · exact .inl hdeclared
      · exact .inr (.inr (.inl htag))
      · exact .inr (.inr (.inr (.inl hname)))
      · exact .inr (.inl hmarked)
      · exact .inr (.inr (.inr (.inr htwo)))
    · rintro (hdeclared | hmarked | htag | hname | htwo)
      · exact .inl (.inl hdeclared)
      · exact .inr (.inl hmarked)
      · exact .inl (.inr (.inl htag))
      · exact .inl (.inr (.inr hname))
      · exact .inr (.inr htwo)
  · rw [hothers]
    exact hcount

/-- All but the types of callouts is decided by the declared source, the tags and the markers. -/
theorem detect_congr {content content' : String} {frontMatter frontMatter' : Properties}
    (hsource : frontMatter'.lookup "source" = frontMatter.lookup "source")
    (htags : Note.tagsOf content' frontMatter' = Note.tagsOf content frontMatter)
    (hspeakers : speakers content' = speakers content) :
    { detect content' frontMatter' with calloutTypes := [] } =
      { detect content frontMatter with calloutTypes := [] } := by
  simp only [detect, source?, declaredSource?, hsource, htags, hspeakers]

/-- A note is recognized by its declared source, its tags and the names in the markers that a scan
of its text comes upon, annotations left out. Callouts have no part in it. -/
theorem detect_signals (content : String) (frontMatter : Properties) :
    (∀ name blanks inner, IsName name → (∀ c ∈ blanks, Text.isBlank c) →
      (∀ c ∈ inner, c ≠ ')' ∧ c ≠ '\n') → speakerName name = String.ofList name ∧
        speakerName (name ++ (blanks ++ '(' :: (inner ++ [')']))) = String.ofList name) ∧
    ∃ markers, Scanned true content.toList markers ∧
      Recognized frontMatter (Note.tagsOf content frontMatter) (markers.map speakerName)
        (detect content frontMatter) ∧
      ∀ content' frontMatter', frontMatter'.lookup "source" = frontMatter.lookup "source" →
        Note.tagsOf content' frontMatter' = Note.tagsOf content frontMatter →
          Scanned true content'.toList markers →
            { detect content' frontMatter' with calloutTypes := [] } =
              { detect content frontMatter with calloutTypes := [] } := by
  constructor
  · intro name blanks inner hname hblanks hinner
    exact ⟨speakerName_of_isName hname, speakerName_annotated hname hblanks hinner⟩
  · refine ⟨markersFrom true content.toList, scanned_markersFrom true _,
      recognized_detect content frontMatter, ?_⟩
    intro content' frontMatter' hsource htags hscanned
    apply detect_congr hsource htags
    rw [speakers, scanned_iff.1 hscanned, speakers]

example : (detect "**User**: Why?\n**Claude (tool\tcall)** : So." []).source =
    some .claude := by decide +kernel

end MarkdownVault.Conversation
