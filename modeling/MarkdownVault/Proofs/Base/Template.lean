import MarkdownVault.Base.Definition
import MarkdownVault.Vault.File
import MarkdownVault.Proofs.Filter.Literal
import MarkdownVault.Proofs.Vault.Path
import MarkdownVault.Conversation.Search

/-!
# Filters of new bases

A base for a folder compares the folder of a note with the one that was asked for. That one is put
between quotation marks as it is, so the filter means it exactly if nothing in it is read as an end
of the quotation or as an escape.
-/

namespace MarkdownVault

open MarkdownVault.Filter

/-! ## One folder -/

theorem value_folder (r : Record) : (wordOperand "file.folder").value r = .text r.folder := by
  have hnumeral : readNumeral? "file.folder".toList = none := by decide
  rw [wordOperand, hnumeral]
  rfl

theorem evalValue_folder {folder : String} (h : IsVerbatim folder) (r : Record) :
    evalValue r (.text ("file.folder == \"" ++ folder ++ "\"")) = .ok (r.folder == folder) := by
  have hequal := means_equal_verbatim (by decide : IsWord "file.folder") h
  simp only [value_folder] at hequal
  exact hequal.alone.evalValue r

/-- A connective in the filter is one in the folder. -/
theorem infix_of_infix_folder {c : Connective} {folder : String}
    (h : c.symbol.toList <:+: ("file.folder == \"" ++ folder ++ "\"").toList) :
    c.symbol.toList <:+: folder.toList := by
  have htoList : ("file.folder == \"" ++ folder ++ "\"").toList =
      "file.folder == ".toList ++ '"' :: (folder.toList ++ '"' :: []) := by simp
  have hquote : '"' ∉ c.symbol.toList := by cases c <;> decide
  have hnot {cs : List Char} (hcs : ∀ a ∈ c.symbol.toList, a ∉ cs) :
      ¬c.symbol.toList <:+: cs := fun h => by
    obtain ⟨a, ha⟩ := List.exists_mem_of_ne_nil c.symbol.toList (by cases c <;> decide)
    exact hcs a ha (h.subset ha)
  rw [htoList] at h
  have hfolder := (Text.infix_of_infix_append_cons hquote h).resolve_left
    (hnot (by cases c <;> simp [Connective.symbol]))
  exact (Text.infix_of_infix_append_cons hquote hfolder).resolve_right (hnot (by simp))

/-- Without connectives such a filter is a comparison with a text that is not the folder, or it is
no filter. -/
theorem evalValue_folder_of_not {folder : String} (h : ¬IsVerbatim folder)
    (hplain : ∀ c : Connective, ¬c.symbol.toList <:+: folder.toList) {r : Record}
    (hr : r.folder = folder) :
    evalValue r (.text ("file.folder == \"" ++ folder ++ "\"")) = .ok false := by
  have htext : "file.folder == \"" ++ folder ++ "\"" =
      "file.folder" ++ " " ++ Comparison.eq.symbol ++ " \"" ++ folder ++ "\"" := by
    rw [← String.toList_inj]
    simp [Comparison.symbol]
  have hblank : isBlankText ("file.folder == \"" ++ folder ++ "\"") = false := by
    rw [isBlankText, String.toList_append, String.toList_append]
    rfl
  rw [evalValue_text hblank, evalText]
  cases hparse : parse (trim ("file.folder == \"" ++ folder ++ "\"")) with
  | error => rfl
  | ok e =>
    obtain ⟨d, hd, rfl⟩ := parse_eq_ok_iff_lexemes.1 (parse_trim.1 hparse)
    have hnone (c : Connective) := mt infix_of_infix_folder (hplain c)
    rw [htext] at hd hnone
    obtain ⟨hlength, heval⟩ := eval_of_writes_quoted (by decide : IsWord "file.folder") hd hnone
    have hunescape : folder ≠ String.ofList (unescape folder.toList) := fun hsame =>
      h (notMem_of_unescape (by decide) hlength (by simpa using congrArg String.toList hsame.symm))
    calc d.tree.eval r = .ok (r.folder == String.ofList (unescape folder.toList)) := by
          rw [heval, value_folder]
          exact compare_equal rfl _
      _ = .ok false := by rw [hr, beq_eq_false_iff_ne.2 hunescape]

namespace Base

variable {name : String} {filters folder : Option String} {columns : Option (List String)}

theorem filters_table {folder : String} (h : folder ≠ "") :
    (table name filters (some folder) columns).filters =
      .text ("file.folder == \"" ++ mapChars (Text.trimChar '/') folder ++ "\"") := by
  have hgiven : (some folder).filter (!·.isEmpty) = some folder := by simp [h]
  change (Option.or (((some folder).filter (!·.isEmpty)).map _) _).getD Value.null = _
  rw [hgiven]
  rfl

/-- A base for a folder selects exactly the notes of that folder, whatever its name holds besides
double quotes and backslashes. A name with one of these but without a connective is never selected:
the base misses all notes of the folder it is for. -/
theorem table_selects_folder (name : String) (filters : Option String)
    (columns : Option (List String)) {folder : String} (hfolder : folder ≠ "") :
    (IsVerbatim (mapChars (Text.trimChar '/') folder) → ∀ r : Record,
      evalValue r (table name filters (some folder) columns).filters =
        .ok (r.folder == mapChars (Text.trimChar '/') folder)) ∧
    (¬IsVerbatim (mapChars (Text.trimChar '/') folder) →
      (∀ c : Connective, ¬c.symbol.toList <:+: (mapChars (Text.trimChar '/') folder).toList) →
      ∀ r : Record, r.folder = mapChars (Text.trimChar '/') folder →
        evalValue r (table name filters (some folder) columns).filters = .ok false) := by
  rw [filters_table hfolder]
  exact ⟨evalValue_folder, fun h hplain r => evalValue_folder_of_not h hplain⟩

/-- A record of a note in a folder. -/
def recordIn (folder : String) : Record :=
  { path := "n.md", name := "n", folder, extension := ".md", size := 1, created := .ofNat 0,
    modified := .ofNat 0, tags := [], links := [], properties := [] }

theorem table_selects_folder_ampersand :
    "/R && D/" ≠ "" ∧
      evalValue (recordIn "R && D") (table "t" none (some "/R && D/") none).filters = .ok true ∧
      evalValue (recordIn "R") (table "t" none (some "/R && D/") none).filters = .ok false := by
  have hselects := (table_selects_folder "t" none none (by decide : "/R && D/" ≠ "")).1 (by decide)
  exact ⟨by decide, hselects (recordIn "R && D"), hselects (recordIn "R")⟩

/-- A name with a quotation mark in it is not selected, and one that goes on as a filter selects
notes elsewhere. -/
theorem table_misses_folder :
    evalValue (recordIn "a\"b") (table "t" none (some "a\"b") none).filters = .ok false ∧
      evalValue (recordIn "z") (table "t" none (some "x\" || \"y") none).filters = .ok true := by
  decide +kernel

end Base

/-! ## Conversations -/

/-- Whether the property `source` has the text that is asked for; an empty text asks for nothing. -/
def hasSource (source : Option String) (properties : Properties) : Except ValueFault Bool :=
  match source.filter (!·.isEmpty) with
  | none => .ok true
  | some s => ((properties.lookup "source").getD .null).asText.map fun text => text == s

theorem noteProperty_source (r : Record) :
    r.noteProperty "source" = (r.properties.lookup "source").getD .null := by
  rw [Record.noteProperty]
  cases r.properties.lookup "source" <;> rfl

theorem means_source {s : String} (h : IsVerbatim s) :
    Means .unary ("source == \"" ++ s ++ "\"")
      (fun r => ((r.properties.lookup "source").getD .null).asText.map fun text => text == s) := by
  have hsource : IsPropertyWord "source" := by constructor <;> decide
  have hequal := means_equal_verbatim hsource.isWord h
  simp only [hsource.wordOperand_eq, Operand.value, noteProperty_source] at hequal
  exact hequal

theorem means_inFolder {folder : String} (h : IsVerbatim folder) :
    Means .unary ("file.inFolder(\"" ++ folder ++ "\")")
      (fun r => .ok (inFolder r.folder folder)) := by
  have hcall := means_call_verbatim (by decide : IsWord "file.inFolder") h
  have htest (r : Record) : call r "file.inFolder" [.constant (.text folder) (literal '"' folder)] =
      .ok (inFolder r.folder folder) := rfl
  simp only [htest] at hcall
  exact hcall

theorem means_hasTag {tag : String} (h : IsVerbatim tag) :
    Means .unary ("file.hasTag(\"" ++ tag ++ "\")")
      (fun r => .ok (r.tags.contains (Note.bareTag tag))) := by
  have hcall := means_call_verbatim (by decide : IsWord "file.hasTag") h
  have hsingle (r : Record) : call r "file.hasTag" [.constant (.text tag) (literal '"' tag)] =
      .ok (r.tags.contains (Note.bareTag tag)) := by
    cases htag : r.tags.contains (Note.bareTag tag) <;>
      simp only [call, List.anyM, Operand.argument, Value.asText, bind, Except.bind, pure,
        Except.pure, htag]
  simp only [hsingle] at hcall
  exact hcall

theorem means_tags :
    Means (.row .and) "file.hasTag(\"conversation\") || file.hasTag(\"research\")"
      (fun r => .ok (r.tags.contains "conversation" || r.tags.contains "research")) := by
  have heither := (means_hasTag (by decide : IsVerbatim "conversation")).either
    (means_hasTag (by decide : IsVerbatim "research"))
  have htest (r : Record) : (do
      if ← Except.ok (r.tags.contains (Note.bareTag "conversation")) then return true
      else Except.ok (r.tags.contains (Note.bareTag "research")) : Except ValueFault Bool) =
      .ok (r.tags.contains "conversation" || r.tags.contains "research") := by
    have hconversation : Note.bareTag "conversation" = "conversation" := by decide
    have hresearch : Note.bareTag "research" = "research" := by decide
    rw [hconversation, hresearch]
    cases r.tags.contains "conversation" <;> rfl
  simp only [htest] at heither
  exact heither

/-! ### Folders -/

/-- A folder without slashes at its ends, as it is asked for. -/
def trimmedFolder (folder : String) : String :=
  mapChars (Text.dropEndWhile (· == '/')) (Path.normalize folder)

theorem prefix_trimmedFolder (folder : String) :
    (trimmedFolder folder).toList <+: (Path.normalize folder).toList := by
  rw [trimmedFolder, toList_mapChars]
  exact List.rdropWhile_prefix _ _

theorem getLast?_trimmedFolder (folder : String) :
    (trimmedFolder folder).toList.getLast? ≠ some '/' := by
  rw [trimmedFolder, toList_mapChars]
  exact Path.getLast?_rdropWhile_ne _

theorem head?_trimmedFolder (folder : String) :
    (trimmedFolder folder).toList.head? ≠ some '/' := by
  intro h
  obtain ⟨rest, hrest⟩ := prefix_trimmedFolder folder
  have hhead := Path.head?_normalize folder
  rw [← hrest, List.head?_append, h] at hhead
  exact hhead rfl

theorem isVerbatim_trimmedFolder {folder : String} (h : '"' ∉ folder.toList) :
    IsVerbatim (trimmedFolder folder) := by
  have hsub := (prefix_trimmedFolder folder).subset
  refine ⟨fun hmem => h ?_, fun hmem => Path.backslash_notMem_normalize folder (hsub hmem)⟩
  exact (Path.mem_normalize (by decide) (by decide) folder).1 (hsub hmem)

theorem trimChar_trimmedFolder (folder : String) :
    mapChars (Text.trimChar '/') (trimmedFolder folder) = trimmedFolder folder := by
  have hstart : (trimmedFolder folder).toList.dropWhile (· == '/') =
      (trimmedFolder folder).toList := by
    have hhead := head?_trimmedFolder folder
    cases hcs : (trimmedFolder folder).toList with
    | nil => rfl
    | cons c cs =>
      have hc : c ≠ '/' := fun heq => hhead (by simp [hcs, heq])
      simp [hc]
  have hend : Text.dropEndWhile (· == '/') (trimmedFolder folder).toList =
      (trimmedFolder folder).toList := by
    rw [trimmedFolder, toList_mapChars]
    exact List.rdropWhile_idempotent _ _
  rw [mapChars, Text.trimChar, hstart, hend, String.ofList_toList]

/-- The folder of a path is the one that is asked for or below it if the path begins with that one
and a slash. -/
theorem inFolder_folder {path : String} (hdot : startsWith (Path.normalize path) "./" = false)
    {folder : String} (hne : trimmedFolder folder ≠ "") :
    inFolder (Path.folder path) (trimmedFolder folder) =
      startsWith (Path.normalize path) (trimmedFolder folder ++ "/") := by
  rw [inFolder, trimChar_trimmedFolder, Path.folder_eq_dirname hdot, Bool.eq_iff_iff,
    Bool.or_eq_true, beq_iff_eq]
  exact (Path.startsWith_iff_dirname (Path.head?_normalize path) hne
    (getLast?_trimmedFolder folder)).symm

theorem below_eq_startsWith (folder path : String) :
    Conversation.Criteria.below folder path =
      ((trimmedFolder folder).isEmpty || startsWith path (trimmedFolder folder ++ "/")) := rfl

/-- Both ways of asking for a folder agree. -/
theorem below_eq {path : String} (hdot : startsWith (Path.normalize path) "./" = false)
    (folder : Option String) :
    ((trimmedFolder (folder.getD "")).isEmpty ||
      inFolder (Path.folder path) (trimmedFolder (folder.getD ""))) =
      Conversation.Criteria.meets folder
        fun f => Conversation.Criteria.below f (Path.normalize path) := by
  have hroot : (trimmedFolder "").isEmpty = true := rfl
  cases folder with
  | none => rw [Option.getD_none, hroot, Bool.true_or]; rfl
  | some f =>
    rw [Option.getD_some, Conversation.Criteria.meets]
    by_cases hf : f = ""
    · rw [hf, hroot, Bool.true_or]
      rfl
    · have hgiven : (some f).filter (!·.isEmpty) = some f := by simp [hf]
      rw [hgiven, Option.all_some, below_eq_startsWith]
      by_cases hempty : trimmedFolder f = ""
      · rw [String.isEmpty_iff.2 hempty, Bool.true_or, Bool.true_or]
      · rw [inFolder_folder hdot hempty]

/-! ### The filter -/

theorem means_sourceGuard {source : Option String} (h : ∀ s ∈ source, IsVerbatim s) :
    ∀ text ∈ (source.filter (!·.isEmpty)).map fun s => "source == \"" ++ s ++ "\"",
      Means .unary text fun r => hasSource source r.properties := by
  intro text htext
  obtain ⟨s, hs, rfl⟩ := Option.map_eq_some_iff.1 htext
  simp only [hasSource, hs]
  exact means_source (h s (Option.filter_eq_some_iff.1 hs).1)

theorem means_folderGuard {folder : String} (h : '"' ∉ folder.toList) :
    ∀ text ∈ if (trimmedFolder folder).isEmpty then none
      else some ("file.inFolder(\"" ++ trimmedFolder folder ++ "\")"),
      Means .unary text fun r =>
        .ok ((trimmedFolder folder).isEmpty || inFolder r.folder (trimmedFolder folder)) := by
  intro text htext
  split at htext
  case isTrue => cases htext
  case isFalse hne =>
    obtain rfl := Option.some.inj htext
    simp only [hne, Bool.false_or]
    exact means_inFolder (isVerbatim_trimmedFolder h)

theorem means_conversationFilter {source folder : Option String}
    (hsource : ∀ s ∈ source, IsVerbatim s) (hfolder : ∀ f ∈ folder, '"' ∉ f.toList) :
    Means (.row .and) (Base.conversationFilter source folder) (fun r => do
      if ← hasSource source r.properties then
        if ← Except.ok ((trimmedFolder (folder.getD "")).isEmpty ||
            inFolder r.folder (trimmedFolder (folder.getD ""))) then
          .ok (r.tags.contains "conversation" || r.tags.contains "research")
        else return false
      else return false) := by
  have htags : Means (.row .and) (joinWith " && "
      ["file.hasTag(\"conversation\") || file.hasTag(\"research\")"])
      (fun r => .ok (r.tags.contains "conversation" || r.tags.contains "research")) := by
    simpa [joinWith] using means_tags
  have hquote : '"' ∉ (folder.getD "").toList := by
    cases folder with
    | none => simp
    | some f => exact hfolder f rfl
  have hbelow := htags.guarded (by simp) (means_folderGuard hquote) fun hnone r => by
    split at hnone
    case isTrue hempty => rw [hempty, Bool.true_or]
    case isFalse => cases hnone
  have hall := hbelow.guarded (by simp) (means_sourceGuard hsource) fun hnone r => by
    rw [hasSource, Option.map_eq_none_iff.1 hnone]
  rw [← List.append_assoc] at hall
  exact hall

/-- The filter of the conversations base holds of a listed note if the note has the source that is
asked for, lies below the folder that is asked for and is tagged as a conversation or as research.
It fails only where the source of the note has no text. -/
theorem conversations_filter_means (source folder : Option String)
    (hsource : ∀ s ∈ source, IsVerbatim s) (hfolder : ∀ f ∈ folder, '"' ∉ f.toList)
    (file : FileEntry) (note : Note)
    (hdot : startsWith (Path.normalize file.path) "./" = false) :
    evalValue (Record.ofNote file note) (Base.conversations source folder).filters =
      (hasSource source note.frontMatter).map fun fromSource =>
        fromSource &&
        (Conversation.Criteria.meets folder fun f =>
          Conversation.Criteria.below f (Path.normalize file.path)) &&
        (note.tags.contains "conversation" || note.tags.contains "research") := by
  have hmeans := (means_conversationFilter hsource hfolder).evalValue (Record.ofNote file note)
  simp only [Record.ofNote, below_eq hdot] at hmeans
  refine hmeans.trans ?_
  cases hasSource source note.frontMatter with
  | error => rfl
  | ok fromSource =>
    cases fromSource with
    | false => rfl
    | true =>
      cases Conversation.Criteria.meets folder fun f =>
        Conversation.Criteria.below f (Path.normalize file.path) <;> rfl

/-- A listed file and a conversation in it, of one source. -/
def listedAt (path : String) : FileEntry := .ofPath path ⟨1, .ofNat 0, .ofNat 0⟩

def conversationFrom (source path : String) : Note :=
  { path, content := "x", frontMatter := [("source", .text source)], body := "x",
    tags := ["research"], links := [], embeds := [], fields := [] }

theorem conversations_filter_means_below :
    (∀ s ∈ some "a && b", IsVerbatim s) ∧ (∀ f ∈ some "\\x/y//", '"' ∉ f.toList) ∧
      startsWith (Path.normalize "x/y/z/n.md") "./" = false ∧
      evalValue (Record.ofNote (listedAt "x/y/z/n.md") (conversationFrom "a && b" "x/y/z/n.md"))
        (Base.conversations (some "a && b") (some "\\x/y//")).filters = .ok true ∧
      evalValue (Record.ofNote (listedAt "x/yz/n.md") (conversationFrom "a && b" "x/yz/n.md"))
        (Base.conversations (some "a && b") (some "\\x/y//")).filters = .ok false := by
  have hsource : ∀ s ∈ some "a && b", IsVerbatim s := by
    rintro s ⟨⟩
    decide
  have hfolder : ∀ f ∈ some "\\x/y//", '"' ∉ f.toList := by
    rintro f ⟨⟩
    decide
  refine ⟨hsource, hfolder, by decide, ?_, ?_⟩
  · exact (conversations_filter_means _ _ hsource hfolder (listedAt "x/y/z/n.md")
      (conversationFrom "a && b" "x/y/z/n.md") (by decide)).trans (by decide +kernel)
  · exact (conversations_filter_means _ _ hsource hfolder (listedAt "x/yz/n.md")
      (conversationFrom "a && b" "x/yz/n.md") (by decide)).trans (by decide +kernel)

/-- An empty source asks for nothing, and a backslash in a path is read as a slash. -/
theorem conversations_filter_deviates :
    (evalValue (Record.ofNote (listedAt "n.md") (conversationFrom "x" "n.md"))
        (Base.conversations (some "") none).filters = .ok true ∧
      (Value.text "x").asText ≠ .ok "") ∧
    evalValue (Record.ofNote (listedAt "a\\n.md") (conversationFrom "x" "a\\n.md"))
        (Base.conversations none (some "a")).filters = .ok true ∧
      Conversation.Criteria.below "a" "a\\n.md" = false := by
  have hsource : ∀ s ∈ some "", IsVerbatim s := by
    rintro s ⟨⟩
    decide
  have hfolder : ∀ f ∈ some "a", '"' ∉ f.toList := by
    rintro f ⟨⟩
    decide
  refine ⟨⟨?_, by decide⟩, ?_, by decide⟩
  · exact ((means_conversationFilter hsource (by simp)).evalValue _).trans (by decide +kernel)
  · exact ((means_conversationFilter (by simp) hfolder).evalValue _).trans (by decide +kernel)

end MarkdownVault
