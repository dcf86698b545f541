import MarkdownVault.Configuration
import MarkdownVault.Proofs.Vault.Writing
import MarkdownVault.Proofs.Yaml.Document

/-!
# Where vaults are found

The vaults that a file declares are those of its entries that lead to a folder. The nearest folder
that declares some counts, of a folder and those above it. A file that declares nothing is passed
over, whatever it holds, but for a few things that are refused wherever they are looked at.
-/

namespace MarkdownVault.Configuration

/-! ## What a file declares -/

/-- What the file in a folder says, if there is one that can be read. -/
def document? (t : Tree) (folder : Route) : Option Value :=
  ((t.read? (folder ++ [configFileName])).bind FileData.text?).bind fun text =>
    (Yaml.valueOf .strict text).toOption

/-- The entries of a document that lists vaults. Every other one has none. -/
def listed : Value → List Value
  | .map fields => match Value.entry? fields "vaults" with
    | some (.list entries) => Value.ownItems entries
    | _ => []
  | _ => []

/-- The vault of an entry whose path leads to a folder, by the entry's name or else the folder's. -/
def place? (t : Tree) (folder : Route) : Value → Option VaultPlace
  | .map fields => do
    let path ← Value.entry? fields "path"
    let route ← (locate folder path.shown).toOption
    let name := (Value.entry? fields "name").filter (!·.isNothing)
    if isFolder t route then some ⟨(name.map Value.shown).getD (folderName route), route⟩ else none
  | _ => none

/-- The vaults that the file in a folder declares, none if it cannot be read or has no list. -/
def declarations (t : Tree) (folder : Route) : List VaultPlace :=
  ((document? t folder).map listed).getD [] |>.filterMap (place? t folder)

/-- What is found from a folder on: the vaults that the nearest folder declares. -/
inductive Discovers (t : Tree) (folder : Route) : Except Failure (List VaultPlace) → Prop where
  | nearest {before after : List Route} {nearest : Route}
    (folders : searchedFolders folder = before ++ nearest :: after)
    (nothing : ∀ nearer ∈ before, declarations t nearer = [])
    (something : declarations t nearest ≠ []) : Discovers t folder (.ok (declarations t nearest))
  | unconfigured (nothing : ∀ searched ∈ searchedFolders folder, declarations t searched = []) :
    Discovers t folder (.error .unconfigured)

/-! ## What is refused -/

/-- Values that can be gone through item by item. -/
def IsCollection : Value → Prop
  | .list _ | .map _ | .text _ | .bytes _ | .set _ => True
  | _ => False

/-- What the file in a folder may hold that is refused: bytes that are no text, a well-formed text
without a value, vaults that are no collection, or a path with a NUL character. Left out is what is
refused for its size or its encoding: a path that is too long for the file system, a path with half
a surrogate pair, an integer with more digits than are read or written. -/
inductive Refused (t : Tree) (folder : Route) : Failure → Prop where
  | notText {data : FileData} (file : t.read? (folder ++ [configFileName]) = some data)
    (bytes : data.text? = none) : Refused t folder .notUtf8
  | noValue {data : FileData} {text : String} {fault : Yaml.Fault}
    (file : t.read? (folder ++ [configFileName]) = some data) (readable : data.text? = some text)
    (meaning : Yaml.valueOf .strict text = .error fault) (wellFormed : fault ≠ .malformed) :
    Refused t folder (.metadata fault)
  | unlisted {fields : List (Value × Value)} {vaults : Value}
    (said : document? t folder = some (.map fields))
    (declared : Value.entry? fields "vaults" = some vaults) (single : ¬ IsCollection vaults) :
    Refused t folder .unlistedVaults
  | badPath {document path : Value} {entry : List (Value × Value)}
    (said : document? t folder = some document) (member : .map entry ∈ listed document)
    (declared : Value.entry? entry "path" = some path) (invalid : '\x00' ∈ path.shown.toList) :
    Refused t folder .badPath

variable {t : Tree} {folder : Route} {entry : List (Value × Value)} {path document : Value}
  {data : FileData} {f : Failure}

/-! ## Reading one file -/

theorem placeOf_of_valid (entry : Value) (h : ∀ fields path, entry = .map fields →
    Value.entry? fields "path" = some path → '\x00' ∉ path.shown.toList) :
    placeOf t folder entry = .ok (place? t folder entry) := by
  cases entry with
  | map fields =>
    rw [placeOf, place?]
    cases hpath : Value.entry? fields "path" with
    | none => rfl
    | some path =>
      obtain ⟨route, hlocate⟩ : ∃ route, locate folder path.shown = .ok route := by
        rw [locate, if_neg (by simpa using h fields path rfl hpath)]
        exact ⟨_, rfl⟩
      simp only [hlocate, bind, Except.bind, Option.bind, Except.toOption]
      split <;> rfl
  | _ => rfl

theorem placeOf_of_nul (hpath : Value.entry? entry "path" = some path)
    (hnul : '\x00' ∈ path.shown.toList) : placeOf t folder (.map entry) = .error .badPath := by
  have hlocate : locate folder path.shown = .error .badPath := by
    rw [locate, if_pos (by simpa using hnul)]
  rw [placeOf, hpath]
  simp only [hlocate]
  rfl

/-- Vaults that are no list, but a collection still, have no entries. -/
theorem declared_eq (h : ∀ fields vaults, document = .map fields →
    Value.entry? fields "vaults" = some vaults → IsCollection vaults) :
    declared t folder document = (listed document).filterMapM (placeOf t folder) := by
  cases document with
  | map fields =>
    rw [declared, listed]
    cases hvaults : Value.entry? fields "vaults" with
    | none => rfl
    | some vaults =>
      have hcollection := h fields vaults rfl hvaults
      cases vaults <;> first | exact hcollection.elim | rfl
  | _ => rfl

theorem document?_eq_some_iff : document? t folder = some document ↔ ∃ data text,
    t.read? (folder ++ [configFileName]) = some data ∧ data.text? = some text ∧
      Yaml.valueOf .strict text = .ok document := by
  rw [document?, Option.bind_assoc]
  simp only [Option.bind_eq_some_iff]
  constructor
  · rintro ⟨data, hfile, text, htext, hvalue⟩
    exact ⟨data, text, hfile, htext, eq_ok_of_toOption hvalue⟩
  · rintro ⟨data, text, hfile, htext, hvalue⟩
    exact ⟨data, hfile, text, htext, by rw [hvalue]; rfl⟩

theorem placesAt_of_document (h : document? t folder = some document) :
    placesAt t folder = declared t folder document := by
  obtain ⟨data, text, hfile, htext, hvalue⟩ := document?_eq_some_iff.1 h
  simp only [placesAt, hfile, htext, hvalue]

/-- A file that cannot be read and is not refused declares nothing. -/
theorem placesAt_of_no_document (h : document? t folder = none) (hok : ∀ f, ¬ Refused t folder f) :
    placesAt t folder = .ok [] := by
  rw [placesAt]
  split
  case h_1 => rfl
  case h_2 data hfile =>
    split
    case h_1 hbytes => exact absurd (.notText hfile hbytes) (hok _)
    case h_2 text htext =>
      split
      case h_1 document hvalue =>
        rw [document?_eq_some_iff.2 ⟨data, text, hfile, htext, hvalue⟩] at h
        cases h
      case h_2 => rfl
      case h_3 fault hfault hvalue =>
        exact absurd (.noValue hfile htext hvalue hfault) (hok _)

/-- A file of which nothing is refused is read for what it declares. -/
theorem placesAt_eq_ok (hok : ∀ f, ¬ Refused t folder f) :
    placesAt t folder = .ok (declarations t folder) := by
  rw [declarations]
  cases hdocument : document? t folder with
  | none => exact placesAt_of_no_document hdocument hok
  | some document =>
    rw [placesAt_of_document hdocument, declared_eq]
    · exact filterMapM_eq_ok fun entry hmem => placeOf_of_valid entry
        fun fields path heq hpath hnul => hok _ (.badPath hdocument (heq ▸ hmem) hpath hnul)
    · exact fun fields vaults heq hvaults => Classical.byContradiction fun hsingle =>
        hok _ (.unlisted (heq ▸ hdocument) hvaults hsingle)

/-- What is refused in a file is what reading it fails with. -/
theorem placesAt_eq_error (h : Refused t folder f) : placesAt t folder = .error f := by
  cases h with
  | notText hfile hbytes => simp only [placesAt, hfile, hbytes]
  | @noValue data text fault hfile htext hvalue hfault =>
    simp only [placesAt, hfile, htext, hvalue]
  | @unlisted fields vaults hdocument hvaults hsingle =>
    rw [placesAt_of_document hdocument, declared, hvaults]
    cases vaults <;> first | exact absurd trivial hsingle | rfl
  | @badPath document path entry hdocument hmem hpath hnul =>
    rw [placesAt_of_document hdocument, declared_eq]
    · refine filterMapM_eq_error (fun other _ => ?_) ⟨_, hmem, placeOf_of_nul hpath hnul⟩
      by_cases hvalid : ∀ fields path, other = .map fields →
          Value.entry? fields "path" = some path → '\x00' ∉ path.shown.toList
      · exact .inr ⟨_, placeOf_of_valid other hvalid⟩
      · simp only [Classical.not_forall, Classical.not_not] at hvalid
        obtain ⟨fields, path, rfl, hpath, hnul⟩ := hvalid
        exact .inl (placeOf_of_nul hpath hnul)
    · rintro fields vaults rfl hvaults
      rw [listed, hvaults] at hmem
      cases vaults <;> trivial

/-! ## Searching folders -/

/-- A folder and so many above it, the nearest first. -/
def foldersUp (n : Nat) (folder : Route) : List Route :=
  (List.range (min n (folder.length + 1))).map fun k => folder.take (folder.length - k)

/-- The vaults of the first folder that declares some. -/
def firstDeclared (t : Tree) : List Route → Except Failure (List VaultPlace)
  | [] => .ok []
  | folder :: above => do
    match ← placesAt t folder with
    | [] => firstDeclared t above
    | places => return places

theorem foldersUp_top (n : Nat) : foldersUp (n + 1) [] = [[]] := by
  have hmin : min (n + 1) 1 = 1 := by omega
  rw [foldersUp, List.length_nil, Nat.zero_add, hmin]
  rfl

theorem foldersUp_succ (n : Nat) (h : folder ≠ []) :
    foldersUp (n + 1) folder = folder :: foldersUp n folder.dropLast := by
  have hpos := List.length_pos_iff.2 h
  have hlength : folder.dropLast.length + 1 = folder.length := by
    rw [List.length_dropLast]
    omega
  have hmin : min (n + 1) (folder.length + 1) = min n folder.length + 1 := by omega
  rw [foldersUp, hmin, List.range_succ_eq_map, List.map_cons, List.map_map, foldersUp, hlength,
    Nat.sub_zero, List.take_length]
  refine congrArg _ (List.map_congr_left fun k _ => ?_)
  simp only [Function.comp_apply, List.dropLast_eq_take, List.take_take, List.length_take]
  congr 1
  omega

theorem search_eq (t : Tree) (n : Nat) (folder : Route) :
    search t n folder = firstDeclared t (foldersUp n folder) := by
  induction n generalizing folder with
  | zero => simp [search, foldersUp, firstDeclared]
  | succ n ih =>
    by_cases h : folder = []
    · subst h
      rw [search, foldersUp_top, firstDeclared]
      cases placesAt t [] with
      | error f => rfl
      | ok places => cases places <;> rfl
    · have hempty : folder.isEmpty = false := by simpa using h
      rw [search, foldersUp_succ n h, firstDeclared, ← ih, hempty]
      rfl

theorem firstDeclared_append {before : List Route} (h : ∀ g ∈ before, placesAt t g = .ok [])
    (after : List Route) : firstDeclared t (before ++ after) = firstDeclared t after := by
  induction before with
  | nil => rfl
  | cons g before ih =>
    obtain ⟨hg, hbefore⟩ := List.forall_mem_cons.1 h
    rw [List.cons_append, firstDeclared, hg]
    exact ih hbefore

/-- If a folder is refused and none before it declares anything, the search fails with what is
refused in the first such folder. -/
theorem exists_refused_of_firstDeclared {before : List Route} {g : Route}
    (h : ∀ b ∈ before, declarations t b = []) (hrefused : Refused t g f) (after : List Route) :
    ∃ b f', Refused t b f' ∧ firstDeclared t (before ++ g :: after) = .error f' := by
  induction before with
  | nil =>
    refine ⟨g, f, hrefused, ?_⟩
    rw [List.nil_append, firstDeclared, placesAt_eq_error hrefused]
    rfl
  | cons b before ih =>
    obtain ⟨hb, hbefore⟩ := List.forall_mem_cons.1 h
    simp only [List.cons_append, firstDeclared]
    by_cases hok : ∀ f, ¬ Refused t b f
    · rw [placesAt_eq_ok hok, hb]
      exact ih hbefore
    · obtain ⟨f', hrefused'⟩ := Classical.not_forall_not.1 hok
      refine ⟨b, f', hrefused', ?_⟩
      rw [placesAt_eq_error hrefused']
      rfl

/-! ## Finding vaults -/

/-- A folder that is searched, as none before it declares anything. -/
def Consulted (t : Tree) (folder g : Route) : Prop :=
  ∃ before after, searchedFolders folder = before ++ g :: after ∧
    ∀ b ∈ before, declarations t b = []

theorem places_eq {root : Option String} (h : root.getD "" = "") :
    places t folder root = match firstDeclared t (searchedFolders folder) with
      | .error f => .error f
      | .ok [] => .error .unconfigured
      | .ok (place :: places) => .ok (place :: places) := by
  have hroot : root.filter (!·.isEmpty) = none := by
    cases root with
    | none => rfl
    | some path =>
      obtain rfl : path = "" := h
      rfl
  have hsearch : search t searchDepth folder = firstDeclared t (searchedFolders folder) :=
    search_eq t searchDepth folder
  rw [places, hroot, hsearch]
  rcases firstDeclared t (searchedFolders folder) with f | _ | ⟨place, places⟩ <;> rfl

/-- With no root given from outside the vaults are those of the nearest folder that declares some,
just if nothing is refused in it or below it. -/
theorem discovers_places_iff (t : Tree) (folder : Route) {root : Option String}
    (h : root.getD "" = "") : Discovers t folder (places t folder root) ↔
      ∀ g, Consulted t folder g → ∀ f, ¬ Refused t g f := by
  rw [places_eq h]
  constructor
  · rintro hdiscovers g ⟨before, after, hfolders, hnothing⟩ f hrefused
    obtain ⟨b, f', hrefused', hfails⟩ := exists_refused_of_firstDeclared hnothing hrefused after
    rw [hfolders, hfails] at hdiscovers
    cases hdiscovers
    cases hrefused'
  · intro hok
    have hread {before after : List Route} {g : Route}
        (hfolders : searchedFolders folder = before ++ g :: after)
        (hnothing : ∀ b ∈ before, declarations t b = []) :
        placesAt t g = .ok (declarations t g) :=
      placesAt_eq_ok (hok g ⟨before, after, hfolders, hnothing⟩)
    have hpassed {before after : List Route} (hfolders : searchedFolders folder = before ++ after)
        (hnothing : ∀ b ∈ before, declarations t b = []) :
        ∀ b ∈ before, placesAt t b = .ok [] := by
      intro b hb
      obtain ⟨nearer, farther, rfl⟩ := List.append_of_mem hb
      rw [← hnothing b hb]
      rw [List.append_assoc, List.cons_append] at hfolders
      exact hread hfolders fun c hc => hnothing c (List.mem_append_left _ hc)
    cases hfind : (searchedFolders folder).find? fun g => !(declarations t g).isEmpty with
    | none =>
      have hnothing : ∀ g ∈ searchedFolders folder, declarations t g = [] := by
        simpa using hfind
      have hsearch : firstDeclared t (searchedFolders folder) = .ok [] := by
        have hend := firstDeclared_append (hpassed (List.append_nil _).symm hnothing) []
        rwa [List.append_nil] at hend
      rw [hsearch]
      exact .unconfigured hnothing
    | some g =>
      obtain ⟨hsomething, before, after, hfolders, hnothing⟩ :=
        List.find?_eq_some_iff_append.1 hfind
      have hnothing : ∀ b ∈ before, declarations t b = [] := by simpa using hnothing
      have hsomething : declarations t g ≠ [] := by simpa using hsomething
      have hsearch : firstDeclared t (searchedFolders folder) = .ok (declarations t g) := by
        rw [hfolders, firstDeclared_append (hpassed hfolders hnothing), firstDeclared,
          hread hfolders hnothing]
        cases hplaces : declarations t g with
        | nil => exact absurd hplaces hsomething
        | cons place places => rfl
      have hnearest := Discovers.nearest hfolders hnothing hsomething
      rw [hsearch]
      cases hplaces : declarations t g with
      | nil => exact absurd hplaces hsomething
      | cons place places => rwa [hplaces] at hnearest

/-! ### A folder of notes, and files that stop a search -/

theorem not_refused_of_ok {places : List VaultPlace} (h : placesAt t folder = .ok places)
    (f : Failure) : ¬ Refused t folder f := by
  intro hrefused
  rw [placesAt_eq_error hrefused] at h
  cases h

theorem document?_of_content {content : String} {modified : Binary64}
    (hfile : t.read? (folder ++ [configFileName]) = some ⟨content.toUTF8, modified⟩)
    (hreturn : '\r' ∉ content.toList) :
    document? t folder = (Yaml.valueOf .strict content).toOption := by
  rw [document?, hfile, Option.bind_some, FileData.text?_toUTF8, Text.mapChars_plainLines hreturn,
    Option.bind_some]

theorem valueOf_at : Yaml.valueOf .strict "@" = .error .malformed := by
  have htokens : Yaml.Token.ofText .strict "@".toList = .error .malformed := rfl
  simp only [Yaml.valueOf, Yaml.Node.ofText, htokens]
  rfl

theorem valueOf_notes : Yaml.valueOf .strict "vaults:\n- path: notes" =
    .ok (.map [(.text "vaults", .list [.map [(.text "path", .text "notes")]])]) := by
  have htokens : Yaml.Token.ofText .strict "vaults:\n- path: notes".toList =
      .ok [.blockMappingStart, .key, .scalar "vaults" true, .value, .blockEntry,
        .blockMappingStart, .key, .scalar "path" true, .value, .scalar "notes" true, .blockEnd,
        .blockEnd] :=
    Yaml.tokens_of_chars rfl (by decide +kernel)
  have hvalue : (Yaml.Node.mapping .map [(.scalar .text "vaults", .sequence .list
      [.mapping .map [(.scalar .text "path", .scalar .text "notes")]])]).value =
      .ok (.map [(.text "vaults", .list [.map [(.text "path", .text "notes")]])]) := by
    simp only [Yaml.Node.value, Yaml.valueAt, Yaml.entriesAt, Yaml.valuesAt, Yaml.merged,
      Yaml.ownEntries, Yaml.scalarOf]
    rfl
  exact (Yaml.valueOf_of_tokens htokens rfl).trans hvalue

theorem valueOf_emptyVaults :
    Yaml.valueOf .strict "vaults:" = .ok (.map [(.text "vaults", .null)]) := by
  have htokens : Yaml.Token.ofText .strict "vaults:".toList =
      .ok [.blockMappingStart, .key, .scalar "vaults" true, .value, .blockEnd] :=
    Yaml.tokens_of_chars rfl (by decide +kernel)
  have hvalue : (Yaml.Node.mapping .map [(.scalar .text "vaults", .empty)]).value =
      .ok (.map [(.text "vaults", .null)]) := by
    simp only [Yaml.Node.value, Yaml.valueAt, Yaml.entriesAt, Yaml.Node.empty, Yaml.merged,
      Yaml.ownEntries, Yaml.scalarOf]
    rfl
  exact (Yaml.valueOf_of_tokens htokens rfl).trans hvalue

/-- A folder of notes, declared above a folder with a file that is not well formed. -/
def notesAbove : Tree := .folder [
  ("notes", .folder []),
  (configFileName, .file ⟨"vaults:\n- path: notes".toUTF8, .zero false⟩),
  ("work", .folder [(configFileName, .file ⟨"@".toUTF8, .zero false⟩), ("sub", .folder [])])]

theorem placesAt_notesAbove : placesAt notesAbove ["work", "sub"] = .ok [] ∧
    placesAt notesAbove ["work"] = .ok [] ∧
    placesAt notesAbove [] = .ok [⟨"notes", ["notes"]⟩] := by
  refine ⟨rfl, ?_, ?_⟩
  · have hfile : notesAbove.read? (["work"] ++ [configFileName]) =
        some ⟨"@".toUTF8, .zero false⟩ := rfl
    have htext : FileData.text? ⟨"@".toUTF8, .zero false⟩ = some "@" := by
      rw [FileData.text?_toUTF8, Text.mapChars_plainLines (by decide)]
    simp only [placesAt, hfile, htext, valueOf_at]
  · have hfile : notesAbove.read? ([] ++ [configFileName]) =
        some ⟨"vaults:\n- path: notes".toUTF8, .zero false⟩ := rfl
    rw [placesAt_of_document ((document?_of_content hfile (by decide)).trans
      (congrArg _ valueOf_notes))]
    rfl

/-- A file that is not well formed is passed over on the way to the vaults above it. -/
theorem discovers_places_iff_notesAbove : (some "").getD "" = "" ∧
    (∀ g, Consulted notesAbove ["work", "sub"] g → ∀ f, ¬ Refused notesAbove g f) ∧
    Discovers notesAbove ["work", "sub"] (places notesAbove ["work", "sub"] (some "")) ∧
    places notesAbove ["work", "sub"] (some "") = .ok [⟨"notes", ["notes"]⟩] := by
  obtain ⟨hsub, hwork, htop⟩ := placesAt_notesAbove
  have hsearched : searchedFolders ["work", "sub"] = [["work", "sub"], ["work"], []] := by decide
  have hok : ∀ g, Consulted notesAbove ["work", "sub"] g → ∀ f, ¬ Refused notesAbove g f := by
    rintro g ⟨before, after, hfolders, -⟩
    have hmem : g ∈ searchedFolders ["work", "sub"] := hfolders ▸ by simp
    rw [hsearched] at hmem
    simp only [List.mem_cons, List.not_mem_nil, or_false] at hmem
    rcases hmem with rfl | rfl | rfl
    · exact not_refused_of_ok hsub
    · exact not_refused_of_ok hwork
    · exact not_refused_of_ok htop
  refine ⟨rfl, hok, (discovers_places_iff _ _ rfl).2 hok, ?_⟩
  rw [places_eq rfl, hsearched]
  simp only [firstDeclared, hsub, hwork, htop, bind, Except.bind]
  rfl

theorem places_of_refused (h : Refused t [] f) : places t [] none = .error f := by
  have hsearched : searchedFolders [] = [[]] := by decide
  rw [places_eq rfl, hsearched, firstDeclared, placesAt_eq_error h]
  rfl

/-- A folder whose file names no vaults after all. -/
def vaultless : Tree := .folder [(configFileName, .file ⟨"vaults:".toUTF8, .zero false⟩)]

/-- A folder whose file is no text. -/
def unreadable : Tree := .folder [(configFileName, .file ⟨⟨#[0xff, 0]⟩, .zero false⟩)]

/-- A file that names no vaults after all, and one that is no text, stop a search instead of
counting for nothing. -/
theorem search_stopped :
    places vaultless [] none = .error .unlistedVaults ∧
      ¬ Discovers vaultless [] (places vaultless [] none) ∧
      places unreadable [] none = .error .notUtf8 ∧
      ¬ Discovers unreadable [] (places unreadable [] none) := by
  have hvaultless : Refused vaultless [] .unlistedVaults := by
    have hfile : vaultless.read? ([] ++ [configFileName]) =
        some ⟨"vaults:".toUTF8, .zero false⟩ := rfl
    have hsaid := (document?_of_content hfile (by decide)).trans
      (congrArg Except.toOption valueOf_emptyVaults)
    exact .unlisted hsaid rfl id
  have hunreadable : Refused unreadable [] .notUtf8 := by
    have hbytes : String.fromUTF8? ⟨#[0xff, 0]⟩ = none := by decide +kernel
    exact .notText rfl (by rw [FileData.text?, hbytes]; rfl)
  rw [places_of_refused hvaultless, places_of_refused hunreadable]
  refine ⟨rfl, fun h => ?_, rfl, fun h => ?_⟩
  · cases h
  · cases h

end MarkdownVault.Configuration
