import MarkdownVault.Proofs.Vault.Contents

/-!
# Writes are framed

A write to a vault on disk that is refused leaves every file and every folder as they were, unless
something is too long: then it may leave folders. If the string is no text the file is opened before
that shows, and is left empty. A write that does not fail leaves one file with new contents. Nothing
else ever changes but for folders on the way to the file that were missing. What was written is read
back by every path that leads to the file.
-/

namespace MarkdownVault

/-- All stands as before but for folders on a route that were missing. -/
def Tree.OnlyFolders (route : Route) (t t' : Tree) : Prop :=
  ∀ other, t'.standing other = t.standing other ∨
    other <+: route ∧ t.standing other = .nothing ∧ t'.standing other = .folder

/-- The same, but for what stands at the end of the route itself. -/
def Tree.OnlyAt (route : Route) (t t' : Tree) : Prop :=
  ∀ other, other ≠ route → t'.standing other = t.standing other ∨
    other <+: route ∧ t.standing other = .nothing ∧ t'.standing other = .folder

namespace Disk

variable {d d' : Disk} {path : Spelling} {content : Loose} {text : String} {route : Route}

/-! ## Writing to a vault -/

/-- Why nothing can be written at a path. -/
inductive Unwritable (d : Disk) (path : Spelling) : Failure → Prop
  | invalid {f : Failure} (invalid : path.encode = .error f) : Unwritable d path f
  | outside {text : String} (valid : path.encode = .ok text)
    (outside : ¬ d.root <+: d.root.follow (Path.normalize text)) :
    Unwritable d path (.outsideVault text d.name)
  | onFolder {route : Route} (located : d.locate path = .ok route)
    (folder : d.tree.standing (d.root ++ route) = .folder) : Unwritable d path .system
  | belowFile {route : Route} (located : d.locate path = .ok route)
    (file : d.tree.BelowFile (d.root ++ route)) : Unwritable d path .system

/-- A path in the vault at which no folder stands and no file is in the way. -/
structure Free (d : Disk) (path : Spelling) (route : Route) : Prop where
  located : d.locate path = .ok route
  noFolder : d.tree.standing (d.root ++ route) ≠ .folder
  noFile : ¬ d.tree.BelowFile (d.root ++ route)

/-- A path at which a file can be written. -/
structure Opens (d : Disk) (path : Spelling) (route : Route) : Prop extends d.Free path route where
  short : ¬ d.tree.TooLong d.takes (d.root ++ route)

/-- What a write leaves of a vault: one file holds the text, and nothing else has changed but for
missing folders on the way to it. -/
structure HoldsNow (route : Route) (text : String) (d d' : Disk) : Prop where
  file : d'.tree.standing (d.root ++ route) = .file ⟨text.toUTF8, d.stamp⟩
  frame : d.tree.OnlyAt (d.root ++ route) d'.tree
  rest : d' = { d with tree := d'.tree, listings := [] }
  read : ∀ spelling, d.locate spelling = .ok route →
    d'.read spelling = .ok (mapChars Text.plainLines text)
  /-- Every other path reads as before. Where no file was and none is it may fail otherwise, since a
  name is found too long in a folder that was missing. -/
  others : ∀ other, d.locate other ≠ .ok route → d'.read other = d.read other ∨
    ∃ below, d.locate other = .ok below ∧ d.isFile below = false ∧ d'.isFile below = false
  listed : ∀ now, ∃ files, (d'.list now none).1 = .ok files ∧
    (route.text ∈ files.map FileEntry.path ↔ route.Visible)

/-- What may come of a write to a vault. -/
inductive Outcome (d : Disk) (path : Spelling) (content : Loose) :
    Except Failure Unit × Disk → Prop
  /-- Nothing is changed. -/
  | refused {f : Failure} (reason : d.Unwritable path f) : Outcome d path content (.error f, d)
  /-- No file is changed, but folders on the way to the file may be new. -/
  | tooLong {route : Route} {tree : Tree} (free : d.Free path route)
    (tooLong : d.tree.TooLong d.takes (d.root ++ route))
    (folders : d.tree.OnlyFolders (d.root ++ route).dropLast tree) :
    Outcome d path content (.error .system, { d with tree })
  /-- The file is empty, and nothing else in the tree is changed but for folders on the way to it.
  Which listings are kept is left open. -/
  | emptied {route : Route} {tree : Tree} (listings : List (String × Listing))
    (opens : d.Opens path route) (noText : content.isText = false)
    (file : tree.standing (d.root ++ route) = .file ⟨.empty, d.stamp⟩)
    (frame : d.tree.OnlyAt (d.root ++ route) tree) :
    Outcome d path content (.error .unencodable, { d with tree, listings })
  /-- The text is written. -/
  | written {route : Route} {text : String} {d' : Disk} (opens : d.Opens path route)
    (isText : content = text) (holds : d.HoldsNow route text d') :
    Outcome d path content (.ok (), d')

theorem Proper.exists_children (h : d.Proper) : ∃ children, d.tree = .folder children := by
  obtain ⟨cs, hroot⟩ := h.folder
  cases htree : d.tree with
  | folder children => exact ⟨children, rfl⟩
  | file data =>
    rw [htree] at hroot
    cases hroute : d.root with
    | nil => simp [hroute, Tree.find?] at hroot
    | cons name root => simp [hroute, Tree.find?] at hroot

/-- A path that leads somewhere is a text. -/
theorem exists_text_of_locate (h : d.locate path = .ok route) :
    ∃ text : String, path = text ∧ '\x00' ∉ text.toList := by
  cases hencode : path.encode with
  | error f =>
    rw [d.locate_of_encode hencode] at h
    cases h
  | ok text => exact ⟨text, Spelling.encode_eq_ok hencode⟩

/-- A path leads by names that can stand for files. -/
theorem Proper.entryNames (h : d.Proper) (hlocate : d.locate path = .ok route) :
    ∀ name ∈ d.root ++ route, Tree.IsEntryName name := by
  obtain ⟨cs, hroot⟩ := h.folder
  have hnames := (h.tree.of_find? hroot).2
  obtain ⟨text, rfl, hnul⟩ := exists_text_of_locate hlocate
  obtain ⟨-, hfollow⟩ := ((d.resolves_follow text).inside route).1 hlocate
  have hnormal := (Route.normalizes_follow (fun name hname => (hnames name hname).isName)
    (Path.normalize text) (d.root ++ route)).2 hfollow.symm
  intro name hname
  rcases Route.mem_follow (hfollow ▸ hname) with hstart | hpiece
  · exact hnames name hstart
  · refine ⟨hnormal.names name hname, Route.slash_notMem_pieces _ name hpiece, fun hmem => ?_⟩
    have hpath := (Route.exists_mem_pieces_iff.1 ⟨name, hpiece, hmem⟩).1
    exact hnul ((Path.mem_normalize (by decide) (by decide) text).1 hpath)

/-! ## Failing -/

theorem unwritable_of_locate {f : Failure} (h : d.locate path = .error f) :
    d.Unwritable path f := by
  cases hencode : path.encode with
  | error g =>
    rw [d.locate_of_encode hencode] at h
    cases h
    exact .invalid hencode
  | ok text =>
    obtain ⟨rfl, hnul⟩ := Spelling.encode_eq_ok hencode
    have hresolves := d.resolves_follow text
    have houtside : ¬ d.root <+: d.root.follow (Path.normalize text) := by
      rintro ⟨below, hbelow⟩
      rw [(hresolves.inside below).2 ⟨hnul, hbelow.symm⟩] at h
      cases h
    rw [hresolves.outside.2 ⟨hnul, houtside⟩] at h
    cases h
    exact .outside hencode houtside

/-- A file is opened just where one can be written. -/
theorem Proper.opens_of_openFile (h : d.Proper) {tree : Tree} (hlocate : d.locate path = .ok route)
    (hopen : d.tree.openFile d.takes d.stamp (d.root ++ route) = (.ok (), tree)) :
    d.Opens path route := by
  obtain ⟨children, htree⟩ := h.exists_children
  obtain ⟨hshort, -, hwrite⟩ := Tree.openFile_eq_ok_iff.1 hopen
  have hwritable : ¬ (d.tree.standing (d.root ++ route) = .folder ∨
      d.tree.BelowFile (d.root ++ route)) := by
    rw [← @Tree.write?_eq_none_iff ⟨.empty, d.stamp⟩, hwrite]
    exact nofun
  obtain ⟨hfolder, hfile⟩ := not_or.1 hwritable
  exact ⟨⟨hlocate, hfolder, hfile⟩, hshort⟩

/-- A file that cannot be opened has a folder in its place or a file above it, or something is too
long. -/
theorem Proper.outcome_of_unopened (h : d.Proper) {refusal : Tree.Refusal} {tree : Tree}
    (hlocate : d.locate path = .ok route)
    (hopen : d.tree.openFile d.takes d.stamp (d.root ++ route) = (.error refusal, tree)) :
    d.Outcome path content (.error .system, { d with tree }) := by
  obtain ⟨children, htree⟩ := h.exists_children
  by_cases hfolder : d.tree.standing (d.root ++ route) = .folder
  · obtain ⟨_, hunchanged⟩ := Tree.openFile_of_folder d.takes d.stamp hfolder
    rw [hopen] at hunchanged
    cases hunchanged
    exact .refused (.onFolder hlocate hfolder)
  by_cases hfile : d.tree.BelowFile (d.root ++ route)
  · have hblocked : d.tree.Blocked (d.root ++ route).dropLast := by
      rw [htree] at hfile ⊢
      exact Tree.blocked_dropLast_iff.2 hfile
    obtain ⟨_, hunchanged⟩ := Tree.openFile_of_blocked d.takes d.stamp hblocked
    rw [hopen] at hunchanged
    cases hunchanged
    exact .refused (.belowFile hlocate hfile)
  · have hlong : d.tree.TooLong d.takes (d.root ++ route) := by
      by_contra hshort
      have hblocked : ¬ d.tree.Blocked (d.root ++ route).dropLast := by
        rw [htree] at hfile ⊢
        exact Tree.blocked_dropLast_iff.not.2 hfile
      cases hwrite : d.tree.write? ⟨.empty, d.stamp⟩ (d.root ++ route) with
      | none => exact (Tree.write?_eq_none_iff.1 hwrite).elim hfolder hfile
      | some opened =>
        rw [Tree.openFile_eq_ok_iff.2 ⟨hshort, hblocked, hwrite⟩] at hopen
        cases hopen
    refine .tooLong ⟨hlocate, hfolder, hfile⟩ hlong fun other => ?_
    rcases Tree.openFile_error hopen with rfl | rfl
    · exact .inl rfl
    · exact Tree.standing_makeFolders_cases _ _ _ _

/-! ## Succeeding -/

theorem isFile_eq_false_iff {below : Route} :
    d.isFile below = false ↔ d.tree.read? (d.root ++ below) = none := by
  simp [isFile]

theorem Proper.holdsNow (h : d.Proper) (hlocate : d.locate path = .ok route) {tree : Tree}
    (hwrite : d.tree.write? ⟨text.toUTF8, d.stamp⟩ (d.root ++ route) = some tree) :
    d.HoldsNow route text { d with tree, listings := [] } where
  file := (Tree.standing_write? hwrite _).trans (if_pos rfl)
  frame other hne := Tree.standing_write?_cases hwrite hne
  rest := rfl
  read spelling hspelling := by
    have hlocated : locate { d with tree, listings := [] } spelling = .ok route := hspelling
    simp only [read, hlocated, bind, Except.bind, Tree.read?_write?_self hwrite,
      FileData.text?_toUTF8]
    rfl
  others other hother := by
    cases hlocated : d.locate other with
    | error f =>
      have hlocated' : locate { d with tree, listings := [] } other = .error f := hlocated
      refine .inl ?_
      rw [read, read, hlocated, hlocated']
      rfl
    | ok below =>
      have hlocated' : locate { d with tree, listings := [] } other = .ok below := hlocated
      have hne : d.root ++ below ≠ d.root ++ route := fun heq =>
        hother (hlocated.trans (congrArg _ (List.append_cancel_left heq)))
      have hsame := Tree.read?_write?_of_ne hwrite hne
      cases hread : d.tree.read? (d.root ++ below) with
      | none =>
        rw [hread] at hsame
        exact .inr ⟨below, rfl, isFile_eq_false_iff.2 hread, isFile_eq_false_iff.2 hsame⟩
      | some data =>
        rw [hread] at hsame
        refine .inl ?_
        simp only [read, hlocated, hlocated', bind, Except.bind, hread, hsame]
  listed now := by
    obtain ⟨cs, hroot⟩ := h.folder
    have hnames := h.entryNames hlocate
    have hproper := h.tree.of_write? hnames hwrite
    have hread := Tree.read?_write?_self hwrite
    rw [Tree.write?_append _ hroot] at hwrite
    obtain ⟨sub, hsub, rfl⟩ := Option.map_eq_some_iff.1 hwrite
    obtain ⟨cs', rfl⟩ := Tree.exists_folder_of_write? hsub
    have hroot' := Tree.find?_mount_self (.folder cs') d.root d.tree
    have hlist := @list_none
      { d with tree := Tree.mount (.folder cs') d.root d.tree, listings := [] } cs' hroot' now
    rw [Tree.read?_eq_bind, Tree.find?_append, hroot', Option.bind_some, ← Tree.read?_eq_bind]
      at hread
    have hcs := (hproper.of_find? hroot').1
    obtain ⟨hne, hslash⟩ := hcs.of_read? hread
    refine ⟨_, hlist, ?_⟩
    rw [hcs.mem_paths_filesBelow_iff, Route.pieces_text hne hslash, and_iff_left ⟨_, hread⟩]

/-- A write is refused and leaves the vault as it was, or something is too long and it leaves
folders at most, or the string is no text and it leaves an empty file, or the text is written. -/
theorem Proper.write_outcome (h : d.Proper) (path : Spelling) (content : Loose) :
    d.Outcome path content (d.write path content) := by
  generalize hwrite : d.write path content = outcome
  cases hwrite ▸ writes_write path content d with
  | refused hlocate => exact .refused (unwritable_of_locate hlocate)
  | unopened hlocate hopen => exact h.outcome_of_unopened hlocate hopen
  | emptied hlocate hopen hbytes =>
    obtain ⟨-, -, hempty⟩ := Tree.openFile_eq_ok_iff.1 hopen
    refine .emptied d.listings (h.opens_of_openFile hlocate hopen) ?_
      ((Tree.standing_write? hempty _).trans (if_pos rfl))
      fun other hne => Tree.standing_write?_cases hempty hne
    simpa [Loose.bytes?] using hbytes
  | written hlocate hopen hbytes hput =>
    obtain ⟨text, rfl, rfl⟩ := Loose.bytes?_eq_some hbytes
    exact .written (h.opens_of_openFile hlocate hopen) rfl (h.holdsNow hlocate hput)

/-- One write makes a folder and is read by another spelling of its path, and one below a file is
refused. -/
theorem Proper.write_outcome_nested : nestedNotes.Proper ∧
    (∃ d', nestedNotes.write "/a\\c/../b/n.md" "x\r\ny\rz" = (.ok (), d') ∧
      nestedNotes.HoldsNow ["a", "b", "n.md"] "x\r\ny\rz" d' ∧
      d'.read "./a/b//n.md" = .ok "x\ny\nz") ∧
    nestedNotes.Outcome "a.md/b/n.md" "x" (.error .system, nestedNotes) := by
  have hlocate : nestedNotes.locate "/a\\c/../b/n.md" = .ok ["a", "b", "n.md"] :=
    ((nestedNotes.resolves_follow _).inside _).2 (by decide +kernel)
  have hspelling : nestedNotes.locate "./a/b//n.md" = .ok ["a", "b", "n.md"] :=
    ((nestedNotes.resolves_follow _).inside _).2 (by decide +kernel)
  have hbelow : nestedNotes.locate "a.md/b/n.md" = .ok ["a.md", "b", "n.md"] :=
    ((nestedNotes.resolves_follow _).inside _).2 (by decide +kernel)
  have hplain : mapChars Text.plainLines "x\r\ny\rz" = "x\ny\nz" := by decide +kernel
  obtain ⟨d', hwrite⟩ : ∃ d', nestedNotes.write "/a\\c/../b/n.md" "x\r\ny\rz" = (.ok (), d') := by
    rw [write, hlocate]
    exact ⟨_, rfl⟩
  have hrefused : nestedNotes.write "a.md/b/n.md" "x" = (.error .system, nestedNotes) := by
    rw [write, hbelow]
    rfl
  have hunwritten := proper_nestedNotes.write_outcome "a.md/b/n.md" "x"
  rw [hrefused] at hunwritten
  refine ⟨proper_nestedNotes, ⟨d', hwrite, ?_⟩, hunwritten⟩
  have hwritten := proper_nestedNotes.write_outcome "/a\\c/../b/n.md" "x\r\ny\rz"
  rw [hwrite] at hwritten
  cases hwritten with
  | written hopens htext hholds =>
    obtain rfl := Except.ok.inj (hlocate.symm.trans hopens.located)
    have htext := congrArg Loose.plain htext
    rw [Loose.plain_ofText, Loose.plain_ofText] at htext
    subst htext
    exact ⟨hholds, (hholds.read _ hspelling).trans (by rw [hplain])⟩

theorem not_unwritable (data : FileData) (hlocate : d.locate path = .ok route)
    (hwrite : d.tree.write? data (d.root ++ route) ≠ none) (f : Failure) :
    ¬ d.Unwritable path f := by
  rw [Ne, Tree.write?_eq_none_iff, not_or] at hwrite
  rintro (⟨hencode⟩ | ⟨hencode, houtside⟩ | ⟨hlocate', hfolder⟩ | ⟨hlocate', hfile⟩)
  · rw [d.locate_of_encode hencode] at hlocate
    cases hlocate
  · obtain ⟨rfl, hnul⟩ := Spelling.encode_eq_ok hencode
    rw [(d.resolves_follow _).outside.2 ⟨hnul, houtside⟩] at hlocate
    cases hlocate
  · obtain rfl := Except.ok.inj (hlocate.symm.trans hlocate')
    exact hwrite.1 hfolder
  · obtain rfl := Except.ok.inj (hlocate.symm.trans hlocate')
    exact hwrite.2 hfile

/-! ## Writes that fail on the way -/

/-- A name of `n` bytes. -/
def nameOfSize (n : Nat) : String := String.ofList (List.replicate n 'a')

theorem utf8ByteSize_nameOfSize (n : Nat) : (nameOfSize n).utf8ByteSize = n := by
  rw [nameOfSize]
  induction n with
  | zero => rfl
  | succ n ih =>
    rw [List.replicate_succ, String.ofList_cons, String.utf8ByteSize_append, ih]
    exact Nat.add_comm 1 n

theorem eq_of_mem_nameOfSize {n : Nat} {c : Char} (h : c ∈ (nameOfSize n).toList) : c = 'a' := by
  rw [nameOfSize, String.toList_ofList] at h
  exact List.eq_of_mem_replicate h

theorem isEntryName_nameOfSize {n : Nat} (h : n ≠ 0) : Tree.IsEntryName (nameOfSize n) := by
  have hfirst : 'a' ∈ (nameOfSize n).toList := by
    rw [nameOfSize, String.toList_ofList]
    exact List.mem_replicate.2 ⟨h, rfl⟩
  have hne (s : String) (hs : 'a' ∉ s.toList) : nameOfSize n ≠ s := fun heq => hs (heq ▸ hfirst)
  exact ⟨⟨hne "" (by decide), hne "." (by decide), hne ".." (by decide)⟩,
    fun hslash => absurd (eq_of_mem_nameOfSize hslash) (by decide),
    fun hnul => absurd (eq_of_mem_nameOfSize hnul) (by decide)⟩

theorem text_concat {above : Route} (h : above ≠ []) {folder : String}
    (hfolder : above.text ++ "/" = folder) (name : String) :
    Route.text (above ++ [name]) = folder ++ name := by
  have hname : Route.text [name] = name := by simp [Route.text, joinWith]
  rw [Route.text_append h (List.cons_ne_nil _ _), hname, hfolder]

theorem locate_overlong : nestedNotes.locate ("new/" ++ nameOfSize 256) =
    .ok ["new", nameOfSize 256] := by
  have htext : Route.text (["new"] ++ [nameOfSize 256]) = "new/" ++ nameOfSize 256 :=
    text_concat (List.cons_ne_nil _ _) (by decide) _
  rw [← htext]
  refine locate_text (List.cons_ne_nil _ _) (List.forall_mem_cons.2 ⟨by decide, ?_⟩)
  exact List.forall_mem_singleton.2 ⟨isEntryName_nameOfSize (by decide),
    fun hback => absurd (eq_of_mem_nameOfSize hback) (by decide)⟩

theorem fits_overlong : Route.fits (["vault", "new"] ++ [nameOfSize 256]) = true := by
  have htext : Route.text (["vault", "new"] ++ [nameOfSize 256]) =
      "vault/new/" ++ nameOfSize 256 := text_concat (List.cons_ne_nil _ _) (by decide) _
  rw [Route.fits, htext]
  simp only [String.utf8ByteSize_append, utf8ByteSize_nameOfSize]
  decide

theorem takes_overlong : nestedNotes.takes (nameOfSize 256) = false := by
  have hne : nameOfSize 256 ≠ "vault" := by
    intro heq
    have hsize := utf8ByteSize_nameOfSize 256
    rw [heq] at hsize
    exact absurd hsize (by decide)
  simpa [takes, nestedNotes, Tree.isShort, utf8ByteSize_nameOfSize, Tree.nameLimit] using hne

/-- The missing folder is made before the name in it is found too long. -/
theorem write_new {name : String}
    (hlocate : nestedNotes.locate ("new/" ++ name) = .ok ["new", name])
    (hfits : Route.fits (["vault", "new"] ++ [name]) = true)
    (htakes : nestedNotes.takes name = false) :
    ∃ tree, nestedNotes.write ("new/" ++ name) "x" = (.error .system, { nestedNotes with tree }) ∧
      tree.standing ["vault", "new"] = .folder := by
  have hmade : (nestedNotes.tree.makeFolders nestedNotes.takes ["vault", "new"]).1 = .ok () := rfl
  have hopen := Tree.openFile_of_untaken nestedNotes.stamp hfits hmade rfl htakes
  have hroute : nestedNotes.root ++ ["new", name] = ["vault", "new"] ++ [name] := rfl
  refine ⟨(nestedNotes.tree.makeFolders nestedNotes.takes ["vault", "new"]).2, ?_, rfl⟩
  simp only [write, hlocate, hroute, hopen]

/-- A write under a name that is too long leaves a folder, and one of no text leaves an empty file:
neither path leads out of the vault, to a folder or below a file. -/
theorem write_leaves :
    (∃ d', nestedNotes.write ("new/" ++ nameOfSize 256) "x" = (.error .system, d') ∧
      (∀ f, ¬ nestedNotes.Unwritable ("new/" ++ nameOfSize 256) f) ∧
      nestedNotes.tree.standing ["vault", "new"] = .nothing ∧
      d'.tree.standing ["vault", "new"] = .folder) ∧
    ∃ d', nestedNotes.write "a.md" half = (.error .unencodable, d') ∧
      (∀ f, ¬ nestedNotes.Unwritable "a.md" f) ∧
      nestedNotes.tree.standing ["vault", "a.md"] = .file ⟨"a".toUTF8, .zero false⟩ ∧
      d'.tree.standing ["vault", "a.md"] = .file ⟨.empty, .zero false⟩ := by
  have hplain : nestedNotes.locate "a.md" = .ok ["a.md"] :=
    ((nestedNotes.resolves_follow _).inside _).2 (by decide +kernel)
  have hlong := not_unwritable ⟨.empty, .zero false⟩ locate_overlong nofun
  have hhalf := not_unwritable ⟨.empty, .zero false⟩ hplain nofun
  obtain ⟨tree, hwrite, hfolder⟩ := write_new locate_overlong fits_overlong takes_overlong
  obtain ⟨tree', hwrite', hfile⟩ : ∃ tree, nestedNotes.write "a.md" half =
      (.error .unencodable, { nestedNotes with tree }) ∧
      tree.standing ["vault", "a.md"] = .file ⟨.empty, .zero false⟩ := by
    rw [write, hplain]
    exact ⟨_, rfl, rfl⟩
  exact ⟨⟨_, hwrite, hlong, rfl, hfolder⟩, _, hwrite', hhalf, rfl, hfile⟩

end Disk

end MarkdownVault
