import Mathlib.Data.List.Induction
import Mathlib.Data.List.TakeWhile
import MarkdownVault.Graph.Resolution
import MarkdownVault.Proofs.Lookup
import MarkdownVault.Proofs.Text.LetterCase
import MarkdownVault.Proofs.Vault.Path

/-!
# What a link target names

Every path overwrites what stood under its four names, so a name belongs to the last path that goes
by it. A target is looked up under three spellings, and the first one that any path goes by decides.
Names without a slash never stand in the way of a path with one.
-/

namespace MarkdownVault

namespace LinkIndex

variable {paths : List String} {name path target : String}

/-! ## Names of paths -/

/-- A path goes by its stem, its file name, itself without the extension of notes, and itself, all
in lower case. -/
def GoesBy (path name : String) : Prop := name ∈ namesOf (Path.normalize path)

instance (path name : String) : Decidable (GoesBy path name) :=
  inferInstanceAs (Decidable (_ ∈ namesOf _))

/-- The last of some paths that goes by a name, normalized. -/
def LastNamed (paths : List String) (name path : String) : Prop :=
  ∃ before q after, paths = before ++ q :: after ∧ GoesBy q name ∧
    (∀ r ∈ after, ¬GoesBy r name) ∧ path = Path.normalize q

theorem not_lastNamed_nil : ¬LastNamed [] name path := by
  rintro ⟨before, q, after, hpaths, -⟩
  simp at hpaths

/-- One more path takes over its names and leaves all others as they were. -/
theorem lastNamed_concat_iff {q : String} : LastNamed (paths ++ [q]) name path ↔
    GoesBy q name ∧ path = Path.normalize q ∨ ¬GoesBy q name ∧ LastNamed paths name path := by
  constructor
  · rintro ⟨before, r, after, hpaths, hr, hafter, hpath⟩
    rcases List.eq_nil_or_concat after with rfl | ⟨rest, x, rfl⟩
    · obtain ⟨-, hlast⟩ := List.append_inj' hpaths (by simp)
      obtain rfl := List.singleton_inj.1 hlast
      exact .inl ⟨hr, hpath⟩
    · rw [List.concat_eq_append, ← List.cons_append, ← List.append_assoc] at hpaths
      obtain ⟨rfl, hlast⟩ := List.append_inj' hpaths (by simp)
      obtain rfl := List.singleton_inj.1 hlast
      exact .inr ⟨hafter q (by simp), before, r, rest, rfl, hr,
        fun s hs => hafter s (by simp [hs]), hpath⟩
  · rintro (⟨hq, hpath⟩ | ⟨hq, before, r, after, rfl, hr, hafter, hpath⟩)
    · exact ⟨paths, q, [], rfl, hq, by simp, hpath⟩
    · refine ⟨before, r, after ++ [q], by simp, hr, ?_, hpath⟩
      simpa [or_imp, forall_and] using ⟨hafter, hq⟩

/-! ## Looking up names -/

/-- Indexing one more path overwrites its names. -/
theorem find?_concat (paths : List String) (q name : String) :
    (ofPaths (paths ++ [q])).find? name =
      if GoesBy q name then some (Path.normalize q) else (ofPaths paths).find? name := by
  have hentries : (ofPaths (paths ++ [q])).entries =
      (ofPaths paths).entries ++ (namesOf (Path.normalize q)).map (·, Path.normalize q) := by
    simp [ofPaths]
  rw [find?, hentries, List.reverse_append, List.lookup_append, ← List.map_reverse,
    lookup_map_key]
  by_cases hq : GoesBy q name
  · rw [if_pos hq, if_pos (List.mem_reverse.2 hq), Option.some_or]
  · rw [if_neg hq, if_neg (mt List.mem_reverse.1 hq), Option.none_or, find?]

/-- A name belongs to the last path that goes by it. -/
theorem find?_eq_some_iff_lastNamed :
    (ofPaths paths).find? name = some path ↔ LastNamed paths name path := by
  induction paths using List.reverseRecOn with
  | nil => exact iff_of_false nofun not_lastNamed_nil
  | append_singleton paths q ih =>
    rw [find?_concat, lastNamed_concat_iff, ← ih]
    by_cases hq : GoesBy q name
    · simp [hq, eq_comm]
    · simp [hq]

theorem find?_eq_none_iff : (ofPaths paths).find? name = none ↔ ∀ p ∈ paths, ¬GoesBy p name := by
  induction paths using List.reverseRecOn with
  | nil => exact iff_of_true rfl (by simp)
  | append_singleton paths q ih =>
    rw [find?_concat]
    by_cases hq : GoesBy q name
    · rw [if_pos hq]
      exact iff_of_false nofun fun h => h q (by simp) hq
    · rw [if_neg hq, ih]
      simp [or_imp, forall_and, hq]

/-! ## Looking up targets -/

/-- A target means the last path that goes by the first of its spellings that any path goes by. -/
def Means (paths : List String) (target path : String) : Prop :=
  targetName target ≠ "" ∧ ∃ before name after,
    candidates (targetName target) = before ++ name :: after ∧
      (∀ n ∈ before, ∀ p ∈ paths, ¬GoesBy p n) ∧ LastNamed paths name path

section Resolve

variable (hpaths : ∀ p ∈ paths, Path.normalize p ≠ "")
include hpaths

theorem resolve_of_targetName_ne (h : targetName target ≠ "") :
    (ofPaths paths).resolve target =
      (candidates (targetName target)).findSome? (ofPaths paths).find? := by
  have hfind : ∀ name, ((ofPaths paths).find? name).filter (!·.isEmpty) =
      (ofPaths paths).find? name := by
    intro name
    cases hpath : (ofPaths paths).find? name with
    | none => rfl
    | some path =>
      obtain ⟨before, q, after, rfl, -, -, rfl⟩ := find?_eq_some_iff_lastNamed.1 hpath
      simpa using hpaths q (by simp)
  simp only [resolve, hfind, String.isEmpty_iff, h, if_false]

theorem resolve_eq_some_iff_means :
    (ofPaths paths).resolve target = some path ↔ Means paths target path := by
  by_cases h : targetName target = ""
  · exact iff_of_false (by simp [resolve, h]) fun hmeans => hmeans.1 h
  · simp only [resolve_of_targetName_ne hpaths h, List.findSome?_eq_some_iff, Means, h, true_and,
      ne_eq, not_false_eq_true, find?_eq_some_iff_lastNamed, find?_eq_none_iff]
    exact exists_congr fun before => exists_congr fun name => exists_congr fun after => by
      rw [and_comm (a := LastNamed _ _ _)]

theorem resolve_eq_none_iff_unnamed :
    (ofPaths paths).resolve target = none ↔ targetName target = "" ∨
      ∀ name ∈ candidates (targetName target), ∀ p ∈ paths, ¬GoesBy p name := by
  by_cases h : targetName target = ""
  · exact iff_of_true (by simp [resolve, h]) (.inl h)
  · simp only [resolve_of_targetName_ne hpaths h, List.findSome?_eq_none_iff, h, false_or,
      find?_eq_none_iff]

end Resolve

/-! ## Paths as targets -/

theorem dropNoteExtension_append (r : String) : dropNoteExtension (r ++ Path.noteExtension) = r := by
  have hends : endsWith (r ++ Path.noteExtension) Path.noteExtension := by
    simp [endsWith, List.isSuffixOf_iff_suffix]
  rw [dropNoteExtension, if_pos hends, mapChars]
  simp [← String.length_toList]

/-- What is left without the extension of notes, if it is there. -/
theorem eq_dropNoteExtension_append {s : String} (h : endsWith s Path.noteExtension) :
    s = dropNoteExtension s ++ Path.noteExtension := by
  obtain ⟨front, hfront⟩ := List.isSuffixOf_iff_suffix.1 h
  have hs : s = String.ofList front ++ Path.noteExtension := by
    rw [← String.toList_inj]
    simp [hfront]
  rw [hs, dropNoteExtension_append]

theorem slash_notMem_basename (path : String) : '/' ∉ (Path.basename path).toList := by
  rw [Path.basename, toList_mapChars, Path.splitLast, List.mem_reverse]
  intro h
  simpa using List.all_eq_true.1 List.all_takeWhile '/' h

theorem slash_notMem_stem (path : String) : '/' ∉ (Path.stem path).toList := by
  have hsub : ∀ cs : List Char, (Path.splitName cs).1 ⊆ cs := by
    intro cs
    rw [Path.splitName]
    split
    · intro c hc
      rw [← List.takeWhile_append_dropWhile (p := (· == '.')) (l := cs)]
      exact List.append_subset.2 ⟨List.subset_append_left _ _,
        List.Subset.trans (List.take_subset _ _) (List.subset_append_right _ _)⟩ hc
    · exact fun _ hc => hc
  rw [Path.stem, Path.stemOf, toList_mapChars]
  exact fun h => slash_notMem_basename _ (hsub _ h)

/-- Among some paths no other one is the same but for letter case, nor is it such a path with the
extension of notes behind. -/
def StandsAlone (paths : List String) (path : String) : Prop :=
  ∀ q ∈ paths, Path.normalize q ≠ path → lower (Path.normalize q) ≠ lower path ∧
    ∀ r, lower r = lower path → Path.normalize q ≠ r ++ Path.noteExtension

theorem standsAlone_iff : StandsAlone paths path ↔ ∀ q ∈ paths, Path.normalize q ≠ path →
    lower (Path.normalize q) ≠ lower path ∧ (endsWith (Path.normalize q) Path.noteExtension →
      lower (dropNoteExtension (Path.normalize q)) ≠ lower path) := by
  refine forall₂_congr fun q _ => forall_congr' fun _ => and_congr_right fun _ => ?_
  constructor
  · exact fun h hends hcase => h _ hcase (eq_dropNoteExtension_append hends)
  · intro h r hcase hq
    rw [hq, dropNoteExtension_append] at h
    exact h (by simp [endsWith, List.isSuffixOf_iff_suffix]) hcase

instance : Decidable (StandsAlone paths path) := decidable_of_iff _ standsAlone_iff.symm

/-- Only itself goes by the full name of a path that has a slash and stands alone. -/
theorem StandsAlone.eq_of_goesBy (h : StandsAlone paths path) (hslash : '/' ∈ path.toList)
    {q : String} (hq : q ∈ paths) (hname : GoesBy q (lower path)) : Path.normalize q = path := by
  by_contra hne
  obtain ⟨hcase, hextension⟩ := standsAlone_iff.1 h q hq hne
  simp only [GoesBy, namesOf, List.map_cons, List.map_nil, List.mem_cons, List.not_mem_nil,
    or_false] at hname
  rw [← slash_mem_lower] at hslash
  rcases hname with hstem | hbase | hdropped | hfull
  · exact slash_notMem_stem _ (slash_mem_lower.1 (hstem ▸ hslash))
  · exact slash_notMem_basename _ (slash_mem_lower.1 (hbase ▸ hslash))
  · by_cases hends : endsWith (Path.normalize q) Path.noteExtension
    · exact hextension hends hdropped.symm
    · rw [dropNoteExtension, if_neg hends] at hdropped
      exact hcase hdropped.symm
  · exact hcase hfull.symm

theorem targetName_eq_self (hhash : '#' ∉ path.toList) (htrim : trim path = path) :
    targetName path = path := by
  have hwhole : path.toList.takeWhile (· != '#') = path.toList := by
    rw [List.takeWhile_eq_self_iff]
    intro c hc
    have hne : c ≠ '#' := fun heq => hhash (heq ▸ hc)
    simpa using hne
  rw [targetName, mapChars, hwhole]
  exact htrim

/-- The full name of a path is the first spelling that it is looked up under. -/
theorem StandsAlone.means_self (h : StandsAlone paths path) (hmem : path ∈ paths)
    (hnormal : Path.normalize path = path) (hslash : '/' ∈ path.toList) (hhash : '#' ∉ path.toList)
    (htrim : trim path = path) : Means paths path path := by
  have hname := targetName_eq_self hhash htrim
  have hself : GoesBy path (lower path) := by simp [GoesBy, namesOf, hnormal]
  cases hfind : (ofPaths paths).find? (lower path) with
  | none => exact absurd hself (find?_eq_none_iff.1 hfind path hmem)
  | some other =>
    obtain ⟨before, q, after, rfl, hq, hafter, rfl⟩ := find?_eq_some_iff_lastNamed.1 hfind
    have heq := h.eq_of_goesBy hslash (by simp) hq
    refine ⟨?_, [], lower path, _, by rw [hname, candidates, hnormal]; rfl, by simp, ?_⟩
    · rw [hname]
      rintro rfl
      cases hslash
    · exact ⟨before, q, after, rfl, hq, hafter, heq.symm⟩

/-- A target resolves to the last path that goes by the first of its spellings that any path goes
by, and to nothing if there is no such path or if it names nothing but a heading. A path with a
slash that stands alone resolves to itself. Letter case is compared before the extension of notes,
since a capital sigma has another lower form at the end than in front of it. -/
theorem resolve_means (hpaths : ∀ p ∈ paths, Path.normalize p ≠ "") :
    (∀ target path, (ofPaths paths).resolve target = some path ↔ Means paths target path) ∧
    (∀ target, (ofPaths paths).resolve target = none ↔ targetName target = "" ∨
      ∀ name ∈ candidates (targetName target), ∀ p ∈ paths, ¬GoesBy p name) ∧
    ∀ path ∈ paths, Path.normalize path = path → '/' ∈ path.toList → '#' ∉ path.toList →
      trim path = path → StandsAlone paths path → (ofPaths paths).resolve path = some path := by
  refine ⟨fun _ _ => resolve_eq_some_iff_means hpaths,
    fun _ => resolve_eq_none_iff_unnamed hpaths, ?_⟩
  intro path hmem hnormal hslash hhash htrim halone
  rw [resolve_eq_some_iff_means hpaths]
  exact halone.means_self hmem hnormal hslash hhash htrim

/-- Notes that share a name, one of them as a folder of another. -/
def sharedNames : List String := ["a/Note.md", "\\b\\note.md", "note/note.MD", "c/plan"]

theorem resolve_means_sharedNames :
    (∀ p ∈ sharedNames, Path.normalize p ≠ "") ∧
      Means sharedNames " NOTE #part" "note/note.MD" ∧ Means sharedNames "x/plan" "c/plan" ∧
      (ofPaths sharedNames).resolve "#part" = none ∧
      (ofPaths sharedNames).resolve "a/Note.md" = some "a/Note.md" := by
  have hpaths : ∀ p ∈ sharedNames, Path.normalize p ≠ "" := by decide +kernel
  obtain ⟨hsome, hnone, hself⟩ := resolve_means hpaths
  refine ⟨hpaths, (hsome _ _).1 (by decide +kernel), (hsome _ _).1 (by decide +kernel),
    (hnone _).2 (.inl (by decide +kernel)), ?_⟩
  exact hself "a/Note.md" (by decide +kernel) (by decide +kernel) (by decide +kernel)
    (by decide +kernel) (by decide +kernel) (by decide +kernel)

/-- A path is not safe from one that is the same but for a slash in front and letter case. -/
theorem resolve_overwritten :
    ¬∀ (paths : List String) (path : String), (∀ p ∈ paths, Path.normalize p ≠ "") →
      path ∈ paths → Path.normalize path = path → '/' ∈ path.toList → '#' ∉ path.toList →
      trim path = path →
      (∀ q ∈ paths, q ≠ path →
        lower q ≠ lower path ∧ lower q ≠ lower (path ++ Path.noteExtension)) →
      (ofPaths paths).resolve path = some path := by
  intro h
  have hself := h ["x/a", "/x/A"] "x/a" (by decide +kernel) (by decide +kernel) (by decide +kernel)
    (by decide +kernel) (by decide +kernel) (by decide +kernel) (by decide +kernel)
  have hother : (ofPaths ["x/a", "/x/A"]).resolve "x/a" = some "x/A" := by decide +kernel
  rw [hother] at hself
  exact absurd hself (by decide)

end LinkIndex

end MarkdownVault
