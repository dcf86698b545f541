import MarkdownVault.Vault.Route
import MarkdownVault.Proofs.Text.Cutting

/-!
# Normalized paths

A normalized path starts with no slash and has no backslash, and such a path stays as it is. All
other characters are those of the path that was given. The folder of such a path is what stands
before its name, so the path begins with another folder and a slash if its own folder is that one or
below it.
-/

namespace MarkdownVault

namespace Path

theorem normalize_eq_self {path : String} (hslash : path.toList.head? ≠ some '/')
    (hback : '\\' ∉ path.toList) : normalize path = path := by
  have hreplace : Text.replaceChar '\\' '/' path.toList = path.toList := by
    refine (List.map_congr_left fun c hc => ?_).trans (List.map_id _)
    have hne : c ≠ '\\' := fun heq => hback (heq ▸ hc)
    simp [hne]
  have hdrop : path.toList.dropWhile (· == '/') = path.toList := by
    cases hcs : path.toList with
    | nil => rfl
    | cons c cs =>
      have hc : c ≠ '/' := fun heq => hslash (by simp [hcs, heq])
      simp [hc]
  rw [normalize, mapChars, hreplace, hdrop, String.ofList_toList]

theorem head?_normalize (path : String) : (normalize path).toList.head? ≠ some '/' := by
  rw [normalize, toList_mapChars]
  intro hhead
  have hkept := List.head?_dropWhile_not (· == '/') (Text.replaceChar '\\' '/' path.toList)
  rw [hhead] at hkept
  cases hkept

theorem backslash_notMem_normalize (path : String) : '\\' ∉ (normalize path).toList := by
  rw [normalize, toList_mapChars]
  intro hmem
  obtain ⟨c, -, hc⟩ := List.mem_map.1 ((List.dropWhile_sublist _).subset hmem)
  split at hc
  · cases hc
  case isFalse hne => exact hne hc

theorem normalize_normalize (path : String) : normalize (normalize path) = normalize path :=
  normalize_eq_self (head?_normalize path) (backslash_notMem_normalize path)

/-- Only slashes and backslashes come or go. -/
theorem mem_normalize {c : Char} (hslash : c ≠ '/') (hback : c ≠ '\\') (path : String) :
    c ∈ (normalize path).toList ↔ c ∈ path.toList := by
  have hreplace : c ∈ Text.replaceChar '\\' '/' path.toList ↔ c ∈ path.toList := by
    rw [Text.replaceChar, List.mem_map]
    constructor
    · rintro ⟨b, hb, h⟩
      split at h
      · exact absurd h.symm hslash
      · exact h ▸ hb
    · exact fun h => ⟨c, h, if_neg hback⟩
  rw [normalize, toList_mapChars, ← hreplace]
  refine ⟨fun h => (List.dropWhile_sublist _).subset h, fun h => ?_⟩
  rw [← List.takeWhile_append_dropWhile (p := (· == '/')) (l := Text.replaceChar _ _ _)] at h
  rcases List.mem_append.1 h with h | h
  · have hall := List.all_eq_true.1 List.all_takeWhile c h
    exact absurd (eq_of_beq hall) hslash
  · exact h

/-! ## Folders -/

/-- The text up to the last slash, and the name behind it. -/
theorem splitLast_eq (cs : List Char) :
    splitLast cs = (cs.rdropWhile (· != '/'), cs.rtakeWhile (· != '/')) := by
  have hlength := congrArg List.length
    (List.rdropWhile_append_rtakeWhile (p := (· != '/')) (l := cs))
  rw [List.length_append] at hlength
  have htake : cs.take (cs.length - (cs.rtakeWhile (· != '/')).length) =
      cs.rdropWhile (· != '/') := by
    rw [← hlength, Nat.add_sub_cancel]
    exact (List.prefix_iff_eq_take.1 (List.rdropWhile_prefix _ cs)).symm
  exact congrArg (·, _) htake

theorem getLast?_rdropWhile_ne {c : Char} (cs : List Char) :
    (cs.rdropWhile (· == c)).getLast? ≠ some c := by
  intro h
  obtain ⟨front, hfront⟩ := List.getLast?_eq_some_iff.1 h
  have hne : cs.rdropWhile (· == c) ≠ [] := by simp [hfront]
  have hlast := List.rdropWhile_last_not (· == c) cs hne
  simp [hfront] at hlast

/-- A path that starts with no slash is its folder, slashes and its name. -/
theorem exists_dirname {path : String} (hpath : path.toList.head? ≠ some '/') :
    ∃ slashes name, path.toList = (dirname path).toList ++ slashes ++ name ∧ '/' ∉ name ∧
      (∀ c ∈ slashes, c = '/') ∧ (slashes = [] → dirname path = "") ∧
      (dirname path).toList.getLast? ≠ some '/' := by
  have hsplit : path.toList.rdropWhile (· != '/') ++ path.toList.rtakeWhile (· != '/') =
      path.toList := List.rdropWhile_append_rtakeWhile
  have hname : '/' ∉ path.toList.rtakeWhile (· != '/') := fun h => by
    simpa using List.mem_rtakeWhile_imp h
  have hlast (c : Char) (front : List Char)
      (h : path.toList.rdropWhile (· != '/') = front ++ [c]) : c = '/' := by
    have hne : path.toList.rdropWhile (· != '/') ≠ [] := by simp [h]
    simpa [h] using List.rdropWhile_last_not (· != '/') path.toList hne
  have hdirname : (dirname path).toList =
      if (path.toList.rdropWhile (· != '/')).all (· == '/') then path.toList.rdropWhile (· != '/')
      else (path.toList.rdropWhile (· != '/')).rdropWhile (· == '/') := by
    rw [dirname, toList_mapChars, splitLast_eq]
    rfl
  generalize path.toList.rdropWhile (· != '/') = head at hsplit hlast hdirname
  generalize path.toList.rtakeWhile (· != '/') = name at hsplit hname
  rcases List.eq_nil_or_concat' head with rfl | ⟨front, c, rfl⟩
  · have hempty : dirname path = "" := String.toList_eq_nil_iff.1 hdirname
    exact ⟨[], name, by rw [hempty, ← hsplit]; rfl, hname, nofun, fun _ => hempty, by simp [hempty]⟩
  · obtain rfl := hlast c front rfl
    have hall : (front ++ ['/']).all (· == '/') = false := by
      rw [← hsplit] at hpath
      cases front with
      | nil => exact absurd rfl hpath
      | cons d ds =>
        have hd : d ≠ '/' := fun heq => hpath (congrArg some heq)
        simp [hd]
    rw [hall, if_neg Bool.false_ne_true] at hdirname
    refine ⟨(front ++ ['/']).rtakeWhile (· == '/'), name, ?_, hname, ?_, ?_, ?_⟩
    · rw [hdirname, List.rdropWhile_append_rtakeWhile, hsplit]
    · exact fun c hc => by simpa using List.mem_rtakeWhile_imp hc
    · intro h
      simp [List.rtakeWhile_concat_pos] at h
    · rw [hdirname]
      exact getLast?_rdropWhile_ne _

/-- A path is below a folder if its own folder is this one or below it. -/
theorem startsWith_iff_dirname {path folder : String} (hpath : path.toList.head? ≠ some '/')
    (hne : folder ≠ "") (hlast : folder.toList.getLast? ≠ some '/') :
    startsWith path (folder ++ "/") ↔
      dirname path = folder ∨ startsWith (dirname path) (folder ++ "/") := by
  obtain ⟨slashes, name, hsplit, hname, hslashes, hempty, hdirname⟩ := exists_dirname hpath
  have hmark : (folder ++ "/").toList = folder.toList ++ ['/'] := by simp
  rw [startsWith, startsWith, List.isPrefixOf_iff_prefix, List.isPrefixOf_iff_prefix, hmark, hsplit,
    Text.concat_prefix_append_iff hname]
  constructor
  · intro h
    rcases Text.prefix_append_cases h with hprefix | ⟨rest, hrest, heq⟩
    · exact .inr hprefix
    · rcases List.eq_nil_or_concat' rest with rfl | ⟨front, c, rfl⟩
      · rw [List.append_nil] at heq
        exact absurd (by rw [← heq, List.getLast?_concat]) hdirname
      · rw [← List.append_assoc] at heq
        have hfolder := (List.append_inj' heq rfl).1
        -- What stands between the two folders is slashes, so there is none.
        rcases List.eq_nil_or_concat' front with rfl | ⟨front, d, rfl⟩
        · exact .inl (String.toList_inj.1 (by rw [hfolder, List.append_nil]))
        · have hd : d = '/' := hslashes d (hrest.subset (by simp))
          rw [hfolder, ← List.append_assoc, List.getLast?_concat, hd] at hlast
          exact absurd rfl hlast
  · rintro (rfl | h)
    · cases slashes with
      | nil => exact absurd (hempty rfl) hne
      | cons c slashes =>
        obtain rfl := hslashes c (by simp)
        exact ⟨slashes, by simp⟩
    · exact h.trans (List.prefix_append _ _)

/-- The folder of a path is what stands before its name, but for the dot that a path may begin
with. -/
theorem folder_eq_dirname {path : String} (hdot : startsWith (normalize path) "./" = false) :
    folder path = dirname (normalize path) := by
  rw [folder]
  refine if_neg fun hdirname => ?_
  obtain ⟨slashes, name, hsplit, -, hslashes, hempty, -⟩ := exists_dirname (head?_normalize path)
  cases slashes with
  | nil => exact absurd (hdirname.symm.trans (hempty rfl)) (by decide)
  | cons c slashes =>
    obtain rfl := hslashes c (by simp)
    rw [hdirname] at hsplit
    simp [startsWith, hsplit] at hdot

end Path

end MarkdownVault
