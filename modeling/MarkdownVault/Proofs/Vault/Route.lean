import Mathlib.Logic.Relation
import MarkdownVault.Vault.Route

/-!
# Lexical normalization

The parts of a path shorten step by step: a part that leads nowhere goes, and two dots go together
with the name in front of them, or alone at the top. Where a path is followed to is the one route
to which its parts shorten and which shortens no further, in whatever order the steps are taken.
The text of a route, on the other hand, has just the names of the route between its slashes.
-/

namespace MarkdownVault

namespace Route

/-- Everything between the slashes of a path, empty parts as well. -/
def pieces (path : String) : List String := (path.toList.splitOn '/').map String.ofList

/-- A part that stands for a file or a folder in the folder before it. -/
def IsName (part : String) : Prop := part ≠ "" ∧ part ≠ "." ∧ part ≠ ".."

instance (part : String) : Decidable (IsName part) := inferInstanceAs (Decidable (_ ∧ _ ∧ _))

/-- One step of normalization, anywhere in the parts of a path from the top. -/
inductive Shortens : List String → List String → Prop where
  | empty (before after : List String) : Shortens (before ++ "" :: after) (before ++ after)
  | dot (before after : List String) : Shortens (before ++ "." :: after) (before ++ after)
  | back (before : List String) {name : String} (after : List String) (h : IsName name) :
    Shortens (before ++ name :: ".." :: after) (before ++ after)
  | top (after : List String) : Shortens (".." :: after) after

/-- A route that comes of the parts of a path by normalization and is normalized itself. -/
structure Normalizes (parts : List String) (route : Route) : Prop where
  steps : Relation.ReflTransGen Shortens parts route
  names : ∀ name ∈ route, IsName name

/-! ## Following part by part -/

/-- One part further; empty parts and single dots stay. -/
def onward (route : Route) (part : String) : Route :=
  if part = "" ∨ part = "." then route else step route part

theorem onward_name {name : String} (h : IsName name) (route : Route) :
    onward route name = route ++ [name] := by
  obtain ⟨hempty, hdot, hback⟩ := h
  simp [onward, step, hempty, hdot, hback]

theorem onward_back (route : Route) : onward route ".." = route.dropLast := by
  simp [onward, step]

theorem follow_eq (start : Route) (path : String) :
    start.follow path = (pieces path).foldl onward start := by
  rw [follow, parts, List.foldl_filter, pieces]
  congr 1
  funext route part
  by_cases hempty : part = ""
  · simp [onward, hempty]
  by_cases hdot : part = "."
  · simp [onward, hdot]
  · simp [onward, hempty, hdot]

theorem mem_onward {route : Route} {part name : String} (h : name ∈ onward route part) :
    name ∈ route ∨ name = part := by
  rw [onward, step] at h
  split at h
  · exact .inl h
  · split at h
    · exact .inl (List.dropLast_subset route h)
    · simpa using h

/-- A path leads to names of the start and of the path. -/
theorem mem_follow {start : Route} {path name : String} (h : name ∈ start.follow path) :
    name ∈ start ∨ name ∈ pieces path := by
  rw [follow_eq] at h
  generalize pieces path = parts at h ⊢
  induction parts generalizing start with
  | nil => exact .inl h
  | cons part rest ih =>
    rcases ih h with hstart | hrest
    · exact (mem_onward hstart).imp_right fun (heq : name = part) => heq ▸ List.mem_cons_self
    · exact .inr (List.mem_cons_of_mem part hrest)

/-- Names are followed to themselves. -/
theorem foldl_onward_names {names : Route} (h : ∀ name ∈ names, IsName name) (route : Route) :
    names.foldl onward route = route ++ names := by
  induction names generalizing route with
  | nil => simp
  | cons name names ih =>
    obtain ⟨hname, hnames⟩ := List.forall_mem_cons.1 h
    rw [List.foldl_cons, onward_name hname, ih hnames, List.append_assoc, List.singleton_append]

/-! ## Normalizing -/

/-- No step of normalization changes where the parts lead. -/
theorem Shortens.foldl_onward {parts rest : List String} (h : Shortens parts rest) :
    parts.foldl onward [] = rest.foldl onward [] := by
  cases h with
  | empty before after => simp [onward]
  | dot before after => simp [onward]
  | back before after hname => simp [onward_name hname, onward_back]
  | top after => simp [onward_back]

/-- The part behind names that were left standing either stays there as one more name or shortens
the row of parts. -/
theorem reaches_onward {route : Route} (h : ∀ name ∈ route, IsName name) (part : String)
    (rest : List String) :
    Relation.ReflTransGen Shortens (route ++ part :: rest) (onward route part ++ rest) ∧
      ∀ name ∈ onward route part, IsName name := by
  by_cases hempty : part = ""
  · subst hempty
    exact ⟨.single (.empty route rest), h⟩
  by_cases hdot : part = "."
  · subst hdot
    exact ⟨.single (.dot route rest), h⟩
  by_cases hback : part = ".."
  · subst hback
    rw [onward_back]
    refine ⟨?_, fun name hname => h name (List.dropLast_subset route hname)⟩
    rcases route.eq_nil_or_concat with rfl | ⟨before, last, rfl⟩
    · exact .single (.top rest)
    · simpa using Relation.ReflTransGen.single
        (Shortens.back before rest (h last (by simp)))
  · have hname : IsName part := ⟨hempty, hdot, hback⟩
    rw [onward_name hname, List.append_assoc, List.singleton_append]
    refine ⟨.refl, fun name hmem => ?_⟩
    rcases List.mem_append.1 hmem with hmem | hmem
    · exact h name hmem
    · exact List.mem_singleton.1 hmem ▸ hname

theorem normalizes_foldl_onward {route : Route} (h : ∀ name ∈ route, IsName name)
    (parts : List String) :
    Relation.ReflTransGen Shortens (route ++ parts) (parts.foldl onward route) ∧
      ∀ name ∈ parts.foldl onward route, IsName name := by
  induction parts generalizing route with
  | nil => exact ⟨by simpa using .refl, h⟩
  | cons part rest ih =>
    obtain ⟨hstep, hnames⟩ := reaches_onward h part rest
    exact ⟨hstep.trans (ih hnames).1, (ih hnames).2⟩

/-- Parts have exactly one normal form, the route that they lead to from the top. -/
theorem normalizes_iff {parts : List String} {route : Route} :
    Normalizes parts route ↔ route = parts.foldl onward [] := by
  constructor
  · rintro ⟨hsteps, hnames⟩
    have hsame : parts.foldl onward [] = route.foldl onward [] := by
      induction hsteps using Relation.ReflTransGen.head_induction_on with
      | refl => rfl
      | head hstep _ ih => exact hstep.foldl_onward.trans ih
    rw [hsame, foldl_onward_names hnames, List.nil_append]
  · rintro rfl
    have hnil : ∀ name ∈ ([] : Route), IsName name := fun _ hname => nomatch hname
    obtain ⟨hsteps, hnames⟩ := normalizes_foldl_onward hnil parts
    exact ⟨hsteps, hnames⟩

/-- A path is followed from a folder to the normal form of the folder's route with the parts of the
path behind it. -/
theorem normalizes_follow {start : Route} (h : ∀ name ∈ start, IsName name) (path : String)
    (route : Route) : Normalizes (start ++ pieces path) route ↔ route = start.follow path := by
  rw [normalizes_iff, List.foldl_append, foldl_onward_names h, List.nil_append, follow_eq]

/-! ## Texts of routes -/

theorem text_pieces (path : String) : text (pieces path) = path := by
  have hchars : (pieces path).map String.toList = path.toList.splitOn '/' := by
    simp [pieces, Function.comp_def]
  rw [text, joinWith, hchars]
  exact (congrArg String.ofList (List.intercalate_splitOn '/')).trans String.ofList_toList

theorem pieces_text {route : Route} (hne : route ≠ []) (h : ∀ name ∈ route, '/' ∉ name.toList) :
    pieces (text route) = route := by
  have hsplit : (text route).toList.splitOn '/' = route.map String.toList := by
    rw [text, toList_joinWith]
    exact List.splitOn_intercalate '/' (by simpa using h) (by simpa using hne)
  rw [pieces, hsplit, List.map_map]
  simp [Function.comp_def]

/-- The characters of a path stand in its pieces, all but the slashes. -/
theorem exists_mem_pieces_iff {path : String} {c : Char} :
    (∃ part ∈ pieces path, c ∈ part.toList) ↔ c ∈ path.toList ∧ c ≠ '/' := by
  have hsplit (cs : List Char) : (∃ part ∈ cs.splitOn '/', c ∈ part) ↔ c ∈ cs ∧ c ≠ '/' := by
    induction cs with
    | nil => simp
    | cons d cs ih =>
      obtain ⟨first, others, hcs⟩ := List.exists_cons_of_ne_nil (List.splitOn_ne_nil '/' cs)
      simp only [hcs, List.mem_cons, exists_eq_or_imp] at ih
      rw [List.splitOn_cons_eq_if_modifyHead, hcs]
      by_cases hd : d = '/'
      · simp only [hd, beq_self_eq_true, if_true, List.mem_cons, exists_eq_or_imp]
        grind
      · simp only [hd, beq_iff_eq, if_false, List.modifyHead_cons, List.mem_cons, exists_eq_or_imp]
        grind
  rw [← hsplit]
  constructor
  · rintro ⟨_, hpart, hc⟩
    obtain ⟨cs, hcs, rfl⟩ := List.mem_map.1 hpart
    exact ⟨cs, hcs, by simpa using hc⟩
  · rintro ⟨cs, hcs, hc⟩
    exact ⟨String.ofList cs, List.mem_map_of_mem hcs, by simpa using hc⟩

theorem slash_notMem_pieces (path : String) : ∀ name ∈ pieces path, '/' ∉ name.toList :=
  fun name hname hslash => (exists_mem_pieces_iff.1 ⟨name, hname, hslash⟩).2 rfl

theorem pieces_ne_nil (path : String) : pieces path ≠ [] := by
  simp [pieces, List.splitOn_ne_nil]

theorem pieces_slash (folder rest : String) :
    pieces (folder ++ "/" ++ rest) = pieces folder ++ pieces rest := by
  have hchars : (folder ++ "/" ++ rest).toList = folder.toList ++ '/' :: rest.toList := by simp
  rw [pieces, hchars, List.splitOn_append_cons_self, List.map_append, pieces, pieces]

/-- A path without empty parts and single dots has no other parts than those that lead somewhere. -/
theorem parts_eq_pieces {path : String} (h : ∀ part ∈ pieces path, part ≠ "" ∧ part ≠ ".") :
    parts path = pieces path :=
  List.filter_eq_self.2 (by simpa [pieces] using h)

/-- Without two dots a path leads down by its parts. -/
theorem follow_of_notMem {path : String} (h : ".." ∉ parts path) (start : Route) :
    start.follow path = start ++ parts path := by
  rw [follow]
  generalize parts path = names at h
  induction names generalizing start with
  | nil => simp
  | cons name names ih =>
    obtain ⟨hname, hnames⟩ := List.ne_and_not_mem_of_not_mem_cons h
    rw [List.foldl_cons, step, if_neg hname.symm, ih _ hnames, List.append_assoc,
      List.singleton_append]

theorem text_append {above below : Route} (habove : above ≠ []) (hbelow : below ≠ []) :
    text (above ++ below) = text above ++ "/" ++ text below := by
  obtain ⟨k, below, rfl⟩ := List.exists_cons_of_ne_nil hbelow
  induction above with
  | nil => exact absurd rfl habove
  | cons name above ih =>
    cases above with
    | nil =>
      rw [List.singleton_append, text, joinWith_cons_cons]
      simp [text, joinWith]
    | cons next above =>
      have hnext := ih (List.cons_ne_nil next above)
      simp only [text, List.cons_append, joinWith_cons_cons] at hnext ⊢
      rw [hnext]
      simp only [String.append_assoc]

theorem text_inj {route other : Route} (hroute : route ≠ []) (hother : other ≠ [])
    (h : ∀ name ∈ route, '/' ∉ name.toList) (h' : ∀ name ∈ other, '/' ∉ name.toList) :
    text route = text other ↔ route = other := by
  refine ⟨fun htext => ?_, congrArg text⟩
  rw [← pieces_text hroute h, htext, pieces_text hother h']

/-- A path is one below a folder if the folder's names and others are its own. -/
theorem startsWith_folder_iff {path folder : String} : startsWith path (folder ++ "/") ↔
    ∃ below, below ≠ [] ∧ pieces path = pieces folder ++ below := by
  rw [startsWith, List.isPrefixOf_iff_prefix]
  constructor
  · rintro ⟨rest, hrest⟩
    have hpath : path = folder ++ "/" ++ String.ofList rest :=
      String.toList_inj.1 (by rw [← hrest]; simp)
    exact ⟨pieces (String.ofList rest), pieces_ne_nil _, by rw [hpath, pieces_slash]⟩
  · rintro ⟨below, hbelow, hpieces⟩
    have htext := text_append (pieces_ne_nil folder) hbelow
    rw [← hpieces, text_pieces, text_pieces] at htext
    exact ⟨(text below).toList, by simp [htext]⟩

end Route

end MarkdownVault
