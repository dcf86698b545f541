import MarkdownVault.Proofs.Vault.Route
import MarkdownVault.Proofs.Vault.Standing
import MarkdownVault.Vault.Disk

/-!
# Files that are opened

A file is opened by steps that do a whole write, unless something is in the way or is too long.
Steps that are refused may leave folders that were missing, and leave all else as it was; if a file
or a folder is in the way they leave nothing.
-/

namespace MarkdownVault

namespace Tree

variable {takes : String → Bool} {data : FileData} {stamp : Binary64} {name : String}
  {root above route below other : Route} {t t' u sub : Tree} {children cs : List (String × Tree)}
  {refusal : Refusal}

/-! ## What is in the way -/

/-- A file stands on the way down a route, or at its end. -/
def Blocked (route : Route) (t : Tree) : Prop :=
  ∃ above old, above <+: route ∧ t.standing above = .file old

/-- Nothing stands under a name of a route, and the file system does not take the name. -/
def Untaken (takes : String → Bool) (route : Route) (t : Tree) : Prop :=
  ∃ above name, above ++ [name] <+: route ∧ t.standing (above ++ [name]) = .nothing ∧
    takes name = false

theorem Blocked.mono (h : t.Blocked route) (hroute : route <+: other) : t.Blocked other := by
  obtain ⟨above, old, habove, hfile⟩ := h
  exact ⟨above, old, habove.trans hroute, hfile⟩

theorem Untaken.mono (h : t.Untaken takes route) (hroute : route <+: other) :
    t.Untaken takes other := by
  obtain ⟨above, name, habove, hnothing, htakes⟩ := h
  exact ⟨above, name, habove.trans hroute, hnothing, htakes⟩

theorem blocked_file (data : FileData) (route : Route) : (file data).Blocked route :=
  ⟨[], data, List.nil_prefix, rfl⟩

theorem not_blocked_nil (children : List (String × Tree)) : ¬ (folder children).Blocked [] := by
  rintro ⟨above, old, habove, hfile⟩
  rw [List.prefix_nil.1 habove] at hfile
  cases hfile

theorem not_untaken_nil (takes : String → Bool) (t : Tree) : ¬ t.Untaken takes [] := by
  rintro ⟨above, name, habove, -⟩
  have hne : above ++ [name] ≠ [] := List.append_ne_nil_of_right_ne_nil above (List.cons_ne_nil _ _)
  exact hne (List.prefix_nil.1 habove)

theorem not_blocked_empty (route : Route) : ¬ (folder []).Blocked route := by
  rintro ⟨above, old, -, hfile⟩
  cases above <;> cases hfile

/-- Below a child that is missing a route goes on as in an empty folder. -/
theorem blocked_cons : (folder children).Blocked (name :: route) ↔
    ((children.lookup name).getD (.folder [])).Blocked route := by
  constructor
  · rintro ⟨above, old, habove, hfile⟩
    cases above with
    | nil => cases hfile
    | cons k above =>
      obtain ⟨rfl, hrest⟩ := List.cons_prefix_cons.1 habove
      rw [standing_cons] at hfile
      cases hlookup : children.lookup k with
      | none =>
        rw [hlookup] at hfile
        cases hfile
      | some u =>
        rw [hlookup] at hfile
        exact ⟨above, old, hrest, hfile⟩
  · intro h
    cases hlookup : children.lookup name with
    | none =>
      rw [hlookup] at h
      exact absurd h (not_blocked_empty route)
    | some u =>
      rw [hlookup] at h
      obtain ⟨above, old, habove, hfile⟩ := h
      refine ⟨name :: above, old, List.cons_prefix_cons.2 ⟨rfl, habove⟩, ?_⟩
      rw [standing_cons, hlookup]
      exact hfile

theorem standing_concat_empty (above : Route) (name : String) :
    (folder []).standing (above ++ [name]) = .nothing := by
  cases above <;> rfl

theorem untaken_cons : (folder children).Untaken takes (name :: route) ↔
    children.lookup name = none ∧ takes name = false ∨
      ((children.lookup name).getD (.folder [])).Untaken takes route := by
  constructor
  · rintro ⟨above, k, habove, hnothing, htakes⟩
    cases above with
    | nil =>
      obtain ⟨rfl, -⟩ := List.cons_prefix_cons.1 habove
      rw [List.nil_append, standing_cons] at hnothing
      cases hlookup : children.lookup k with
      | none => exact .inl ⟨rfl, htakes⟩
      | some u =>
        rw [hlookup] at hnothing
        cases u <;> cases hnothing
    | cons first above =>
      obtain ⟨rfl, hrest⟩ := List.cons_prefix_cons.1 habove
      refine .inr ⟨above, k, hrest, ?_, htakes⟩
      rw [List.cons_append, standing_cons] at hnothing
      cases hlookup : children.lookup first with
      | none => exact standing_concat_empty above k
      | some u =>
        rw [hlookup] at hnothing
        exact hnothing
  · rintro (⟨hlookup, htakes⟩ | ⟨above, k, habove, hnothing, htakes⟩)
    · refine ⟨[], name, by simp, ?_, htakes⟩
      rw [List.nil_append, standing_cons, hlookup]
      rfl
    · refine ⟨name :: above, k, List.cons_prefix_cons.2 ⟨rfl, habove⟩, ?_, htakes⟩
      rw [List.cons_append, standing_cons]
      cases hlookup : children.lookup name with
      | none => rfl
      | some u =>
        rw [hlookup] at hnothing
        exact hnothing

theorem blocked_dropLast_iff : (folder children).Blocked route.dropLast ↔
    (folder children).BelowFile route := by
  constructor
  · rintro ⟨above, old, habove, hfile⟩
    refine ⟨above, old, habove.trans (List.dropLast_prefix route), ?_, hfile⟩
    rintro rfl
    have hlength := habove.length_le
    rw [List.length_dropLast] at hlength
    obtain rfl : above = [] := List.eq_nil_of_length_eq_zero (by omega)
    cases hfile
  · rintro ⟨above, old, habove, hne, hfile⟩
    rcases route.eq_nil_or_concat with rfl | ⟨front, name, rfl⟩
    · exact absurd (List.prefix_nil.1 habove) hne
    · rw [List.concat_eq_append] at habove hne ⊢
      rw [List.dropLast_concat]
      rcases List.prefix_concat_iff.1 habove with heq | hfront
      · exact absurd heq hne
      · exact ⟨above, old, hfront, hfile⟩

/-- Nothing can be put where a file is in the way above. -/
theorem sight_eq_none_iff (hne : route ≠ []) : t.sight route = none ↔ t.Blocked route.dropLast := by
  induction route generalizing t with
  | nil => exact absurd rfl hne
  | cons name route ih =>
    cases t with
    | file data => exact iff_of_true rfl (blocked_file data _)
    | folder children =>
      cases route with
      | nil =>
        refine iff_of_false ?_ (not_blocked_nil children)
        rw [sight]
        cases children.lookup name <;> simp [sight]
      | cons k route =>
        rw [List.dropLast_cons_cons, blocked_cons, sight]
        cases children.lookup name with
        | none => exact iff_of_false (by simp) (not_blocked_empty _)
        | some u => exact ih (List.cons_ne_nil k route)

theorem not_untaken_of_takes (h : ∀ name ∈ route, takes name) : ¬ t.Untaken takes route := by
  rintro ⟨above, name, habove, -, htakes⟩
  have hname := h name (habove.subset (List.mem_append_right above List.mem_cons_self))
  rw [htakes] at hname
  cases hname

/-! ## Folders that are made -/

theorem makeFolders_cons (takes : String → Bool) (name : String) (route : Route)
    (children : List (String × Tree)) : (folder children).makeFolders takes (name :: route) =
      if (children.lookup name).isNone && !takes name then (.error .tooLong, .folder children)
      else ((((children.lookup name).getD (.folder [])).makeFolders takes route).1,
        .folder (putChild name
          (((children.lookup name).getD (.folder [])).makeFolders takes route).2 children)) := rfl

/-- The folders of a route are made if no file is in the way and all names are taken. -/
theorem makeFolders_eq_ok_iff : (t.makeFolders takes route).1 = .ok () ↔
    ¬ t.Blocked route ∧ ¬ t.Untaken takes route := by
  induction route generalizing t with
  | nil =>
    cases t with
    | file data => simp [makeFolders, blocked_file]
    | folder children => simp [makeFolders, not_blocked_nil, not_untaken_nil]
  | cons name route ih =>
    cases t with
    | file data => simp [makeFolders, blocked_file]
    | folder children =>
      rw [makeFolders_cons, blocked_cons, untaken_cons]
      split
      case isTrue huntaken =>
        have hname : children.lookup name = none ∧ takes name = false := by simpa using huntaken
        simp [hname]
      case isFalse htaken =>
        have hname : ¬ (children.lookup name = none ∧ takes name = false) := by simpa using htaken
        rw [ih, not_or]
        simp only [hname, not_false_eq_true, true_and]

/-- If a file is in the way no folder is made. -/
theorem makeFolders_of_blocked (h : t.Blocked route) :
    t.makeFolders takes route = (.error .notFolder, t) := by
  induction route generalizing t with
  | nil =>
    cases t with
    | file data => rfl
    | folder children => exact absurd h (not_blocked_nil children)
  | cons name route ih =>
    cases t with
    | file data => rfl
    | folder children =>
      rw [blocked_cons] at h
      cases hlookup : children.lookup name with
      | none =>
        rw [hlookup] at h
        exact absurd h (not_blocked_empty route)
      | some u =>
        rw [hlookup] at h
        have hu : u.makeFolders takes route = (.error .notFolder, u) := ih h
        simp [makeFolders_cons, hlookup, hu, putChild_of_lookup hlookup]

/-- If the folders are there none is made. -/
theorem makeFolders_of_find? (h : t.find? route = some (.folder cs)) :
    t.makeFolders takes route = (.ok (), t) := by
  induction route generalizing t with
  | nil =>
    cases h
    rfl
  | cons name route ih =>
    cases t with
    | file data => cases h
    | folder children =>
      obtain ⟨u, hlookup, hu⟩ := Option.bind_eq_some_iff.1 h
      simp [makeFolders_cons, hlookup, ih hu, putChild_of_lookup hlookup]

/-- What stands somewhere afterwards stood there before, or it is a folder that was missing. -/
theorem standing_makeFolders_cases (takes : String → Bool) (route other : Route) (t : Tree) :
    (t.makeFolders takes route).2.standing other = t.standing other ∨
      other <+: route ∧ t.standing other = .nothing ∧
        (t.makeFolders takes route).2.standing other = .folder := by
  induction route generalizing t other with
  | nil => cases t <;> exact .inl rfl
  | cons name route ih =>
    cases t with
    | file data => exact .inl rfl
    | folder children =>
      rw [makeFolders_cons]
      split
      case isTrue => exact .inl rfl
      case isFalse =>
        cases other with
        | nil => exact .inl rfl
        | cons k other =>
          rw [standing_cons, standing_cons]
          by_cases hk : k = name
          · subst hk
            rw [lookup_putChild_self, Option.map_some, Option.getD_some, List.cons_prefix_cons]
            cases hlookup : children.lookup k with
            | some u => simpa using ih other u
            | none =>
              -- In place of the child that was missing there is an empty folder.
              cases other with
              | nil =>
                have hfolder := ih [] (.folder [])
                refine .inr ⟨⟨rfl, List.nil_prefix⟩, rfl, ?_⟩
                rcases hfolder with hfolder | ⟨-, -, hfolder⟩ <;> exact hfolder
              | cons first other =>
                rcases ih (first :: other) (.folder []) with hsame | ⟨hbefore, -, hfolder⟩
                · exact .inl hsame
                · exact .inr ⟨⟨rfl, hbefore⟩, rfl, hfolder⟩
          · exact .inl (by rw [lookup_putChild_of_ne hk])

/-- What does not lie on the route looks as before. -/
theorem sight_makeFolders_of_beside (h : ¬ other <+: route) :
    (t.makeFolders takes route).2.sight other = t.sight other := by
  induction route generalizing t other with
  | nil => cases t <;> rfl
  | cons name route ih =>
    cases t with
    | file data => rfl
    | folder children =>
      cases other with
      | nil => exact absurd List.nil_prefix h
      | cons k other =>
        rw [makeFolders_cons]
        split
        case isTrue => rfl
        case isFalse =>
          by_cases hk : k = name
          · subst hk
            have hother : ¬ other <+: route := fun hbefore =>
              h (List.cons_prefix_cons.2 ⟨rfl, hbefore⟩)
            rw [sight_putChild_self, ih hother, sight]
            cases children.lookup k with
            | some u => rfl
            | none => exact sight_empty fun hnil => hother (hnil ▸ List.nil_prefix)
          · exact sight_putChild_of_ne hk _ _

theorem exists_folder_of_makeFolders (takes : String → Bool) (route : Route)
    (children : List (String × Tree)) :
    ∃ cs, ((folder children).makeFolders takes route).2 = .folder cs := by
  cases route with
  | nil => exact ⟨children, rfl⟩
  | cons name route =>
    rw [makeFolders_cons]
    split <;> exact ⟨_, rfl⟩

/-- Where the folders are made one is found at the end of the route. -/
theorem exists_find?_of_makeFolders (h : (t.makeFolders takes route).1 = .ok ()) :
    ∃ cs, (t.makeFolders takes route).2.find? route = some (.folder cs) := by
  induction route generalizing t with
  | nil =>
    cases t with
    | file data => cases h
    | folder children => exact ⟨children, rfl⟩
  | cons name route ih =>
    cases t with
    | file data => cases h
    | folder children =>
      rw [makeFolders_cons] at h ⊢
      split at h
      case isTrue => cases h
      case isFalse htaken =>
        obtain ⟨cs, hcs⟩ := ih h
        refine ⟨cs, ?_⟩
        rw [if_neg htaken, find?, lookup_putChild_self, Option.bind_some, hcs]

/-! ### Files -/

theorem filesAmong_putChild (h : ((children.lookup name).getD (.folder [])).files = u.files) :
    filesAmong (putChild name u children) = filesAmong children := by
  induction children with
  | nil =>
    have hu : u.files = [] := h.symm
    simp [putChild, filesAmong, hu]
  | cons c children ih =>
    obtain ⟨k, t⟩ := c
    rw [putChild]
    by_cases hk : k = name
    · subst hk
      rw [List.lookup_cons_self, Option.getD_some] at h
      rw [if_pos rfl, filesAmong, filesAmong, h]
    · have hbeq : (name == k) = false := by simpa using Ne.symm hk
      rw [List.lookup_cons, hbeq] at h
      rw [if_neg hk, filesAmong, filesAmong, ih h]

/-- Folders that are made hold no files. -/
theorem files_makeFolders (takes : String → Bool) (route : Route) (t : Tree) :
    (t.makeFolders takes route).2.files = t.files := by
  induction route generalizing t with
  | nil => cases t <;> rfl
  | cons name route ih =>
    cases t with
    | file data => rfl
    | folder children =>
      rw [makeFolders_cons]
      split
      case isTrue => rfl
      case isFalse => rw [files, files, filesAmong_putChild (ih _).symm]

/-- A folder that was there is there still and shows the same files. -/
theorem exists_find?_makeFolders (takes : String → Bool) (route : Route)
    (h : t.find? other = some (.folder cs)) :
    ∃ cs', (t.makeFolders takes route).2.find? other = some (.folder cs') ∧
      (folder cs').files = (folder cs).files := by
  induction route generalizing t other with
  | nil => cases t <;> exact ⟨cs, h, rfl⟩
  | cons name route ih =>
    cases t with
    | file data => exact ⟨cs, h, rfl⟩
    | folder children =>
      cases other with
      | nil =>
        cases h
        obtain ⟨cs', hcs'⟩ := exists_folder_of_makeFolders takes (name :: route) cs
        have hfiles := files_makeFolders takes (name :: route) (.folder cs)
        rw [hcs'] at hfiles ⊢
        exact ⟨cs', rfl, hfiles⟩
      | cons k other =>
        rw [makeFolders_cons]
        split
        case isTrue => exact ⟨cs, h, rfl⟩
        case isFalse =>
          obtain ⟨u, hlookup, hu⟩ := Option.bind_eq_some_iff.1 h
          by_cases hk : k = name
          · subst hk
            obtain ⟨cs', hcs', hfiles⟩ := ih hu
            refine ⟨cs', ?_, hfiles⟩
            rw [find?, lookup_putChild_self, hlookup]
            exact hcs'
          · refine ⟨cs, ?_, rfl⟩
            rw [find?, lookup_putChild_of_ne hk, hlookup]
            exact hu

/-! ### From a route on -/

/-- Folders below a route are made in what is found at its end, once that is there. -/
theorem makeFolders_append (htakes : ∀ name ∈ root, takes name) {found : Option Tree}
    (h : t.sight root = some found) (below : Route) :
    t.makeFolders takes (root ++ below) =
      (((found.getD (.folder [])).makeFolders takes below).1,
        mount ((found.getD (.folder [])).makeFolders takes below).2 root t) := by
  induction root generalizing t found with
  | nil =>
    cases h
    rfl
  | cons name root ih =>
    cases t with
    | file data => cases h
    | folder children =>
      obtain ⟨hname, hroot⟩ := List.forall_mem_cons.1 htakes
      have hchild : ∃ found', ((children.lookup name).getD (.folder [])).sight root = some found' ∧
          found'.getD (.folder []) = found.getD (.folder []) := by
        rw [sight] at h
        cases hlookup : children.lookup name with
        | some u =>
          rw [hlookup] at h
          exact ⟨found, h, rfl⟩
        | none =>
          rw [hlookup] at h
          obtain rfl := Option.some.inj h
          cases root with
          | nil => exact ⟨_, rfl, rfl⟩
          | cons k root => exact ⟨_, rfl, rfl⟩
      obtain ⟨found', hsight, hfound⟩ := hchild
      rw [List.cons_append, makeFolders_cons, ih hroot hsight, hfound, mount]
      simp [hname]

/-! ## Files that are put -/

theorem stumbles_concat (h : t.find? above = some (.folder cs)) (takes : String → Bool)
    (name : String) :
    t.stumbles takes (above ++ [name]) = ((cs.lookup name).isNone && !takes name) := by
  induction above generalizing t with
  | nil =>
    cases h
    rw [List.nil_append, stumbles]
    cases cs.lookup name <;> rfl
  | cons k above ih =>
    cases t with
    | file data => cases h
    | folder children =>
      obtain ⟨u, hlookup, hu⟩ := Option.bind_eq_some_iff.1 h
      rw [List.cons_append, stumbles, hlookup]
      exact ih hu

/-- Below a route whose names are taken only what is found at its end makes a step stumble. -/
theorem stumbles_append (htakes : ∀ name ∈ root, takes name) (route : Route) (t : Tree) :
    t.stumbles takes (root ++ route) = (t.sight root).join.any (stumbles takes route) := by
  induction root generalizing t with
  | nil => rfl
  | cons name root ih =>
    cases t with
    | file data => rfl
    | folder children =>
      obtain ⟨hname, hroot⟩ := List.forall_mem_cons.1 htakes
      rw [List.cons_append, stumbles, sight]
      cases children.lookup name with
      | none => simp [hname]
      | some u => exact ih hroot u

theorem any_isFolder_iff : (t.find? route).any isFolder ↔ t.standing route = .folder := by
  rw [standing]
  rcases t.find? route with _ | _ | _ <;> simp [isFolder]

theorem putFile_of_write? (h : t.write? data route = some t')
    (hstumbles : t.stumbles takes route = false) :
    t.putFile takes data route = (.ok (), t') := by
  have hfolder : ¬ (t.find? route).any isFolder := by
    rw [any_isFolder_iff]
    intro hfolder
    rw [write?_eq_none_iff.2 (.inl hfolder)] at h
    cases h
  rw [putFile, if_neg hfolder, hstumbles, if_neg Bool.false_ne_true, h]

theorem putFile_cases (takes : String → Bool) (data : FileData) (route : Route) (t : Tree) :
    (∃ t', t.stumbles takes route = false ∧ t.write? data route = some t' ∧
        t.putFile takes data route = (.ok (), t')) ∨
      ∃ refusal, t.putFile takes data route = (.error refusal, t) := by
  rw [putFile]
  split
  case isTrue => exact .inr ⟨_, rfl⟩
  case isFalse =>
    split
    case isTrue => exact .inr ⟨_, rfl⟩
    case isFalse hstumbles =>
      split
      case h_1 t' hwrite => exact .inl ⟨t', by simpa using hstumbles, hwrite, rfl⟩
      case h_2 => exact .inr ⟨_, rfl⟩

theorem write?_empty (data : FileData) (h : route ≠ []) :
    (folder []).write? data route = some (chain data route) := by
  obtain ⟨name, route, rfl⟩ := List.exists_cons_of_ne_nil h
  rfl

/-- Once the folders are made a write below them does what it would have done before. -/
theorem write?_makeFolders (data : FileData) (h : (t.makeFolders takes route).1 = .ok ())
    (hbelow : below ≠ []) :
    (t.makeFolders takes route).2.write? data (route ++ below) =
      t.write? data (route ++ below) := by
  induction route generalizing t with
  | nil => cases t <;> rfl
  | cons name route ih =>
    cases t with
    | file data => cases h
    | folder children =>
      rw [makeFolders_cons] at h ⊢
      split at h
      case isTrue => cases h
      case isFalse htaken =>
        rw [if_neg htaken, List.cons_append, write?, lookup_putChild_self]
        simp only [ih h, putChild_putChild]
        rw [write?]
        cases children.lookup name with
        | some u => rfl
        | none =>
          have hne : route ++ below ≠ [] := List.append_ne_nil_of_right_ne_nil route hbelow
          rw [Option.getD_none, write?_empty data hne, Option.map_some]

theorem stumbles_of_find? (takes : String → Bool) (h : t.find? route = some u) :
    t.stumbles takes route = false := by
  induction route generalizing t with
  | nil => rfl
  | cons name route ih =>
    cases t with
    | file data => rfl
    | folder children =>
      obtain ⟨child, hlookup, hu⟩ := Option.bind_eq_some_iff.1 h
      rw [stumbles, hlookup]
      exact ih hu

theorem exists_folder_of_putFile (takes : String → Bool) (data : FileData) (route : Route)
    (children : List (String × Tree)) :
    ∃ cs, ((folder children).putFile takes data route).2 = .folder cs := by
  rcases putFile_cases takes data route (.folder children) with ⟨t, -, hwrite, hput⟩ | ⟨_, hput⟩
  · rw [hput]
    exact exists_folder_of_write? hwrite
  · rw [hput]
    exact ⟨children, rfl⟩

/-- Below a folder that is there, under names that are taken, a file is put in this folder. -/
theorem putFile_append (htakes : ∀ name ∈ root, takes name) (h : t.find? root = some sub)
    (data : FileData) (route : Route) : t.putFile takes data (root ++ route) =
      ((sub.putFile takes data route).1, mount (sub.putFile takes data route).2 root t) := by
  have hstumbles : t.stumbles takes (root ++ route) = sub.stumbles takes route := by
    rw [stumbles_append htakes, sight_of_find? h]
    rfl
  rw [putFile, putFile, hstumbles, find?_append, h, Option.bind_some, write?_append data h]
  split
  · rw [mount_of_find? h]
  · split
    · rw [mount_of_find? h]
    · cases sub.write? data route with
      | none =>
        simp only [Option.map_none]
        rw [mount_of_find? h]
      | some u => rfl

/-! ## Files that are opened -/

/-- What opening a file comes to: nothing is done, or the folders above it are made at most, or all
steps are done. -/
inductive Opening (takes : String → Bool) (stamp : Binary64) (route : Route) (t : Tree) :
    Outcome → Prop
  | unchanged (refusal : Refusal) : Opening takes stamp route t (.error refusal, t)
  | stopped (refusal : Refusal) {made : Tree}
    (folders : (t.makeFolders takes route.dropLast).2 = made) :
    Opening takes stamp route t (.error refusal, made)
  | opened {made t' : Tree} (fits : Route.fits route = true)
    (folders : t.makeFolders takes route.dropLast = (.ok (), made))
    (taken : made.stumbles takes route = false)
    (put : made.write? ⟨.empty, stamp⟩ route = some t') : Opening takes stamp route t (.ok (), t')

theorem opening_openFile (takes : String → Bool) (stamp : Binary64) (route : Route) (t : Tree) :
    t.Opening takes stamp route (t.openFile takes stamp route) := by
  rw [openFile]
  split
  case isTrue => exact .unchanged _
  case isFalse =>
    split
    case h_1 hmade => exact .stopped _ (by rw [hmade])
    case h_2 made hmade =>
      split
      case isTrue => exact .stopped _ (by rw [hmade])
      case isFalse hfits =>
        rcases putFile_cases takes ⟨.empty, stamp⟩ route made with
          ⟨t', htaken, hwrite, hput⟩ | ⟨refusal, hput⟩
        · rw [hput]
          exact .opened (by simpa using hfits) hmade htaken hwrite
        · rw [hput]
          exact .stopped refusal (by rw [hmade])

/-- What is too long where a file is to be written: the whole path, or a name that is not there. -/
def TooLong (takes : String → Bool) (route : Route) (t : Tree) : Prop :=
  Route.fits route = false ∨ t.Untaken takes route

theorem fits_dropLast (h : Route.fits route = true) : Route.fits route.dropLast = true := by
  rcases route.eq_nil_or_concat with rfl | ⟨above, name, rfl⟩
  · exact h
  · rw [List.concat_eq_append] at h ⊢
    rw [List.dropLast_concat]
    cases above with
    | nil => decide
    | cons k above =>
      rw [Route.fits, decide_eq_true_eq] at h ⊢
      rw [Route.text_append (List.cons_ne_nil k above) (List.cons_ne_nil name [])] at h
      simp only [String.utf8ByteSize_append] at h ⊢
      omega

theorem untaken_concat : t.Untaken takes (above ++ [name]) ↔
    t.Untaken takes above ∨ t.standing (above ++ [name]) = .nothing ∧ takes name = false := by
  constructor
  · rintro ⟨front, k, hfront, hnothing, htakes⟩
    rcases List.prefix_concat_iff.1 hfront with heq | hfront
    · obtain ⟨rfl, hname⟩ := List.append_inj' heq rfl
      obtain rfl : k = name := by simpa using hname
      exact .inr ⟨hnothing, htakes⟩
    · exact .inl ⟨front, k, hfront, hnothing, htakes⟩
  · rintro (huntaken | ⟨hnothing, htakes⟩)
    · exact huntaken.mono (List.prefix_append above [name])
    · exact ⟨above, name, List.prefix_rfl, hnothing, htakes⟩

/-- Once the folders above it are there only the last name of a route can make a step stumble. -/
theorem stumbles_makeFolders (h : (t.makeFolders takes above).1 = .ok ()) (name : String) :
    (t.makeFolders takes above).2.stumbles takes (above ++ [name]) ↔
      t.standing (above ++ [name]) = .nothing ∧ takes name = false := by
  obtain ⟨cs, hcs⟩ := exists_find?_of_makeFolders h
  have hsame : (t.makeFolders takes above).2.standing (above ++ [name]) =
      t.standing (above ++ [name]) := by
    refine (standing_makeFolders_cases takes above (above ++ [name]) t).resolve_right ?_
    exact fun hother => absurd hother.1.length_le (by simp)
  rw [stumbles_concat hcs, ← hsame, standing, find?_append, hcs]
  simp only [Option.bind_some, find?]
  cases cs.lookup name with
  | none => simp
  | some u => cases u <;> simp

/-- A file is opened if nothing is in the way and nothing is too long, and it is written then. -/
theorem openFile_eq_ok_iff : t.openFile takes stamp route = (.ok (), t') ↔
    ¬ t.TooLong takes route ∧ ¬ t.Blocked route.dropLast ∧
      t.write? ⟨.empty, stamp⟩ route = some t' := by
  rcases route.eq_nil_or_concat with rfl | ⟨above, name, rfl⟩
  · cases t with
    | file data => exact ⟨nofun, fun h => absurd (blocked_file data []) h.2.1⟩
    | folder children => exact ⟨nofun, fun h => nomatch h.2.2⟩
  rw [List.concat_eq_append, TooLong, untaken_concat, List.dropLast_concat]
  constructor
  · intro h
    have hopening := opening_openFile takes stamp (above ++ [name]) t
    rw [h] at hopening
    cases hopening with
    | opened hfits hmade htaken hwrite =>
      rw [List.dropLast_concat] at hmade
      have hok : (t.makeFolders takes above).1 = .ok () := by rw [hmade]
      obtain ⟨hblocked, huntaken⟩ := makeFolders_eq_ok_iff.1 hok
      have hlast := stumbles_makeFolders hok name
      have hsame := write?_makeFolders ⟨.empty, stamp⟩ hok (List.cons_ne_nil name [])
      rw [hmade] at hlast hsame
      simp only [htaken, Bool.false_eq_true, false_iff] at hlast
      refine ⟨?_, hblocked, hsame.symm.trans hwrite⟩
      rintro (hlong | huntaken' | hname)
      · rw [hfits] at hlong
        cases hlong
      · exact huntaken huntaken'
      · exact hlast hname
  · rintro ⟨hshort, hblocked, hwrite⟩
    obtain ⟨hfits, huntaken⟩ := not_or.1 hshort
    obtain ⟨huntaken, hname⟩ := not_or.1 huntaken
    have hfits : Route.fits (above ++ [name]) = true := by simpa using hfits
    have hfits' := fits_dropLast hfits
    rw [List.dropLast_concat] at hfits'
    have hok : (t.makeFolders takes above).1 = .ok () :=
      makeFolders_eq_ok_iff.2 ⟨hblocked, huntaken⟩
    have hmade : t.makeFolders takes above = (.ok (), (t.makeFolders takes above).2) :=
      Prod.ext hok rfl
    rw [← write?_makeFolders ⟨.empty, stamp⟩ hok (List.cons_ne_nil name [])] at hwrite
    have hstumbles := (stumbles_makeFolders hok name).not.2 hname
    rw [openFile, List.dropLast_concat, hmade]
    simp only [hfits, hfits', Bool.not_true, Bool.false_eq_true, if_false]
    exact putFile_of_write? hwrite (by simpa using hstumbles)

/-- Where a file is in the way no folder is made. -/
theorem openFile_of_blocked (takes : String → Bool) (stamp : Binary64)
    (h : t.Blocked route.dropLast) :
    ∃ refusal, t.openFile takes stamp route = (.error refusal, t) := by
  rw [openFile, makeFolders_of_blocked h]
  split <;> exact ⟨_, rfl⟩

theorem makeFolders_dropLast_of_folder (takes : String → Bool) (h : t.standing route = .folder) :
    t.makeFolders takes route.dropLast = (.ok (), t) := by
  obtain ⟨cs, hcs⟩ := exists_folder_of_standing h
  rcases route.eq_nil_or_concat with rfl | ⟨above, name, rfl⟩
  · exact makeFolders_of_find? hcs
  · rw [List.concat_eq_append, find?_append] at hcs
    rw [List.concat_eq_append, List.dropLast_concat]
    obtain ⟨u, hu, hname⟩ := Option.bind_eq_some_iff.1 hcs
    cases u with
    | file data => cases hname
    | folder children => exact makeFolders_of_find? hu

/-- A folder is not opened, and the folders above it are there. -/
theorem openFile_of_folder (takes : String → Bool) (stamp : Binary64)
    (h : t.standing route = .folder) :
    ∃ refusal, t.openFile takes stamp route = (.error refusal, t) := by
  rw [openFile, makeFolders_dropLast_of_folder takes h]
  simp only [putFile, any_isFolder_iff.2 h, if_true]
  split
  · exact ⟨_, rfl⟩
  · split <;> exact ⟨_, rfl⟩

/-- Steps that are refused have made folders at most. -/
theorem openFile_error (h : t.openFile takes stamp route = (.error refusal, t')) :
    t' = t ∨ t' = (t.makeFolders takes route.dropLast).2 := by
  have hopening := opening_openFile takes stamp route t
  rw [h] at hopening
  cases hopening with
  | unchanged => exact .inl rfl
  | stopped _ hmade => exact .inr hmade.symm

/-- A file of a name that is not taken is not opened, but the folders above it are made. -/
theorem openFile_of_untaken (stamp : Binary64) (hfits : Route.fits (above ++ [name]) = true)
    (hok : (t.makeFolders takes above).1 = .ok ())
    (hnothing : t.standing (above ++ [name]) = .nothing) (htakes : takes name = false) :
    t.openFile takes stamp (above ++ [name]) =
      (.error .tooLong, (t.makeFolders takes above).2) := by
  have hstumbles := (stumbles_makeFolders hok name).2 ⟨hnothing, htakes⟩
  have hmade : t.makeFolders takes above = (.ok (), (t.makeFolders takes above).2) :=
    Prod.ext hok rfl
  have hfits' := fits_dropLast hfits
  rw [List.dropLast_concat] at hfits'
  rw [openFile, List.dropLast_concat, hmade]
  simp only [hfits, hfits', Bool.not_true, Bool.false_eq_true, if_false]
  have hfolder : ¬ ((t.makeFolders takes above).2.find? (above ++ [name])).any isFolder := by
    intro hfolder
    obtain ⟨cs, hcs⟩ := exists_folder_of_standing (any_isFolder_iff.1 hfolder)
    rw [stumbles_of_find? takes hcs] at hstumbles
    cases hstumbles
  rw [putFile, if_neg hfolder, if_pos hstumbles]

/-- Below a folder that is there, under names that are taken, steps change nothing but this
folder. -/
theorem exists_openFile_append (htakes : ∀ name ∈ root, takes name) (stamp : Binary64)
    (children : List (String × Tree)) (below : Route) : ∃ result cs, ∀ t : Tree,
      t.find? root = some (.folder children) →
        t.openFile takes stamp (root ++ below) = (result, mount (.folder cs) root t) := by
  by_cases hbelow : below = []
  · subst hbelow
    refine ⟨.error (if Route.fits root.dropLast && Route.fits root then .isFolder else .tooLong),
      children, fun t ht => ?_⟩
    have hfolder := standing_of_find? ht
    rw [List.append_nil, openFile, makeFolders_dropLast_of_folder takes hfolder, mount_of_find? ht]
    simp only [putFile, any_isFolder_iff.2 hfolder, if_true]
    cases Route.fits root.dropLast <;> cases Route.fits root <;> rfl
  · obtain ⟨made, hmade⟩ := exists_folder_of_makeFolders takes below.dropLast children
    have hstep (t : Tree) (ht : t.find? root = some (.folder children)) :
        t.makeFolders takes (root ++ below.dropLast) =
          (((folder children).makeFolders takes below.dropLast).1,
            mount (.folder made) root t) := by
      rw [makeFolders_append htakes (sight_of_find? ht), Option.getD_some, hmade]
    simp only [openFile, List.dropLast_append_of_ne_nil hbelow]
    split
    · exact ⟨_, children, fun t ht => by rw [mount_of_find? ht]⟩
    · rcases hresult : ((folder children).makeFolders takes below.dropLast).1 with refusal | ⟨⟩
      · exact ⟨.error refusal, made, fun t ht => by rw [hstep t ht, hresult]⟩
      · split
        · exact ⟨_, made, fun t ht => by rw [hstep t ht, hresult]⟩
        · obtain ⟨cs, hcs⟩ := exists_folder_of_putFile takes ⟨.empty, stamp⟩ below made
          refine ⟨((folder made).putFile takes ⟨.empty, stamp⟩ below).1, cs, fun t ht => ?_⟩
          rw [hstep t ht, hresult]
          simp only [putFile_append htakes (find?_mount_self _ _ _), mount_mount, hcs]

end Tree

/-! ## Writes to a vault -/

namespace Disk

/-- What a write to a vault comes to, by what comes of its steps. -/
inductive Writes (path : Spelling) (content : Loose) (d : Disk) : Except Failure Unit × Disk → Prop
  | refused {f : Failure} (located : d.locate path = .error f) : Writes path content d (.error f, d)
  | unopened {route : Route} {refusal : Tree.Refusal} {tree : Tree}
      (located : d.locate path = .ok route)
      (opened : d.tree.openFile d.takes d.stamp (d.root ++ route) = (.error refusal, tree)) :
      Writes path content d (.error .system, { d with tree })
  | emptied {route : Route} {tree : Tree} (located : d.locate path = .ok route)
      (opened : d.tree.openFile d.takes d.stamp (d.root ++ route) = (.ok (), tree))
      (noBytes : content.bytes? = none) :
      Writes path content d (.error .unencodable, { d with tree })
  | written {route : Route} {opened tree : Tree} {bytes : ByteArray}
      (located : d.locate path = .ok route)
      (opened : d.tree.openFile d.takes d.stamp (d.root ++ route) = (.ok (), opened))
      (encoded : content.bytes? = some bytes)
      (put : d.tree.write? ⟨bytes, d.stamp⟩ (d.root ++ route) = some tree) :
      Writes path content d (.ok (), { d with tree, listings := [] })

theorem writes_write (path : Spelling) (content : Loose) (d : Disk) :
    d.Writes path content (d.write path content) := by
  rw [write]
  cases hlocate : d.locate path with
  | error f => exact .refused hlocate
  | ok route =>
    rcases hopen : d.tree.openFile d.takes d.stamp (d.root ++ route) with ⟨refusal | ⟨⟩, opened⟩
    · simp only [hopen]
      exact .unopened hlocate hopen
    · simp only [hopen]
      cases hbytes : content.bytes? with
      | none => exact .emptied hlocate hopen hbytes
      | some bytes =>
        obtain ⟨-, -, hempty⟩ := Tree.openFile_eq_ok_iff.1 hopen
        obtain ⟨tree, htree⟩ := Tree.exists_write? hempty ⟨bytes, d.stamp⟩
        have hput := Tree.putFile_of_write? ((Tree.write?_write? hempty _).trans htree)
          (Tree.stumbles_of_find? d.takes (Tree.find?_write?_self hempty))
        dsimp only
        rw [hput]
        exact .written hlocate hopen hbytes htree

end Disk

end MarkdownVault
