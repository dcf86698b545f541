import MarkdownVault.Proofs.Lookup
import MarkdownVault.Vault.Tree

/-!
# What stands in a tree

From the end of a route on a tree is what is found there. A write changes what stands at the end of
its route, makes the folders that were missing on the way, and leaves all else as it was.
-/

namespace MarkdownVault.Tree

variable {data : FileData} {name : String} {root route other : Route} {t t' sub : Tree}
  {children : List (String × Tree)}

/-! ## Children -/

theorem lookup_putChild_self (name : String) (t : Tree) (children : List (String × Tree)) :
    (putChild name t children).lookup name = some t :=
  lookup_placed_self (putChild name t) rfl (fun _ _ => rfl) children

theorem lookup_putChild_of_ne {k : String} (h : k ≠ name) (t : Tree)
    (children : List (String × Tree)) : (putChild name t children).lookup k = children.lookup k :=
  lookup_placed_of_ne (putChild name t) rfl (fun _ _ => rfl) h children

theorem putChild_putChild (name : String) (t u : Tree) (children : List (String × Tree)) :
    putChild name t (putChild name u children) = putChild name t children := by
  induction children with
  | nil => simp [putChild]
  | cons c children ih =>
    by_cases hc : c.1 = name
    · simp [putChild, hc]
    · simp [putChild, hc, ih]

theorem putChild_of_lookup {name : String} {children : List (String × Tree)}
    (h : children.lookup name = some t) : putChild name t children = children := by
  induction children with
  | nil => cases h
  | cons c children ih =>
    obtain ⟨k, u⟩ := c
    by_cases hk : k = name
    · subst hk
      simp_all [putChild]
    · have hbeq : (name == k) = false := by simpa using Ne.symm hk
      rw [List.lookup_cons, hbeq] at h
      simp [putChild, hk, ih h]

/-! ## Trees from a route on -/

theorem find?_append (root route : Route) (t : Tree) :
    t.find? (root ++ route) = (t.find? root).bind (find? route) := by
  induction root generalizing t with
  | nil => rfl
  | cons name root ih =>
    cases t with
    | file data => rfl
    | folder children =>
      rw [List.cons_append, find?, find?, Option.bind_assoc]
      exact congrArg _ (funext ih)

/-- What stands at the end of a route, if anything does. It is `none` where a file is in the way, so
that nothing can be put there. -/
def sight : Route → Tree → Option (Option Tree)
  | [], t => some (some t)
  | _ :: _, .file _ => none
  | name :: route, .folder children => match children.lookup name with
    | none => some none
    | some t => sight route t

theorem find?_eq_join_sight (route : Route) (t : Tree) : t.find? route = (t.sight route).join := by
  induction route generalizing t with
  | nil => rfl
  | cons name route ih =>
    cases t with
    | file data => rfl
    | folder children =>
      rw [find?, sight]
      cases children.lookup name with
      | none => rfl
      | some t => exact ih t

theorem sight_putChild_self (name : String) (t : Tree) (children : List (String × Tree)) :
    (folder (putChild name t children)).sight (name :: route) = t.sight route := by
  rw [sight, lookup_putChild_self]

theorem sight_putChild_of_ne {name k : String} (h : k ≠ name) (t : Tree)
    (children : List (String × Tree)) :
    (folder (putChild name t children)).sight (k :: route) = (folder children).sight (k :: route) :=
  by rw [sight, sight, lookup_putChild_of_ne h]

theorem sight_of_find? (h : t.find? route = some sub) : t.sight route = some (some sub) := by
  rw [find?_eq_join_sight] at h
  cases hsight : t.sight route with
  | none =>
    rw [hsight] at h
    cases h
  | some found =>
    rw [hsight] at h
    exact congrArg some h

/-- In an empty folder nothing stands, and nothing is in the way. -/
theorem sight_empty (h : route ≠ []) : (folder []).sight route = some none := by
  cases route with
  | nil => exact absurd rfl h
  | cons name route => rfl

theorem find?_mount_self (other : Tree) (root : Route) (t : Tree) :
    (mount other root t).find? root = some other := by
  induction root generalizing t with
  | nil => rfl
  | cons name root ih =>
    cases t with
    | file data => simp [mount, find?, ih]
    | folder children => simp [mount, find?, lookup_putChild_self, ih]

/-- Of two trees that are put in one place, the later one stays. -/
theorem mount_mount (other later : Tree) (root : Route) (t : Tree) :
    mount later root (mount other root t) = mount later root t := by
  induction root generalizing t with
  | nil => rfl
  | cons name root ih =>
    cases t with
    | file data => simp [mount, putChild, ih]
    | folder children => simp [mount, lookup_putChild_self, putChild_putChild, ih]

/-- Putting a tree where it is found changes nothing. -/
theorem mount_of_find? (h : t.find? root = some sub) : mount sub root t = t := by
  induction root generalizing t with
  | nil => exact (Option.some.inj h).symm
  | cons name root ih =>
    cases t with
    | file data => cases h
    | folder children =>
      obtain ⟨u, hu, hsub⟩ := Option.bind_eq_some_iff.1 h
      rw [mount, hu, Option.getD_some, ih hsub, putChild_of_lookup hu]

/-! ## What stands at the end of a route -/

/-- What stands at the end of a route. -/
inductive Standing where
  | nothing
  | folder
  | file (data : FileData)

def standing (route : Route) (t : Tree) : Standing :=
  match t.find? route with
  | none => .nothing
  | some (.folder _) => .folder
  | some (.file data) => .file data

theorem standing_cons (name : String) (route : Route) (children : List (String × Tree)) :
    (Tree.folder children).standing (name :: route) =
      ((children.lookup name).map (standing route)).getD .nothing := by
  rw [standing, find?]
  cases children.lookup name <;> rfl

theorem standing_of_find? (h : t.find? route = some (.folder children)) :
    t.standing route = .folder := by rw [standing, h]

theorem exists_folder_of_standing (h : t.standing route = .folder) :
    ∃ children, t.find? route = some (.folder children) := by
  rw [standing] at h
  cases hfind : t.find? route with
  | none =>
    rw [hfind] at h
    cases h
  | some u =>
    rw [hfind] at h
    cases u with
    | folder children => exact ⟨children, rfl⟩
    | file data => cases h

/-! ## Writes -/

theorem standing_chain (data : FileData) (route other : Route) : (chain data route).standing other =
    if other = route then .file data else if other <+: route then .folder else .nothing := by
  induction route generalizing other with
  | nil => cases other <;> simp [chain, standing, find?]
  | cons name route ih =>
    cases other with
    | nil => rfl
    | cons k other =>
      rw [chain, standing_cons, List.lookup_cons]
      by_cases hk : k = name
      · simp [hk, ih]
      · have hbeq : (k == name) = false := by simpa using hk
        simp [hbeq, hk]

/-- After a write the file stands at the end of the route, folders stand on the way to it, and all
else is as it was. -/
theorem standing_write? (h : t.write? data route = some t') (other : Route) : t'.standing other =
    if other = route then .file data else if other <+: route then .folder
    else t.standing other := by
  fun_induction write? data route t generalizing t' other with
  | case1 old =>
    cases h
    cases other <;> rfl
  | case2 => cases h
  | case3 => cases h
  | case4 name route children hlookup =>
    cases h
    cases other with
    | nil => rfl
    | cons k other =>
      rw [standing_cons, standing_cons]
      by_cases hk : k = name
      · subst hk
        simp [lookup_putChild_self, hlookup, standing_chain]
      · simp [lookup_putChild_of_ne hk, hk]
  | case5 name route children t hlookup ih =>
    obtain ⟨u, hu, rfl⟩ := Option.map_eq_some_iff.1 h
    cases other with
    | nil => rfl
    | cons k other =>
      rw [standing_cons, standing_cons]
      by_cases hk : k = name
      · subst hk
        simp [lookup_putChild_self, hlookup, ih hu]
      · simp [lookup_putChild_of_ne hk, hk]

/-- A file stands on the way to the end of a route. -/
def BelowFile (route : Route) (t : Tree) : Prop :=
  ∃ above old, above <+: route ∧ above ≠ route ∧ t.standing above = .file old

theorem belowFile_cons : (Tree.folder children).BelowFile (name :: route) ↔
    ∃ u, children.lookup name = some u ∧ u.BelowFile route := by
  constructor
  · rintro ⟨above, old, habove, hne, hfile⟩
    cases above with
    | nil => cases hfile
    | cons k above =>
      obtain ⟨rfl, hrest⟩ := List.cons_prefix_cons.1 habove
      rw [standing_cons] at hfile
      cases hlookup : children.lookup k with
      | none =>
        rw [hlookup] at hfile
        cases hfile
      | some u =>
        rw [hlookup] at hfile
        exact ⟨u, rfl, above, old, hrest, fun heq => hne (heq ▸ rfl), hfile⟩
  · rintro ⟨u, hlookup, above, old, habove, hne, hfile⟩
    refine ⟨name :: above, old, List.cons_prefix_cons.2 ⟨rfl, habove⟩, by simpa using hne, ?_⟩
    rw [standing_cons, hlookup]
    exact hfile

/-- No file can be written in place of a folder or below another file, and any other can. -/
theorem write?_eq_none_iff :
    t.write? data route = none ↔ t.standing route = .folder ∨ t.BelowFile route := by
  fun_induction write? data route t with
  | case1 old => simp [standing, find?, BelowFile]
  | case2 => simp [standing, find?]
  | case3 name route old =>
    have hbelow : (Tree.file old).BelowFile (name :: route) :=
      ⟨[], old, List.nil_prefix, (List.cons_ne_nil _ _).symm, rfl⟩
    simp [hbelow]
  | case4 name route children hlookup =>
    simp [standing_cons, belowFile_cons, hlookup]
  | case5 name route children t hlookup ih =>
    simp [standing_cons, belowFile_cons, hlookup, ih]

/-- What a write changes besides the file are folders that were missing on the way to it. -/
theorem standing_write?_cases (h : t.write? data route = some t') (hne : other ≠ route) :
    t'.standing other = t.standing other ∨
      other <+: route ∧ t.standing other = .nothing ∧ t'.standing other = .folder := by
  have hwritten := standing_write? h other
  rw [if_neg hne] at hwritten
  split at hwritten
  case isFalse => exact .inl hwritten
  case isTrue habove =>
    cases hbefore : t.standing other with
    | nothing => exact .inr ⟨habove, rfl, hwritten⟩
    | folder => exact .inl hwritten
    | file old =>
      have hbelow : t.BelowFile route := ⟨other, old, habove, hne, hbefore⟩
      rw [write?_eq_none_iff.2 (.inr hbelow)] at h
      cases h

theorem exists_write? (h : t.write? data route = some t') (other : FileData) :
    ∃ t', t.write? other route = some t' := by
  rw [← Option.ne_none_iff_exists', Ne, write?_eq_none_iff, ← @write?_eq_none_iff data, h]
  exact nofun

theorem write?_chain (data other : FileData) (route : Route) :
    (chain data route).write? other route = some (chain other route) := by
  induction route with
  | nil => rfl
  | cons name route ih => simp [chain, write?, ih, putChild]

/-- Of two writes to one file the later one stays. -/
theorem write?_write? (h : t.write? data route = some t') (other : FileData) :
    t'.write? other route = t.write? other route := by
  fun_induction write? data route t generalizing t' with
  | case1 =>
    cases h
    rfl
  | case2 => cases h
  | case3 => cases h
  | case4 name route children hlookup =>
    cases h
    rw [write?, lookup_putChild_self, write?, hlookup]
    simp [write?_chain, putChild_putChild]
  | case5 name route children t hlookup ih =>
    obtain ⟨u, hu, rfl⟩ := Option.map_eq_some_iff.1 h
    rw [write?, lookup_putChild_self, write?, hlookup]
    simp [ih hu, putChild_putChild]

theorem read?_eq_some_iff : t.read? route = some data ↔ t.standing route = .file data := by
  rw [read?, standing]
  rcases t.find? route with _ | _ | old <;> simp

theorem find?_eq_file_iff : t.find? route = some (.file data) ↔ t.standing route = .file data := by
  rw [standing]
  rcases t.find? route with _ | _ | old <;> simp

theorem find?_write?_self (h : t.write? data route = some t') :
    t'.find? route = some (.file data) :=
  find?_eq_file_iff.2 ((standing_write? h route).trans (if_pos rfl))

/-- A file that was written holds what was written. -/
theorem read?_write?_self (h : t.write? data route = some t') : t'.read? route = some data :=
  read?_eq_some_iff.2 ((standing_write? h route).trans (if_pos rfl))

/-- A write leaves every other file as it was, and adds none. -/
theorem read?_write?_of_ne (h : t.write? data route = some t') (hne : other ≠ route) :
    t'.read? other = t.read? other := by
  refine Option.ext fun old => ?_
  rw [read?_eq_some_iff, read?_eq_some_iff]
  rcases standing_write?_cases h hne with heq | ⟨-, hnothing, hfolder⟩
  · rw [heq]
  · rw [hnothing, hfolder]
    exact ⟨nofun, nofun⟩

/-- A write below a route is a write to the tree that is found there. -/
theorem write?_append (data : FileData) (h : t.find? root = some sub) (route : Route) :
    t.write? data (root ++ route) = (sub.write? data route).map (mount · root t) := by
  induction root generalizing t with
  | nil =>
    cases h
    exact Option.map_id'.symm
  | cons name root ih =>
    cases t with
    | file old => cases h
    | folder children =>
      obtain ⟨u, hu, hsub⟩ := Option.bind_eq_some_iff.1 h
      rw [List.cons_append, write?, hu]
      simp only [ih hsub, Option.map_map]
      simp [mount, hu, Function.comp_def]

theorem exists_folder_of_write? {data : FileData} {children : List (String × Tree)}
    (h : (folder children).write? data route = some t) : ∃ children, t = folder children := by
  cases route with
  | nil => cases h
  | cons name route =>
    rw [write?] at h
    split at h
    · exact ⟨_, (Option.some.inj h).symm⟩
    · obtain ⟨u, -, rfl⟩ := Option.map_eq_some_iff.1 h
      exact ⟨_, rfl⟩

end MarkdownVault.Tree
