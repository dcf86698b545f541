import MarkdownVault.Proofs.Vault.Confinement
import MarkdownVault.Proofs.Vault.Writing

/-!
# Access to files

Most operations on a vault read and write files and do nothing else. Such operations see nothing of
a vault but its files, and on disk nothing but the vault's folder. The graph is put together from
one of them and the memo.
-/

namespace MarkdownVault

variable {α β : Type}

/-- Operations that read and write files, one after the other. -/
inductive Accesses : {α : Type} → VaultM α → Prop
  | result {α : Type} (r : Except Failure α) : Accesses (MonadExcept.ofExcept r : VaultM α)
  | list (directory : Option String) : Accesses (Vault.list directory)
  | text (path : String) : Accesses (Vault.readText path)
  | note (path : String) : Accesses (Vault.readNote path)
  | write (path content : String) : Accesses (Vault.write path content)
  | attempt {α : Type} {op : VaultM α} : Accesses op → Accesses (Vault.attempt op)
  | bind {α β : Type} {op : VaultM α} {next : α → VaultM β} :
      Accesses op → (∀ a, Accesses (next a)) → Accesses (op >>= next)

namespace Accesses

theorem pure (a : α) : Accesses (Pure.pure a : VaultM α) := .result (.ok a)

theorem filterMapM {f : α → VaultM (Option β)} (h : ∀ a, Accesses (f a)) (as : List α) :
    Accesses (as.filterMapM f) := by
  induction as with
  | nil => exact .pure []
  | cons a as ih =>
    rw [List.filterMapM_cons]
    refine (h a).bind fun found => ?_
    cases found with
    | none => exact ih
    | some b => exact ih.bind fun bs => .pure (b :: bs)

theorem readListed (f : FileEntry) : Accesses (Vault.readListed f) := by
  have htried : Accesses (Vault.unlessSkipped (Vault.readNote f.path)) :=
    (note f.path).attempt.bind fun tried => .result (Failure.skipped tried)
  exact htried.bind fun found => .pure _

/-- Passing over the notes that cannot be read is an access like any other. -/
theorem sweep (wanted : FileEntry → Bool) : Accesses (Vault.sweep wanted) := by
  have hsweep := (list none).bind fun files =>
    filterMapM readListed (files.filter fun f => f.isNote && wanted f)
  exact hsweep

end Accesses

/-! ## Trees that look alike from a route on -/

/-- Neither of two routes leads below the other. -/
def Route.Apart (route other : Route) : Prop := ¬ route <+: other ∧ ¬ other <+: route

theorem Route.apart_cons_iff {name name' : String} {route other : Route} :
    Apart (name :: route) (name' :: other) ↔ (name = name' → Apart route other) := by
  simp only [Apart, List.cons_prefix_cons, not_and, eq_comm (a := name')]
  exact ⟨fun h heq => ⟨h.1 heq, h.2 heq⟩, fun h => ⟨fun heq => (h heq).1, fun heq => (h heq).2⟩⟩

namespace Tree

variable {data : FileData} {root route other : Route} {t t' : Tree}

theorem sight_chain_append (data : FileData) (root route : Route) :
    (chain data (root ++ route)).sight root = some (some (chain data route)) := by
  induction root with
  | nil => rfl
  | cons name root ih => simp [chain, sight, ih]

/-- What a write below a route puts at its end is told by what stands there. -/
theorem sight_write?_append (data : FileData) (root route : Route) (t : Tree) :
    (t.write? data (root ++ route)).map (sight root) = (t.sight root).bind fun sub =>
      (sub.elim (some (chain data route)) (write? data route)).map fun sub => some (some sub) := by
  induction root generalizing t with
  | nil => rfl
  | cons name root ih =>
    cases t with
    | file data => rfl
    | folder children =>
      rw [List.cons_append, write?, sight]
      cases children.lookup name with
      | none =>
        rw [Option.map_some, sight_putChild_self, sight_chain_append]
        rfl
      | some t =>
        rw [← ih t, Option.map_map]
        exact Option.map_congr fun u _ => sight_putChild_self name u children

theorem sight_chain_of_apart (h : root.Apart other) (data : FileData) (route : Route) :
    (chain data (root ++ route)).sight other = some none := by
  induction root generalizing other with
  | nil => exact absurd List.nil_prefix h.1
  | cons name root ih =>
    cases other with
    | nil => exact absurd List.nil_prefix h.2
    | cons k other =>
      by_cases hk : name = k
      · subst hk
        simpa [chain, sight] using ih (Route.apart_cons_iff.1 h rfl)
      · have hbeq : (k == name) = false := by simpa using Ne.symm hk
        simp [chain, sight, List.lookup_cons, hbeq]

/-- A write below a route is not seen from routes apart from it. -/
theorem sight_write?_of_apart (h : root.Apart other)
    (hwrite : t.write? data (root ++ route) = some t') : t'.sight other = t.sight other := by
  induction root generalizing other t t' with
  | nil => exact absurd List.nil_prefix h.1
  | cons name root ih =>
    cases other with
    | nil => exact absurd List.nil_prefix h.2
    | cons k other =>
      cases t with
      | file data => cases hwrite
      | folder children =>
        rw [List.cons_append, write?] at hwrite
        by_cases hk : name = k
        · subst hk
          have hapart := Route.apart_cons_iff.1 h rfl
          cases hchild : children.lookup name with
          | none =>
            rw [hchild] at hwrite
            cases hwrite
            rw [sight_putChild_self, sight_chain_of_apart hapart, sight, hchild]
          | some t =>
            rw [hchild] at hwrite
            obtain ⟨u, hu, rfl⟩ := Option.map_eq_some_iff.1 hwrite
            rw [sight_putChild_self, sight, hchild]
            exact ih hapart hu
        · cases hchild : children.lookup name with
          | none =>
            rw [hchild] at hwrite
            cases hwrite
            exact sight_putChild_of_ne (Ne.symm hk) _ _
          | some t =>
            rw [hchild] at hwrite
            obtain ⟨u, -, rfl⟩ := Option.map_eq_some_iff.1 hwrite
            exact sight_putChild_of_ne (Ne.symm hk) _ _

end Tree

/-! ## Steps on trees that look alike -/

namespace Tree

variable {takes : String → Bool} {data : FileData} {stamp : Binary64} {root below other : Route}
  {t t' : Tree}

theorem not_prefix_of_apart (h : root.Apart other) (below : Route) : ¬ other <+: root ++ below := by
  intro hother
  rcases List.prefix_or_prefix_of_prefix hother (List.prefix_append root below) with h' | h'
  · exact h.2 h'
  · exact h.1 h'

/-- Outcomes that are the same as seen from a route. The second one has changed nothing that is seen
from routes apart from it. -/
structure Matching (root : Route) (t' : Tree) (outcome outcome' : Outcome) : Prop where
  result : outcome'.1 = outcome.1
  sight : outcome'.2.sight root = outcome.2.sight root
  beside : ∀ other, root.Apart other → outcome'.2.sight other = t'.sight other

/-- Where a file is in the way of a route no folders are made below it. -/
theorem makeFolders_of_sight_none (hroot : root ≠ []) (h : t.sight root = none) (below : Route) :
    t.makeFolders takes (root ++ below).dropLast = (.error .notFolder, t) := by
  have habove : root.dropLast <+: (root ++ below).dropLast := by
    by_cases hbelow : below = []
    · simp [hbelow]
    · rw [List.dropLast_append_of_ne_nil hbelow]
      exact (List.dropLast_prefix root).trans (List.prefix_append root _)
  exact makeFolders_of_blocked (((sight_eq_none_iff hroot).1 h).mono habove)

/-- Where none is in the way the folders above the route are made, and from its end the tree looks
as before. -/
theorem makeFolders_above (htakes : ∀ name ∈ root, takes name) (hroot : root ≠ [])
    {found : Option Tree} (h : t.sight root = some found) :
    (t.makeFolders takes root.dropLast).1 = .ok () ∧
      (t.makeFolders takes root.dropLast).2.sight root = some found := by
  have hblocked : ¬ t.Blocked root.dropLast := by
    rw [← sight_eq_none_iff hroot, h]
    exact Option.some_ne_none found
  have huntaken : ¬ t.Untaken takes root.dropLast :=
    not_untaken_of_takes fun name hname => htakes name (List.dropLast_subset root hname)
  have hshort : ¬ root <+: root.dropLast := by
    intro hbefore
    have hlength := hbefore.length_le
    have hpos := List.length_pos_of_ne_nil hroot
    rw [List.length_dropLast] at hlength
    omega
  exact ⟨makeFolders_eq_ok_iff.2 ⟨hblocked, huntaken⟩, (sight_makeFolders_of_beside hshort).trans h⟩

theorem matching_makeFolders (htakes : ∀ name ∈ root, takes name)
    (h : t'.sight root = t.sight root) (below : Route) :
    Matching root t' (t.makeFolders takes (root ++ below).dropLast)
      (t'.makeFolders takes (root ++ below).dropLast) := by
  have hbeside (other : Route) (happart : root.Apart other) :
      (t'.makeFolders takes (root ++ below).dropLast).2.sight other = t'.sight other :=
    sight_makeFolders_of_beside fun hother =>
      not_prefix_of_apart happart below (hother.trans (List.dropLast_prefix _))
  by_cases hroot : root = []
  · subst hroot
    cases h
    exact ⟨rfl, rfl, hbeside⟩
  cases hsight : t.sight root with
  | none =>
    rw [makeFolders_of_sight_none hroot hsight,
      makeFolders_of_sight_none hroot (h.trans hsight)]
    exact ⟨rfl, h, fun _ _ => rfl⟩
  | some found =>
    by_cases hbelow : below = []
    · subst hbelow
      rw [List.append_nil] at hbeside ⊢
      obtain ⟨hmade, hseen⟩ := makeFolders_above htakes hroot hsight
      obtain ⟨hmade', hseen'⟩ := makeFolders_above htakes hroot (h.trans hsight)
      exact ⟨hmade'.trans hmade.symm, hseen'.trans hseen.symm, hbeside⟩
    · rw [List.dropLast_append_of_ne_nil hbelow] at hbeside ⊢
      rw [makeFolders_append htakes (h.trans hsight)] at hbeside
      rw [makeFolders_append htakes hsight, makeFolders_append htakes (h.trans hsight)]
      refine ⟨rfl, ?_, hbeside⟩
      rw [sight_of_find? (find?_mount_self _ root t), sight_of_find? (find?_mount_self _ root t')]

/-- A file that is put below a route is put alike in trees that look alike from there. -/
theorem matching_putFile (htakes : ∀ name ∈ root, takes name) (h : t'.sight root = t.sight root)
    (data : FileData) (below : Route) : Matching root t' (t.putFile takes data (root ++ below))
      (t'.putFile takes data (root ++ below)) := by
  have hfind : t'.find? (root ++ below) = t.find? (root ++ below) := by
    rw [find?_append, find?_append, find?_eq_join_sight, h, find?_eq_join_sight]
  have hstumbles : t'.stumbles takes (root ++ below) = t.stumbles takes (root ++ below) := by
    rw [stumbles_append htakes, stumbles_append htakes, h]
  have hwrite := sight_write?_append data root below t'
  rw [h, ← sight_write?_append] at hwrite
  rw [putFile, putFile, hfind, hstumbles]
  split
  · exact ⟨rfl, h, fun _ _ => rfl⟩
  · split
    · exact ⟨rfl, h, fun _ _ => rfl⟩
    · cases ht : t.write? data (root ++ below) with
      | none =>
        rw [ht, Option.map_none, Option.map_eq_none_iff] at hwrite
        rw [hwrite]
        exact ⟨rfl, h, fun _ _ => rfl⟩
      | some u =>
        rw [ht, Option.map_some, Option.map_eq_some_iff] at hwrite
        obtain ⟨u', hu', hsight⟩ := hwrite
        rw [hu']
        exact ⟨rfl, hsight, fun _ happart => sight_write?_of_apart happart hu'⟩

theorem Matching.trans {outcome outcome' : Outcome} {last last' : Outcome}
    (h : Matching root t' outcome outcome') (hlast : Matching root outcome'.2 last last') :
    Matching root t' last last' :=
  ⟨hlast.result, hlast.sight, fun other happart =>
    (hlast.beside other happart).trans (h.beside other happart)⟩

theorem matching_openFile (htakes : ∀ name ∈ root, takes name) (h : t'.sight root = t.sight root)
    (stamp : Binary64) (below : Route) : Matching root t' (t.openFile takes stamp (root ++ below))
      (t'.openFile takes stamp (root ++ below)) := by
  have hfolders := matching_makeFolders htakes h below
  simp only [openFile]
  cases Route.fits (root ++ below).dropLast with
  | false => exact ⟨rfl, h, fun _ _ => rfl⟩
  | true =>
    rcases hmade : t.makeFolders takes (root ++ below).dropLast with ⟨result, made⟩
    rcases hmade' : t'.makeFolders takes (root ++ below).dropLast with ⟨result', made'⟩
    rw [hmade, hmade'] at hfolders
    obtain rfl : result' = result := hfolders.result
    rcases result' with refusal | ⟨⟩
    · exact hfolders
    · cases Route.fits (root ++ below) with
      | false => exact ⟨rfl, hfolders.sight, hfolders.beside⟩
      | true => exact hfolders.trans (matching_putFile htakes hfolders.sight ⟨.empty, stamp⟩ below)

end Tree

/-- A write is told by the vault's folder, and its tree looks as before from elsewhere. -/
theorem Disk.write_of_sight {d : Disk} {tree : Tree} (h : tree.sight d.root = d.tree.sight d.root)
    (path : Spelling) (content : Loose) : ∃ result t t' listings,
      d.write path content = (result, { d with tree := t, listings }) ∧
        write path content { d with tree } = (result, { d with tree := t', listings }) ∧
        t'.sight d.root = t.sight d.root ∧
          ∀ route, d.root.Apart route → t'.sight route = tree.sight route := by
  have hlocate : locate { d with tree } path = d.locate path := rfl
  have htakes : takes { d with tree } = d.takes := rfl
  simp only [write, hlocate, htakes]
  cases d.locate path with
  | error f => exact ⟨.error f, d.tree, tree, d.listings, rfl, rfl, h, fun _ _ => rfl⟩
  | ok route =>
    have hopen := Tree.matching_openFile d.takes_root h d.stamp route
    rcases hopened : d.tree.openFile d.takes d.stamp (d.root ++ route) with ⟨result, opened⟩
    rcases hopened' : tree.openFile d.takes d.stamp (d.root ++ route) with ⟨result', opened'⟩
    rw [hopened, hopened'] at hopen
    obtain rfl : result' = result := hopen.result
    simp only [hopened, hopened']
    rcases result' with refusal | ⟨⟩
    · exact ⟨_, _, _, _, rfl, rfl, hopen.sight, hopen.beside⟩
    · cases content.bytes? with
      | none => exact ⟨_, _, _, _, rfl, rfl, hopen.sight, hopen.beside⟩
      | some bytes =>
        have hput := hopen.trans
          (Tree.matching_putFile d.takes_root hopen.sight ⟨bytes, d.stamp⟩ route)
        exact ⟨_, _, _, _, rfl, rfl, hput.sight, hput.beside⟩

/-! ## Stores that look alike -/

namespace Store

/-- Stores that hold the same files: one in memory, or one folder in trees that may differ beside
it. -/
inductive Alike : Store → Store → Prop
  | memory (m : Memory) : Alike (.memory m) (.memory m)
  | disk {d : Disk} {tree : Tree} :
      tree.sight d.root = d.tree.sight d.root → Alike (.disk d) (.disk { d with tree })

/-- What an access may leave of a store: on disk, nothing beside the vault's folder is changed. -/
inductive Leaves : Store → Store → Prop
  | memory (m m' : Memory) : Leaves (.memory m) (.memory m')
  | disk {d : Disk} {tree : Tree} {listings : List (String × Listing)} :
      (∀ route, Route.Apart d.root route → tree.sight route = d.tree.sight route) →
        Leaves (.disk d) (.disk { d with tree, listings })

variable {s s' s'' : Store}

theorem Alike.refl (s : Store) : s.Alike s := by
  cases s with
  | memory m => exact .memory m
  | disk d => exact .disk rfl

theorem Alike.symm (h : s.Alike s') : s'.Alike s := by
  cases h with
  | memory m => exact .memory m
  | @disk d tree h => exact @disk { d with tree } d.tree h.symm

theorem Alike.trans (h : s.Alike s') (h' : s'.Alike s'') : s.Alike s'' := by
  cases h with
  | memory m => exact h'
  | @disk d tree h =>
    cases h' with
    | disk h' => exact .disk (h'.trans h)

theorem Leaves.refl (s : Store) : s.Leaves s := by
  cases s with
  | memory m => exact .memory m m
  | disk d => exact .disk fun _ _ => rfl

theorem Leaves.trans (h : s.Leaves s') (h' : s'.Leaves s'') : s.Leaves s'' := by
  cases h with
  | memory m m' =>
    cases h' with
    | memory _ m'' => exact .memory m m''
  | disk h =>
    cases h' with
    | disk h' => exact .disk fun route hroute => (h' route hroute).trans (h route hroute)

theorem Alike.notePath_eq (h : s.Alike s') (path : String) :
    s.notePath path = s'.notePath path := by cases h <;> rfl

/-- A step from two stores that has the same result. It leaves them alike, and nothing of a disk
beside a vault's folder is changed. -/
structure SameStep (step : Store → Except Failure α × Store) (s s' : Store) : Prop where
  result : (step s').1 = (step s).1
  alike : (step s).2.Alike (step s').2
  leaves : s'.Leaves (step s').2

theorem SameStep.list (h : s.Alike s') (now : Binary64) (directory : Option String) :
    SameStep (Store.list now directory) s s' := by
  cases h with
  | memory m => exact ⟨rfl, .memory m, .memory m m⟩
  | @disk d tree h =>
    obtain ⟨result, listings, hd, hd'⟩ :=
      Disk.list_of_sight h now (directory.map Spelling.ofText)
    constructor <;> simp only [Store.list, hd, hd']
    · exact @Alike.disk { d with listings } tree h
    · exact .disk fun _ _ => rfl

theorem SameStep.read (h : s.Alike s') (path : String) : SameStep (Store.read path) s s' := by
  cases h with
  | memory m => exact ⟨rfl, .refl _, .memory m _⟩
  | @disk d tree h =>
    exact ⟨Disk.read_of_sight h path, .disk h, .refl _⟩

theorem SameStep.write (h : s.Alike s') (path content : String) :
    SameStep (Store.write path content) s s' := by
  cases h with
  | memory m => exact ⟨rfl, .refl _, .memory m _⟩
  | @disk d tree h =>
    obtain ⟨result, t, t', listings, hd, hd', hsight, hbeside⟩ :=
      Disk.write_of_sight h path content
    constructor <;> simp only [Store.write, hd, hd']
    · exact @Alike.disk { d with tree := t, listings } t' hsight
    · exact @Leaves.disk { d with tree } t' listings hbeside

end Store

/-- An operation that has the same result on two vaults. It leaves their stores alike, and nothing
else of the vaults is changed, nor of a disk beside a vault's folder. -/
def SameAccess (op : VaultM α) (now : Binary64) (v w : Vault) : Prop :=
  ∃ result store store', op now v = (result, { v with store }) ∧
    op now w = (result, { w with store := store' }) ∧ store.Alike store' ∧ w.store.Leaves store'

namespace SameAccess

variable {now : Binary64} {v w : Vault}

theorem of_step {op : VaultM α} {step : Store → Except Failure α × Store}
    (h : Store.SameStep step v.store w.store)
    (hop : ∀ v : Vault, op now v = ((step v.store).1, { v with store := (step v.store).2 })) :
    SameAccess op now v w := by
  refine ⟨(step v.store).1, (step v.store).2, (step w.store).2, hop v, ?_, h.alike, h.leaves⟩
  rw [hop, h.result]

theorem attempt {op : VaultM α} (h : SameAccess op now v w) :
    SameAccess (Vault.attempt op) now v w := by
  obtain ⟨result, store, store', hv, hw, halike, hleaves⟩ := h
  refine ⟨.ok result, store, store', ?_, ?_, halike, hleaves⟩
  · rw [run_attempt, hv]
  · rw [run_attempt, hw]

theorem bind {op : VaultM α} {next : α → VaultM β} (h : SameAccess op now v w)
    (hnext : ∀ a v w, v.store.Alike w.store → SameAccess (next a) now v w) :
    SameAccess (op >>= next) now v w := by
  obtain ⟨result, store, store', hv, hw, halike, hleaves⟩ := h
  rw [SameAccess, run_bind, run_bind, hv, hw]
  cases result with
  | error f => exact ⟨.error f, store, store', rfl, rfl, halike, hleaves⟩
  | ok a =>
    obtain ⟨result, last, last', hv, hw, hlast, hrest⟩ :=
      hnext a { v with store } { w with store := store' } halike
    exact ⟨result, last, last', hv, hw, hlast, hleaves.trans hrest⟩

theorem result (h : v.store.Alike w.store) (r : Except Failure α) :
    SameAccess (MonadExcept.ofExcept r) now v w :=
  ⟨r, v.store, w.store, run_ofExcept now v r, run_ofExcept now w r, h, .refl _⟩

theorem text (h : v.store.Alike w.store) (path : String) :
    SameAccess (Vault.readText path) now v w := of_step (.read h path) fun _ => rfl

theorem note (h : v.store.Alike w.store) (path : String) :
    SameAccess (Vault.readNote path) now v w := by
  have hread : SameAccess (Vault.readText (v.store.notePath path) >>= fun content =>
      MonadExcept.ofExcept ((Note.ofText (v.store.notePath path) content).mapError
        Failure.metadata)) now v w :=
    (text h (v.store.notePath path)).bind fun _ _ _ h => result h _
  have hnote (v : Vault) : Vault.readNote path now v =
      (Vault.readText (v.store.notePath path) >>= fun content => MonadExcept.ofExcept
        ((Note.ofText (v.store.notePath path) content).mapError Failure.metadata)) now v := rfl
  rw [SameAccess, hnote, hnote, ← h.notePath_eq]
  exact hread

end SameAccess

/-- An access to vaults whose stores are alike sees no difference between them. -/
theorem Accesses.alike {op : VaultM α} (h : Accesses op) (now : Binary64) {v w : Vault}
    (hstores : v.store.Alike w.store) : SameAccess op now v w := by
  induction h generalizing v w with
  | result r => exact .result hstores r
  | list directory => exact .of_step (.list hstores now directory) fun _ => rfl
  | text path => exact .text hstores path
  | note path => exact .note hstores path
  | write path content => exact .of_step (.write hstores path content) fun _ => rfl
  | attempt _ ih => exact (ih hstores).attempt
  | bind _ _ hop hnext => exact (hop hstores).bind fun a _ _ h => hnext a h

/-- An access changes nothing of a vault but its store. -/
theorem Accesses.exists_run {op : VaultM α} (h : Accesses op) (now : Binary64) (v : Vault) :
    ∃ result store, op now v = (result, { v with store }) := by
  obtain ⟨result, store, -, hv, -⟩ := h.alike now (.refl v.store)
  exact ⟨result, store, hv⟩

/-! ## The graph -/

namespace GraphMemo

/-- Memos that show the same graph. How often they were invalidated does not show. -/
structure Agrees (m m' : GraphMemo) : Prop where
  builds : m.builds = m'.builds
  snapshot : m.snapshot = m'.snapshot

theorem Agrees.invalidate {m m' : GraphMemo} (h : m.Agrees m') :
    m.invalidate.Agrees m'.invalidate := ⟨h.builds, rfl⟩

/-- A memo after a build during which nothing else happened. -/
def keep (g : Graph) (m : GraphMemo) : GraphMemo := (m.finish m.generation g).2

theorem Agrees.keep {m m' : GraphMemo} (h : m.Agrees m') (g : Graph) :
    (m.keep g).Agrees (m'.keep g) := by
  obtain ⟨hbuilds, -⟩ := h
  constructor
  · simp [GraphMemo.keep, finish, hbuilds]
  · simp [GraphMemo.keep, finish, hbuilds]

end GraphMemo

namespace Vault

variable (now : Binary64) (v : Vault)

/-- What a build does with each note of the listing. -/
def takeIn (f : FileEntry) : VaultM (Option ReadNote) := do
  MonadExcept.ofExcept (Build.taken f (← attempt (readText f.path)))

/-- What a build reads. -/
def gather : VaultM (List ReadNote) := do
  (← list none).filter FileEntry.isNote |>.filterMapM takeIn

theorem accesses_takeIn (f : FileEntry) : Accesses (takeIn f) :=
  (Accesses.text f.path).attempt.bind fun _ => .result _

theorem accesses_gather : Accesses gather := by
  have hgather := (Accesses.list none).bind fun files =>
    .filterMapM accesses_takeIn (files.filter FileEntry.isNote)
  exact hgather

theorem run_takeIn (f : FileEntry) :
    takeIn f now v = (Reply.taken buildReader (Backend.reply listedPath f v.store).1,
      { v with store := (Backend.reply listedPath f v.store).2 }) := by
  simp [takeIn, run_bind, run_readText, Build.taken, Reply.taken, buildReader, Backend.reply,
    listedPath]

theorem run_advanceTimes_takeIn (start : Nat) (fs : List FileEntry) (notes : List ReadNote) :
    advanceTimes (fun _ => pure ()) fs.length ⟨start, some fs, notes⟩ now v =
      ((fs.filterMapM takeIn now v).1.map fun taken => ⟨start, some [], notes ++ taken⟩,
        (fs.filterMapM takeIn now v).2) := by
  induction fs generalizing v notes with
  | nil => simp [advanceTimes, Except.map]
  | cons f fs ih =>
    simp only [List.length_cons, advanceTimes, Build.next?, Option.bind_some, List.head?_cons,
      run_bind, run_pure, run_advance, List.filterMapM_cons, run_takeIn]
    rcases Reply.taken buildReader (Backend.reply listedPath f v.store).1 with e | _ | note
    · rfl
    · simp [Except.map, ih]
    · simp only [Except.map, ih, run_bind, run_pure]
      rcases fs.filterMapM takeIn now _ with ⟨_ | taken, w⟩
      · rfl
      · simp

/-- A build puts a graph together from what it reads. -/
theorem run_build : build now v = match gather now v with
    | (.error f, w) => (.error f, w)
    | (.ok notes, w) => match Graph.ofNotes? notes with
      | none => (.error .danglingLink, w)
      | some g => (.ok ⟨v.memo.builds, g⟩, { w with memo := v.memo.keep g }) := by
  simp only [build, buildWith, gather, run_bind, run_get, run_advance_start, run_list]
  cases (Backend.list now none v.store).1 with
  | error f => rfl
  | ok files =>
    simp only [Except.map, Build.listed, Build.start, Option.getD_some, run_advanceTimes_takeIn]
    obtain ⟨result, store, hrun⟩ :=
      (Accesses.filterMapM accesses_takeIn (files.filter FileEntry.isNote)).exists_run now
        { v with store := (Backend.list now none v.store).2 }
    rw [hrun]
    rcases result with f | notes
    · rfl
    · simp only [List.nil_append, finishBuild, Build.finish]
      cases Graph.ofNotes? notes <;> simp [GraphMemo.finish, GraphMemo.keep]

/-- The graph is the one that the memo shows, or the one that a build keeps. -/
theorem run_graph : graph now v = match v.memo.snapshot with
    | some s => (.ok s.graph, v)
    | none => ((build now v).1.map (·.graph), (build now v).2) := by
  rw [graph, run_bind_pure]
  simp only [snapshot, run_bind, run_get]
  cases v.memo.snapshot <;> rfl

end Vault

/-- Vaults that show the same files and the same graph. -/
structure Vault.Alike (v w : Vault) : Prop where
  store : v.store.Alike w.store
  memo : v.memo.Agrees w.memo

theorem Vault.Alike.refl (v : Vault) : Vault.Alike v v := ⟨.refl v.store, rfl, rfl⟩

theorem Vault.Alike.symm {v w : Vault} (h : Vault.Alike v w) : Vault.Alike w v :=
  ⟨h.store.symm, h.memo.builds.symm, h.memo.snapshot.symm⟩

theorem Vault.Alike.trans {u v w : Vault} (h : Vault.Alike u v) (h' : Vault.Alike v w) :
    Vault.Alike u w :=
  ⟨h.store.trans h'.store, h.memo.builds.trans h'.memo.builds,
    h.memo.snapshot.trans h'.memo.snapshot⟩

/-- Asking vaults that are alike for the graph has the same result, and leaves them alike. -/
theorem Vault.Alike.graph {v w : Vault} (h : Vault.Alike v w) (now : Binary64) :
    ∃ result v' w', Vault.graph now v = (result, v') ∧ Vault.graph now w = (result, w') ∧
      Vault.Alike v' w' ∧ v'.name = v.name ∧ w.store.Leaves w'.store := by
  rw [run_graph, run_graph, ← h.memo.snapshot]
  cases v.memo.snapshot with
  | some s => exact ⟨_, _, _, rfl, rfl, h, rfl, .refl _⟩
  | none =>
    obtain ⟨result, store, store', hv, hw, hstores, hleaves⟩ := accesses_gather.alike now h.store
    simp only [run_build, hv, hw]
    cases result with
    | error f => exact ⟨_, _, _, rfl, rfl, ⟨hstores, h.memo⟩, rfl, hleaves⟩
    | ok notes =>
      dsimp only
      cases Graph.ofNotes? notes with
      | none => exact ⟨_, _, _, rfl, rfl, ⟨hstores, h.memo⟩, rfl, hleaves⟩
      | some g => exact ⟨.ok g, _, _, rfl, rfl, ⟨hstores, h.memo.keep g⟩, rfl, hleaves⟩

end MarkdownVault
