import Mathlib.Data.List.Forall2
import MarkdownVault.Proofs.Vault.Reading
import MarkdownVault.Proofs.Vault.Steps

/-!
# What a write leaves

A write that succeeds leaves one file with new contents and all others as they were, on disk and in
memory. What was written is read back, unless reading fails. An operation that fails may leave a
mark of what it read, or folders that the file system made before it refused, and nothing else.
-/

namespace MarkdownVault

/-! ## Texts -/

theorem Text.plainLines_of_notMem {cs : List Char} (h : '\r' ∉ cs) : plainLines cs = cs := by
  fun_induction plainLines cs with
  | case1 => simp at h
  | case2 c cs _ ih =>
    have hc : c ≠ '\r' := fun heq => h (heq ▸ List.mem_cons_self)
    rw [if_neg hc, ih fun hmem => h (List.mem_cons_of_mem c hmem)]
  | case3 => rfl

theorem Text.mapChars_plainLines {content : String} (h : '\r' ∉ content.toList) :
    mapChars plainLines content = content := by
  rw [mapChars, plainLines_of_notMem h, String.ofList_toList]

/-! ## Stores -/

namespace Memory

variable {path other content : String} {files : List (String × String)}

theorem lookup_put_self (path content : String) (files : List (String × String)) :
    (put path content files).lookup path = some content :=
  lookup_placed_self (put path content) rfl (fun _ _ => rfl) files

theorem lookup_put_of_ne (h : other ≠ path) (content : String) (files : List (String × String)) :
    (put path content files).lookup other = files.lookup other :=
  lookup_placed_of_ne (put path content) rfl (fun _ _ => rfl) h files

end Memory

namespace Store

/-- A store without the marks of what was read. -/
def unread : Store → Store
  | disk d => disk d
  | memory m => memory { m with reads := [] }

/-- What a write of a text leaves of a store: the file at the path holds the text, every other file
is as it was. Listings are dropped, and files may have been read before. -/
inductive Wrote (path content : String) : Store → Store → Prop where
  | disk {d : Disk} {tree : Tree} {route : Route} (located : d.locate path = .ok route)
      (file : tree.read? (d.root ++ route) = some ⟨content.toUTF8, d.stamp⟩)
      (others : ∀ other, other ≠ d.root ++ route → tree.read? other = d.tree.read? other) :
      Wrote path content (.disk d) (.disk { d with tree, listings := [] })
  | memory {m : Memory} {files : List (String × String)} {reads : List String}
      (file : files.lookup path = some content)
      (others : ∀ other, other ≠ path → files.lookup other = m.files.lookup other) :
      Wrote path content (.memory m) (.memory { m with files, reads })

variable {path content : String} {s s' : Store}

theorem unread_read (path : String) (s : Store) : (s.read path).2.unread = s.unread := by
  cases s <;> rfl

theorem wrote_of_write (h : s.write path content = (.ok (), s')) : Wrote path content s s' := by
  cases s with
  | memory m =>
    cases h
    exact .memory (Memory.lookup_put_self path content m.files) fun other hother =>
      Memory.lookup_put_of_ne hother content m.files
  | disk d =>
    simp only [write] at h
    generalize hwrite : d.write path content = outcome at h
    cases hwrite ▸ Disk.writes_write path content d with
    | refused => cases h
    | unopened => cases h
    | emptied => cases h
    | written hlocate _ hbytes hput =>
      cases h
      rw [Loose.bytes?_ofText] at hbytes
      obtain rfl := Option.some.inj hbytes
      exact .disk hlocate (Tree.read?_write?_self hput) fun other hother =>
        Tree.read?_write?_of_ne hput hother

/-- What an operation that fails may leave of a store: marks of what was read, and folders that were
missing if the file system refuses to write. -/
inductive Spared : Failure → Store → Store → Prop
  | unread {f : Failure} {s s' : Store} (same : s'.unread = s.unread) : Spared f s s'
  | folders {d : Disk} {tree : Tree} (same : ∀ route, tree.standing route = d.tree.standing route ∨
      d.tree.standing route = .nothing ∧ tree.standing route = .folder) :
      Spared .system (.disk d) (.disk { d with tree })

theorem spared_of_write {f : Failure} (h : s.write path content = (.error f, s')) :
    Spared f s s' := by
  cases s with
  | memory m => cases h
  | disk d =>
    simp only [write] at h
    generalize hwrite : d.write path content = outcome at h
    cases hwrite ▸ Disk.writes_write path content d with
    | refused =>
      cases h
      exact .unread rfl
    | unopened _ hopen =>
      cases h
      refine .folders fun route => ?_
      rcases Tree.openFile_error hopen with rfl | rfl
      · exact .inl rfl
      · exact (Tree.standing_makeFolders_cases _ _ route _).imp_right And.right
    | emptied _ _ hbytes =>
      rw [Loose.bytes?_ofText] at hbytes
      cases hbytes
    | written => cases h

theorem Spared.of_read {f : Failure} {other : String} (h : Spared f (s.read other).2 s') :
    Spared f s s' := by
  cases s with
  | disk d => exact h
  | memory m =>
    cases h with
    | unread same => exact .unread same

/-- A read that comes before a write does not count. -/
theorem Wrote.of_read {other : String} (h : Wrote path content (s.read other).2 s') :
    Wrote path content s s' := by
  cases s with
  | disk d => exact h
  | memory m =>
    cases h with
    | memory hfile hothers => exact .memory hfile hothers

/-- What was written is what is read, if reading does not fail. -/
theorem Wrote.read (h : Wrote path content s s') (hreturn : '\r' ∉ content.toList) {text : String}
    (hread : (s'.read path).1 = .ok text) : text = content := by
  cases h with
  | @disk d tree route hlocate hfile _ =>
    have hlocated : Disk.locate { d with tree, listings := [] } path = .ok route := hlocate
    simp only [Store.read, Disk.read, hlocated] at hread
    simp only [bind, Except.bind, hfile, FileData.text?_toUTF8] at hread
    rw [Text.mapChars_plainLines hreturn] at hread
    exact (Except.ok.inj hread).symm
  | memory hfile _ =>
    simp only [Store.read, Memory.read, hfile] at hread
    split at hread
    · cases hread
    · exact (Except.ok.inj hread).symm

end Store

/-! ## Vaults -/

namespace Vault

variable {path content : String} {now : Binary64} {v v' : Vault}

/-- What a write through a vault leaves of it: the file is written and the graph forgotten. -/
structure Wrote (path content : String) (v v' : Vault) : Prop where
  name : v'.name = v.name
  memo : v'.memo = v.memo.invalidate
  store : v.store.Wrote path content v'.store

/-- What an operation that fails may leave of a vault. -/
structure Spared (f : Failure) (v v' : Vault) : Prop where
  name : v'.name = v.name
  memo : v'.memo = v.memo
  store : v.store.Spared f v'.store

theorem Spared.refl (f : Failure) (v : Vault) : Spared f v v := ⟨rfl, rfl, .unread rfl⟩

/-- The graph is forgotten if a write through a vault succeeds. -/
theorem run_writeThrough (path content : String) (now : Binary64) (v : Vault) :
    writeThrough path content now v = match v.store.write path content with
      | (.ok (), store) => (.ok (), { v with store, memo := v.memo.invalidate })
      | (.error f, store) => (.error f, { v with store }) := by
  rw [writeThrough, run_bind]
  simp only [write, onStore]
  rcases v.store.write path content with ⟨_ | ⟨⟩, store⟩ <;> rfl

theorem wrote_of_writeThrough (h : writeThrough path content now v = (.ok (), v')) :
    v.Wrote path content v' := by
  rw [run_writeThrough] at h
  rcases hwrite : v.store.write path content with ⟨f | ⟨⟩, store⟩
  · rw [hwrite] at h
    cases h
  · rw [hwrite] at h
    cases h
    exact ⟨rfl, rfl, Store.wrote_of_write hwrite⟩

theorem spared_of_writeThrough {f : Failure}
    (h : writeThrough path content now v = (.error f, v')) : Spared f v v' := by
  rw [run_writeThrough] at h
  rcases hwrite : v.store.write path content with ⟨g | ⟨⟩, store⟩
  · rw [hwrite] at h
    cases h
    exact ⟨rfl, rfl, Store.spared_of_write hwrite⟩
  · rw [hwrite] at h
    cases h

end Vault

/-! ## Sessions -/

namespace Session

variable {α : Type} {name : Option String} {op : VaultM α} {s s' : Session} {v v' : Vault}

/-- What an operation that fails may leave of a session. -/
structure Spared (f : Failure) (s s' : Session) : Prop where
  clock : s'.clock = s.clock
  vaults : List.Forall₂ (Vault.Spared f) s.vaults s'.vaults

/-- What a write through the vault that a name means leaves of a session. -/
def Wrote (name : Option String) (path content : String) (s s' : Session) : Prop :=
  ∃ v v', s.find name = .ok v ∧ v.Wrote path content v' ∧
    s' = { s with vaults := putVault v' s.vaults }

/-- The first vault with its name is replaced, and no other. -/
theorem putVault_split {vs : List Vault} (h : vs.find? (·.name == v'.name) = some v) :
    ∃ before after, (∀ w ∈ before, w.name ≠ v'.name) ∧ vs = before ++ v :: after ∧
      putVault v' vs = before ++ v' :: after := by
  induction vs with
  | nil => cases h
  | cons w ws ih =>
    by_cases hw : w.name = v'.name
    · rw [List.find?_cons_of_pos (by simpa using hw)] at h
      cases h
      exact ⟨[], ws, by simp, rfl, by simp [putVault, hw]⟩
    · rw [List.find?_cons_of_neg (by simpa using hw)] at h
      obtain ⟨before, after, hbefore, hws, hput⟩ := ih h
      refine ⟨w :: before, after, List.forall_mem_cons.2 ⟨hw, hbefore⟩, ?_, ?_⟩
      · rw [hws, List.cons_append]
      · rw [putVault, if_neg hw, hput, List.cons_append]

/-- The name that a vault is looked up by. -/
def keyOf (name : Option String) (first : Vault) : String :=
  (name.filter (!·.isEmpty)).getD first.name

theorem find_eq_ok_iff : s.find name = .ok v ↔
    ∃ first, s.vaults.head? = some first ∧
      s.vaults.find? (·.name == keyOf name first) = some v ∧ v.name.isEmpty = false := by
  rw [find]
  cases hvaults : s.vaults with
  | nil => simp
  | cons first rest =>
    simp only [List.head?_cons, Option.some.injEq, exists_eq_left']
    rw [keyOf]
    cases (first :: rest).find? _ with
    | none => simp
    | some w =>
      cases hw : w.name.isEmpty with
      | true =>
        simp only [Option.filter, hw, Bool.not_true, Bool.false_eq_true, if_false, reduceCtorEq,
          Option.some.injEq, false_iff, not_and, Bool.not_eq_false]
        rintro rfl
        exact hw
      | false =>
        simp only [Option.filter, hw, Bool.not_false, if_true, Except.ok.injEq, Option.some.injEq]
        exact ⟨fun heq => ⟨heq, heq ▸ hw⟩, And.left⟩

theorem find?_of_find (h : s.find name = .ok v) : s.vaults.find? (·.name == v.name) = some v := by
  obtain ⟨first, -, hfind, -⟩ := find_eq_ok_iff.1 h
  have hkey : v.name = keyOf name first := by simpa using List.find?_some hfind
  rwa [hkey]

/-- A vault that takes the place of the one that is meant is the one that is meant then. -/
theorem find_putVault (h : s.find name = .ok v) (hname : v'.name = v.name) :
    find name { s with vaults := putVault v' s.vaults } = .ok v' := by
  obtain ⟨first, hfirst, hfind, hempty⟩ := find_eq_ok_iff.1 h
  have hkey : v.name = keyOf name first := by simpa using List.find?_some hfind
  have hput : s.vaults.find? (·.name == v'.name) = some v := by rw [hname]; exact find?_of_find h
  obtain ⟨before, after, hbefore, hvaults, hput⟩ := putVault_split hput
  have hhead : ∃ w, (before ++ v' :: after).head? = some w ∧ w.name = first.name := by
    rw [hvaults] at hfirst
    cases before with
    | nil =>
      cases hfirst
      exact ⟨v', rfl, hname⟩
    | cons w before =>
      obtain rfl : w = first := Option.some.inj hfirst
      exact ⟨w, rfl, rfl⟩
  obtain ⟨w, hw, hwname⟩ := hhead
  have hkeys : keyOf name w = v'.name := by rw [keyOf, hwname, hname, hkey, keyOf]
  refine find_eq_ok_iff.2 ⟨w, by rw [hput, hw], ?_, by rw [hname, hempty]⟩
  rw [hput, hkeys, List.find?_append, List.find?_eq_none.2 (by simpa using hbefore)]
  simp

theorem on_of_find (h : s.find name = .ok v) (op : VaultM α) :
    on name op s = ((op s.clock v).1,
      { s with vaults := putVault (op s.clock v).2 s.vaults }) := by
  rw [on, h]
  rfl

theorem on_of_error {f : Failure} (h : s.find name = .error f) (op : VaultM α) :
    on name op s = (.error f, s) := by rw [on, h]

theorem exists_of_on_ok {a : α} (h : on name op s = (.ok a, s')) :
    ∃ v v', s.find name = .ok v ∧ op s.clock v = (.ok a, v') ∧
      s' = { s with vaults := putVault v' s.vaults } := by
  cases hfind : s.find name with
  | error f =>
    rw [on_of_error hfind] at h
    cases h
  | ok v =>
    rw [on_of_find hfind] at h
    obtain ⟨hresult, rfl⟩ := Prod.mk.inj h
    exact ⟨v, (op s.clock v).2, rfl, Prod.ext hresult rfl, rfl⟩

theorem Spared.refl (f : Failure) (s : Session) : Spared f s s :=
  ⟨rfl, List.forall₂_same.2 fun v _ => .refl f v⟩

/-- An operation that spares its vault when it fails spares the session. -/
theorem spared_of_on_error {f : Failure} (h : on name op s = (.error f, s'))
    (hop : ∀ v v', op s.clock v = (.error f, v') → Vault.Spared f v v') : Spared f s s' := by
  cases hfind : s.find name with
  | error g =>
    rw [on_of_error hfind] at h
    cases h
    exact .refl f s
  | ok v =>
    rw [on_of_find hfind] at h
    obtain ⟨hresult, rfl⟩ := Prod.mk.inj h
    have hv := hop v (op s.clock v).2 (Prod.ext hresult rfl)
    have hput : s.vaults.find? (·.name == (op s.clock v).2.name) = some v := by
      rw [hv.name]
      exact find?_of_find hfind
    obtain ⟨before, after, -, hvaults, hput⟩ := putVault_split hput
    have hsame (vs : List Vault) : List.Forall₂ (Vault.Spared f) vs vs :=
      List.forall₂_same.2 fun w _ => .refl f w
    refine ⟨rfl, ?_⟩
    rw [hput, hvaults]
    exact List.rel_append (hsame before) (.cons hv (hsame after))

end Session

end MarkdownVault
