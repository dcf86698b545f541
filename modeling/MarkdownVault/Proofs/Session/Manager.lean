import Mathlib.Data.List.Nodup
import MarkdownVault.Proofs.Session.Addressing

/-!
# Vaults, backends and builders apart

A manager knows backends by the names of vaults and looks one up for every step. Graphs are kept by
builders. A builder is made when a graph is first asked for, and kept under a name that is made out
apart from the lookup of the backend. All vaults on disk are folders of one tree.

As long as no two names lead to the same files, a session with each vault by itself answers just as
such a manager.
-/

namespace MarkdownVault

/-- Where the files of a vault are: in a folder of the tree that all vaults on disk share, or in
memory. -/
inductive Place where
  | disk (name : String) (root : Route) (stamp : Binary64) (listings : List (String × Listing))
  | memory (m : Memory)

namespace Place

def inTree (tree : Tree) : Place → Store
  | .disk name root stamp listings => .disk ⟨name, root, tree, stamp, listings⟩
  | .memory m => .memory m

def ofStore : Store → Place
  | .disk d => .disk d.name d.root d.stamp d.listings
  | .memory m => .memory m

/-- The route to the files, if they are on disk. -/
def root? : Place → Option Route
  | .disk _ root _ _ => some root
  | .memory _ => none

end Place

/-- The tree with the files of a store, another one if they are in memory. -/
def Store.treeOr (tree : Tree) : Store → Tree
  | .disk d => d.tree
  | .memory _ => tree

namespace Place

variable (tree : Tree)

@[simp] theorem ofStore_inTree (p : Place) : ofStore (p.inTree tree) = p := by cases p <;> rfl

@[simp] theorem treeOr_inTree (p : Place) : (p.inTree tree).treeOr tree = tree := by cases p <;> rfl

@[simp] theorem inTree_ofStore (s : Store) : (ofStore s).inTree (s.treeOr tree) = s := by
  cases s <;> rfl

end Place

/-- What keeps the graph of a backend. -/
structure Builder where
  backend : Nat
  memo : GraphMemo

structure Manager where
  /-- The backends of the vaults, by name. -/
  backends : List (String × Nat)
  /-- The name of the vault that is meant when none is named. -/
  standard : Option String
  places : Nat → Place
  tree : Tree
  builders : String → Option Builder
  clock : Binary64

namespace Manager

variable {α : Type}

def names (m : Manager) : List String := m.backends.map (·.1)

/-- A manager without vaults. -/
def empty (places : Nat → Place) (tree : Tree) (clock : Binary64) : Manager :=
  ⟨[], none, places, tree, fun _ => none, clock⟩

/-- The backends with one of them put in place of the old one of its name, or at the end. -/
def putBackend (name : String) (ref : Nat) : List (String × Nat) → List (String × Nat)
  | [] => [(name, ref)]
  | b :: bs => if b.1 = name then (name, ref) :: bs else b :: putBackend name ref bs

/-- Adds a vault. The first one is the one that is meant when none is named. -/
def connect (name : String) (ref : Nat) (m : Manager) : Manager :=
  { m with backends := putBackend name ref m.backends, standard := m.standard.or (some name) }

/-- The backend of the vault that an address means. -/
def backend (vault : Option String) (m : Manager) : Except Failure Nat :=
  if m.backends.isEmpty then .error .noVaults
  else match ((Address.key m.standard vault).filter (!·.isEmpty)).bind fun key =>
      m.backends.lookup key with
    | some ref => .ok ref
    | none => .error (.unknownVault vault m.names)

/-- The name under which the builder for an address is kept. -/
def builderKey (vault : Option String) (m : Manager) : Except Failure String :=
  (m.backend vault).map fun _ => (Address.key m.standard vault).getD ""

def store (ref : Nat) (m : Manager) : Store := (m.places ref).inTree m.tree

def putStore (ref : Nat) (s : Store) (m : Manager) : Manager :=
  { m with places := Function.update m.places ref (.ofStore s), tree := s.treeOr m.tree }

def putBuilder (key : String) (b : Builder) (m : Manager) : Manager :=
  { m with builders := Function.update m.builders key (some b) }

/-- Has an operation access the files of a backend, with a memo of its graph. -/
def access (ref : Nat) (memo : GraphMemo) (op : VaultM α) (m : Manager) :
    Except Failure α × Vault := op m.clock ⟨(m.store ref).name, m.store ref, memo⟩

def files (vault : Option String) (op : VaultM α) : StateOp Manager α := fun m =>
  match m.backend vault with
  | .error f => (.error f, m)
  | .ok ref =>
    let (result, v) := m.access ref .empty op
    (result, m.putStore ref v.store)

/-- The builder for an address and the name that it is kept under. It is made if there is none. -/
def builder (vault : Option String) : StateOp Manager (String × Builder) := fun m =>
  match m.builderKey vault with
  | .error f => (.error f, m)
  | .ok key => match m.builders key with
    | some b => (.ok (key, b), m)
    | none => match m.backend vault with
      | .error f => (.error f, m)
      | .ok ref => (.ok (key, ⟨ref, .empty⟩), m.putBuilder key ⟨ref, .empty⟩)

def graph (vault : Option String) : StateOp Manager Graph :=
  builder vault >>= fun (key, b) m =>
    let (result, v) := m.access b.backend b.memo Vault.graph
    (result, (m.putStore b.backend v.store).putBuilder key ⟨b.backend, v.memo⟩)

/-- Has the graph forgotten if there is a builder that may keep one. -/
def forget (vault : Option String) : StateOp Manager Unit := fun m =>
  match m.builderKey vault with
  | .error f => (.error f, m)
  | .ok key => match m.builders key with
    | none => (.ok (), m)
    | some b => (.ok (), m.putBuilder key { b with memo := b.memo.invalidate })

def port (vault : Option String) : Port Manager := ⟨files vault, graph vault, forget vault⟩

def perform (vault : Option String) (request : Session.Request) : StateOp Manager Session.Answer :=
  request.script.run (port vault)

def tick (seconds : Binary64) (m : Manager) : Manager := { m with clock := m.clock.add seconds }

/-- A manager at work. -/
def system : System Manager := ⟨perform, tick⟩

/-! ## The vaults of a manager -/

def memo (name : String) (m : Manager) : GraphMemo := ((m.builders name).map (·.memo)).getD .empty

/-- A vault by itself. -/
def vault (name : String) (ref : Nat) (m : Manager) : Vault := ⟨name, m.store ref, m.memo name⟩

/-- The session that holds each vault by itself. -/
def session (m : Manager) : Session :=
  ⟨m.backends.map fun (name, ref) => m.vault name ref, m.clock⟩

/-- Every name is there once, and the first one is meant when none is given. -/
structure WellNamed (m : Manager) : Prop where
  names : m.names.Nodup
  standard : m.standard = m.names.head?

/-- No two names lead to the same backend, no two backends to the same files, and the builders
are over the backends of their vaults. -/
structure Separate (m : Manager) : Prop extends WellNamed m where
  backends : (m.backends.map (·.2)).Nodup
  roots : ∀ ref ∈ m.backends.map (·.2), ∀ ref' ∈ m.backends.map (·.2), ref ≠ ref' →
    ∀ root ∈ (m.places ref).root?, ∀ root' ∈ (m.places ref').root?, root.Apart root'
  builders : ∀ name b, m.builders name = some b → m.backends.lookup name = some b.backend

/-- A session that holds by itself what each vault of a manager shows. -/
structure Represents (s : Session) (m : Manager) : Prop where
  separate : m.Separate
  clock : s.clock = m.clock
  names : s.names = m.names
  vaults : ∀ name ref, m.backends.lookup name = some ref →
    ∃ v, s.vault? name = some v ∧ Vault.Alike v (m.vault name ref)

variable {m : Manager} {s : Session} {name : String} {ref : Nat}

theorem map_fst_putBackend (name : String) (ref : Nat) (bs : List (String × Nat)) :
    (putBackend name ref bs).map (·.1) =
      if name ∈ bs.map (·.1) then bs.map (·.1) else bs.map (·.1) ++ [name] := by
  induction bs with
  | nil => rfl
  | cons b bs ih =>
    by_cases hb : b.1 = name
    · simp [putBackend, hb]
    · rw [putBackend, if_neg hb, List.map_cons, ih, List.map_cons]
      by_cases hmem : name ∈ bs.map (·.1)
      · rw [if_pos hmem, if_pos (.tail _ hmem)]
      · have hnot : name ∉ b.1 :: bs.map (·.1) :=
          List.not_mem_cons_of_ne_of_not_mem (Ne.symm hb) hmem
        rw [if_neg hmem, if_neg hnot, List.cons_append]

theorem wellNamed_empty (places : Nat → Place) (tree : Tree) (clock : Binary64) :
    (empty places tree clock).WellNamed := ⟨.nil, rfl⟩

/-- Names stay in order however vaults are added. -/
theorem WellNamed.connect (h : m.WellNamed) (name : String) (ref : Nat) :
    (m.connect name ref).WellNamed := by
  have hnames : (m.connect name ref).names =
      if name ∈ m.names then m.names else m.names ++ [name] :=
    map_fst_putBackend name ref m.backends
  have hstandard : (m.connect name ref).standard = m.standard.or (some name) := rfl
  by_cases hmem : name ∈ m.names
  · rw [if_pos hmem] at hnames
    refine ⟨hnames ▸ h.names, ?_⟩
    rw [hstandard, hnames, h.standard]
    cases hhead : m.names with
    | nil => simp [hhead] at hmem
    | cons first rest => rfl
  · rw [if_neg hmem] at hnames
    refine ⟨?_, ?_⟩
    · rw [hnames]
      exact h.names.append (List.nodup_singleton name) (by simpa using hmem)
    · rw [hstandard, hnames, h.standard]
      cases m.names <;> rfl

theorem places_putStore_self (ref : Nat) (store : Store) (m : Manager) :
    (m.putStore ref store).places ref = .ofStore store := Function.update_self ..

theorem places_putStore_of_ne {ref' : Nat} (hne : ref' ≠ ref) (store : Store) (m : Manager) :
    (m.putStore ref store).places ref' = m.places ref' := Function.update_of_ne hne ..

theorem putStore_store (ref : Nat) (m : Manager) : m.putStore ref (m.store ref) = m := by
  rw [putStore, store, Place.ofStore_inTree, Place.treeOr_inTree, Function.update_eq_self]

theorem store_putStore_self (ref : Nat) (store : Store) (m : Manager) :
    (m.putStore ref store).store ref = store := by
  rw [Manager.store, places_putStore_self]
  exact Place.inTree_ofStore m.tree store

/-- What a backend shows is not changed by what another one leaves beside its folder. -/
theorem alike_store_putStore {ref' : Nat} {store : Store} (hne : ref' ≠ ref)
    (hleaves : (m.store ref).Leaves store)
    (happart : ∀ root ∈ (m.places ref).root?, ∀ root' ∈ (m.places ref').root?, root.Apart root') :
    (m.store ref').Alike ((m.putStore ref store).store ref') := by
  rw [Manager.store, Manager.store, places_putStore_of_ne hne]
  rw [Manager.store] at hleaves
  cases hplace : m.places ref with
  | memory memory =>
    rw [hplace] at hleaves
    cases hleaves
    exact .refl _
  | disk name root stamp listings =>
    rw [hplace] at hleaves
    cases hleaves with
    | disk hbeside =>
      cases hplace' : m.places ref' with
      | memory memory => exact .refl _
      | disk name' root' stamp' listings' =>
        rw [hplace, hplace'] at happart
        exact .disk (hbeside root' (happart root rfl root' rfl))

theorem root?_putStore {store : Store} (hleaves : (m.store ref).Leaves store) (ref' : Nat) :
    ((m.putStore ref store).places ref').root? = (m.places ref').root? := by
  by_cases hne : ref' = ref
  · subst hne
    rw [places_putStore_self]
    rw [Manager.store] at hleaves
    cases hplace : m.places ref' with
    | memory memory =>
      rw [hplace] at hleaves
      cases hleaves
      rfl
    | disk name root stamp listings =>
      rw [hplace] at hleaves
      cases hleaves
      rfl
  · rw [places_putStore_of_ne hne]

theorem vault?_session (name : String) (m : Manager) :
    m.session.vault? name = (m.backends.lookup name).map fun ref => m.vault name ref := by
  rw [Session.vault?, session]
  induction m.backends with
  | nil => rfl
  | cons backend backends ih =>
    obtain ⟨name', ref⟩ := backend
    by_cases hname : name' = name
    · subst hname
      simp [vault]
    · have hbeq : (name == name') = false := by simpa using Ne.symm hname
      rw [List.map_cons, List.find?_cons_of_neg (by simpa [vault] using hname), List.lookup_cons,
        hbeq]
      exact ih

theorem Separate.ne_of_lookup (h : m.Separate) {name' : String} {ref' : Nat} (hne : name' ≠ name)
    (href' : m.backends.lookup name' = some ref') (href : m.backends.lookup name = some ref) :
    ref' ≠ ref := by
  rintro rfl
  have heq := List.inj_on_of_nodup_map h.backends (mem_of_lookup href') (mem_of_lookup href) rfl
  exact hne (congrArg Prod.fst heq)

theorem Separate.backend_eq (h : m.Separate) (href : m.backends.lookup name = some ref)
    {b : Builder} (hb : m.builders name = some b) : b.backend = ref :=
  Option.some.inj ((h.builders name b hb).symm.trans href)

/-- The builder for an address is the one that is kept, or a new one. -/
theorem exists_builder (h : m.Separate) {vault : Option String}
    (hkey : m.builderKey vault = .ok name) (hbackend : m.backend vault = .ok ref)
    (href : m.backends.lookup name = some ref) :
    ∃ builders, builder vault m = (.ok (name, ⟨ref, m.memo name⟩), { m with builders }) ∧
      ∀ other, other ≠ name → builders other = m.builders other := by
  cases hbuilder : m.builders name with
  | none =>
    refine ⟨Function.update m.builders name (some ⟨ref, .empty⟩), ?_, fun other hother => ?_⟩
    · simp only [builder, memo, hkey, hbackend, hbuilder]
      rfl
    · exact Function.update_of_ne hother ..
  | some b =>
    obtain rfl := h.backend_eq href hbuilder
    refine ⟨m.builders, ?_, fun _ _ => rfl⟩
    simp only [builder, memo, hkey, hbuilder]
    rfl

/-! ## The session of a manager -/

theorem represents_session (h : m.Separate) : Represents m.session m where
  separate := h
  clock := rfl
  names := by simp [session, Session.names, names, vault]
  vaults name ref href := ⟨m.vault name ref, by rw [vault?_session, href]; rfl, .refl _⟩

namespace Represents

theorem defaultName?_eq (h : Represents s m) : s.defaultName? = m.standard := by
  rw [Session.defaultName?, h.names, h.separate.standard]

theorem vault?_eq_none (h : Represents s m) (hname : m.backends.lookup name = none) :
    s.vault? name = none := by
  rw [Session.vault?, List.find?_eq_none]
  intro v hv heq
  have hmem : v.name ∈ m.names := h.names ▸ List.mem_map_of_mem hv
  obtain ⟨ref, href⟩ := mem_keys_iff.1 hmem
  obtain rfl : v.name = name := by simpa using heq
  rw [hname] at href
  cases href

/-- An address means nothing in both, or a vault and its backend. -/
theorem find (h : Represents s m) (vault : Option String) :
    (∃ f, s.find vault = .error f ∧ m.backend vault = .error f) ∨
      ∃ v ref, s.find vault = .ok v ∧ m.backend vault = .ok ref ∧
        m.builderKey vault = .ok v.name ∧ m.backends.lookup v.name = some ref ∧
          Vault.Alike v (m.vault v.name ref) := by
  have hempty : s.names.isEmpty = m.backends.isEmpty := by
    rw [h.names, Manager.names, List.isEmpty_map]
  rw [Session.find_eq, builderKey, backend, h.defaultName?_eq, hempty, h.names]
  cases m.backends.isEmpty with
  | true => exact .inl ⟨.noVaults, rfl, rfl⟩
  | false =>
    cases hkey : Address.key m.standard vault with
    | none => exact .inl ⟨_, rfl, rfl⟩
    | some key =>
      cases href : m.backends.lookup key with
      | none =>
        refine .inl ⟨.unknownVault vault m.names, ?_, ?_⟩
        · rw [Option.bind_some, h.vault?_eq_none href]
          rfl
        · cases hempty : key.isEmpty <;> simp [Option.filter, hempty, href]
      | some ref =>
        obtain ⟨v, hv, halike⟩ := h.vaults key ref href
        obtain rfl : v.name = key := by simpa using List.find?_some hv
        by_cases hempty : v.name = ""
        · refine .inl ⟨.unknownVault vault m.names, ?_, ?_⟩
          · rw [Option.bind_some, hv]
            simp [Option.filter, hempty]
          · simp [Option.filter, hempty]
        · refine .inr ⟨v, ref, ?_, ?_, ?_, href, halike⟩
          · simp [hv, Option.filter, hempty]
          · simp [Option.filter, hempty, href]
          · simp [Option.filter, hempty, href, Except.map]

/-- A vault and its backend that changed together. -/
theorem change (h : Represents s m) (v : Vault) (store : Store)
    (builders : String → Option Builder) (href : m.backends.lookup v.name = some ref)
    (hleaves : (m.store ref).Leaves store)
    (hbuilder : ∀ b, builders v.name = some b → b.backend = ref)
    (hothers : ∀ other, other ≠ v.name → builders other = m.builders other)
    (hstore : v.store.Alike store)
    (hmemo : v.memo.Agrees (((builders v.name).map (·.memo)).getD .empty)) :
    Represents { s with vaults := Session.putVault v s.vaults }
      { m.putStore ref store with builders } where
  separate := {
    names := h.separate.names
    standard := h.separate.standard
    backends := h.separate.backends
    roots := by
      intro ref₁ h₁ ref₂ h₂ hne
      have hroots := h.separate.roots ref₁ h₁ ref₂ h₂ hne
      rwa [← root?_putStore hleaves, ← root?_putStore hleaves ref₂] at hroots
    builders := by
      intro name b hb
      by_cases hname : name = v.name
      · subst hname
        exact hbuilder b hb ▸ href
      · exact h.separate.builders name b (hothers name hname ▸ hb) }
  clock := h.clock
  names := by
    obtain ⟨u, hu, -⟩ := h.vaults v.name ref href
    exact (Session.names_putVault hu).trans h.names
  vaults := by
    intro name ref' href'
    rw [Session.vault?, Session.find?_putVault]
    by_cases hname : v.name = name
    · subst hname
      obtain rfl : ref = ref' := Option.some.inj (href.symm.trans href')
      have hself : v.store.Alike ((m.putStore ref store).store ref) := by
        rwa [store_putStore_self]
      rw [if_pos rfl]
      exact ⟨v, rfl, hself, hmemo⟩
    · rw [if_neg hname]
      obtain ⟨u, hu, halike⟩ := h.vaults name ref' href'
      have hne := h.separate.ne_of_lookup (Ne.symm hname) href' href
      refine ⟨u, hu, halike.store.trans (alike_store_putStore hne hleaves ?_), ?_⟩
      · exact h.separate.roots ref (List.mem_map_of_mem (mem_of_lookup href)) ref'
          (List.mem_map_of_mem (mem_of_lookup href')) (Ne.symm hne)
      · have hmemo := halike.memo
        rwa [vault, memo, ← hothers name (Ne.symm hname)] at hmemo

/-- A vault that changed, and the builder that is kept under its name. -/
theorem keep (h : Represents s m) (v : Vault) (store : Store) (b : Builder)
    {builders : String → Option Builder} (href : m.backends.lookup v.name = some ref)
    (hleaves : (m.store ref).Leaves store) (hbackend : b.backend = ref)
    (hothers : ∀ other, other ≠ v.name → builders other = m.builders other)
    (hstore : v.store.Alike store) (hmemo : v.memo.Agrees b.memo) :
    Represents { s with vaults := Session.putVault v s.vaults }
      { m.putStore ref store with builders := Function.update builders v.name (some b) } := by
  refine h.change v store _ href hleaves (fun b' hb => ?_) (fun other hother => ?_) hstore ?_
  · rw [Function.update_self] at hb
    cases hb
    exact hbackend
  · rw [Function.update_of_ne hother]
    exact hothers other hother
  · rw [Function.update_self]
    exact hmemo

theorem files {op : VaultM α} (hop : Accesses op) (vault : Option String) :
    Related Represents (Session.on vault op) (files vault op) := by
  intro s m h
  rw [Manager.files]
  rcases h.find vault with ⟨f, hs, hm⟩ | ⟨v, ref, hs, hm, -, href, halike⟩
  · rw [Session.on_of_error hs, hm]
    exact ⟨.error f, s, m, rfl, rfl, h⟩
  · obtain ⟨result, store, store', hv, hw, hstores, hleaves⟩ :=
      hop.alike s.clock (v := v) (w := ⟨(m.store ref).name, m.store ref, .empty⟩) halike.store
    have haccess : m.access ref .empty op = (result, ⟨(m.store ref).name, store', .empty⟩) := by
      rwa [h.clock] at hw
    rw [Session.on_of_find hs, hm, hv]
    dsimp only
    rw [haccess]
    refine ⟨result, _, _, rfl, rfl, ?_⟩
    exact h.change { v with store } store' m.builders href hleaves
      (fun _ hb => h.separate.backend_eq href hb) (fun _ _ => rfl) hstores halike.memo

theorem graph (vault : Option String) :
    Related Represents (Session.on vault Vault.graph) (graph vault) := by
  intro s m h
  rw [Manager.graph, StateOp.run_bind]
  rcases h.find vault with ⟨f, hs, hm⟩ | ⟨v, ref, hs, hm, hkey, href, halike⟩
  · rw [Session.on_of_error hs, builder, builderKey, hm]
    exact ⟨.error f, s, m, rfl, rfl, h⟩
  · obtain ⟨builders, hbuilder, hothers⟩ := exists_builder h.separate hkey hm href
    have hview : Vault.Alike v ⟨(m.store ref).name, m.store ref, m.memo v.name⟩ :=
      ⟨halike.store, halike.memo⟩
    obtain ⟨result, v', w', hv, hw, halike', hname, hleaves⟩ := hview.graph s.clock
    have haccess : access ref (m.memo v.name) Vault.graph { m with builders } = (result, w') := by
      rwa [h.clock] at hw
    rw [Session.on_of_find hs, hv, hbuilder]
    dsimp only
    rw [haccess]
    refine ⟨result, _, _, rfl, rfl, ?_⟩
    rw [← hname] at href hothers ⊢
    exact h.keep v' w'.store ⟨ref, w'.memo⟩ href hleaves rfl hothers halike'.store halike'.memo

theorem forget (vault : Option String) :
    Related Represents (Session.on vault Vault.invalidate) (forget vault) := by
  intro s m h
  rw [Manager.forget]
  rcases h.find vault with ⟨f, hs, hm⟩ | ⟨v, ref, hs, hm, hkey, href, halike⟩
  · rw [Session.on_of_error hs, builderKey, hm]
    exact ⟨.error f, s, m, rfl, rfl, h⟩
  · have hinvalidated : Session.on vault Vault.invalidate s =
        (.ok (), { s with
          vaults := Session.putVault { v with memo := v.memo.invalidate } s.vaults }) :=
      Session.on_of_find hs _
    rw [hinvalidated, hkey]
    dsimp only
    have hmemo := halike.memo
    rw [Manager.vault, memo] at hmemo
    cases hbuilder : m.builders v.name with
    | none =>
      rw [hbuilder] at hmemo
      have hchange := h.change { v with memo := v.memo.invalidate } (m.store ref) m.builders href
        (.refl _) (fun _ hb => h.separate.backend_eq href hb) (fun _ _ => rfl) halike.store ?_
      · rw [putStore_store] at hchange
        exact ⟨.ok (), _, _, rfl, rfl, hchange⟩
      · rw [hbuilder]
        exact ⟨hmemo.builds, rfl⟩
    | some b =>
      have hbackend := h.separate.backend_eq href hbuilder
      rw [hbuilder] at hmemo
      have hkept := h.keep { v with memo := v.memo.invalidate } (m.store ref)
        { b with memo := b.memo.invalidate } href (.refl _) hbackend (fun _ _ => rfl)
        halike.store hmemo.invalidate
      rw [putStore_store] at hkept
      exact ⟨.ok (), _, _, rfl, rfl, hkept⟩

/-- A request has the same answer from a manager and from the session that represents it. -/
theorem perform (vault : Option String) (request : Session.Request) :
    Related Represents (Session.perform vault request) (perform vault request) := by
  rw [Session.perform_eq]
  exact .script (fun op h => files h vault) (graph vault) (forget vault) request.script

theorem tick (h : Represents s m) (seconds : Binary64) :
    Represents (s.tick seconds) (m.tick seconds) where
  separate := ⟨⟨h.separate.names, h.separate.standard⟩, h.separate.backends, h.separate.roots,
    h.separate.builders⟩
  clock := congrArg (·.add seconds) h.clock
  names := h.names
  vaults := h.vaults

/-- A manager answers a run of requests as the session that represents it. -/
theorem run (h : Represents s m) (heard : Option String → Bool) (events : List Event) :
    system.answers heard events m = Session.system.answers heard events s ∧
      Represents (Session.system.after events s) (system.after events m) := by
  have hevents : events.Forall₂ (Event.Same Eq) events :=
    List.forall₂_same.2 fun e _ => .refl (fun _ => rfl) e
  have hperform (vault vault' : Option String) (request : Session.Request) (heq : vault = vault') :
      Related Represents (Session.system.perform vault request)
        (system.perform vault' request) := heq ▸ perform vault request
  obtain ⟨hanswers, hafter⟩ := System.answers_of_related hperform
    (fun seconds _ _ h => h.tick seconds) (fun _ _ => congrArg heard) hevents h
  exact ⟨hanswers.symm, hafter⟩

end Represents

end Manager

end MarkdownVault
