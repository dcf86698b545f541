import MarkdownVault.Proofs.Session.Script

/-!
# Runs of requests

Requests are addressed to vaults by name. In a run of them a vault sees those that are addressed to
it and the time that passes, so its answers are those of the shorter run that holds nothing else.
-/

namespace MarkdownVault

/-- What happens in a run: a request to the vault that a name means, or time that passes. -/
inductive Event where
  | request (vault : Option String) (request : Session.Request)
  | tick (seconds : Binary64)

/-- The name that an address means; nothing and an empty name mean the default. -/
def Address.key (standard address : Option String) : Option String :=
  (address.filter (!·.isEmpty)).or standard

/-- Whether an address means the vault with a name. -/
def Address.means (standard : Option String) (name : String) (address : Option String) : Bool :=
  key standard address == some name

namespace Event

/-- The events that are left when only some addresses are heard. -/
def isHeard (heard : Option String → Bool) : Event → Bool
  | .request vault _ => heard vault
  | .tick _ => true

/-- Events that differ in their addresses, if at all. -/
inductive Same (alike : Option String → Option String → Prop) : Event → Event → Prop
  | request {vault vault' : Option String} (request : Session.Request) :
      alike vault vault' → Same alike (.request vault request) (.request vault' request)
  | tick (seconds : Binary64) : Same alike (.tick seconds) (.tick seconds)

theorem Same.refl {alike : Option String → Option String → Prop} (h : ∀ vault, alike vault vault)
    (e : Event) : Same alike e e := by
  cases e with
  | request vault request => exact .request request (h vault)
  | tick seconds => exact .tick seconds

end Event

/-- Something that performs requests while time passes. -/
structure System (σ : Type) where
  perform : Option String → Session.Request → StateOp σ Session.Answer
  tick : Binary64 → σ → σ

namespace System

variable {σ τ : Type}

def step (S : System σ) (s : σ) : Event → σ
  | .request vault request => (S.perform vault request s).2
  | .tick seconds => S.tick seconds s

/-- The state after a run. -/
def after (S : System σ) (events : List Event) (s : σ) : σ := events.foldl S.step s

/-- The answers to the requests of a run whose addresses are heard. -/
def answers (S : System σ) (heard : Option String → Bool) :
    List Event → σ → List (Except Failure Session.Answer)
  | [], _ => []
  | .request vault request :: events, s =>
    let rest := answers S heard events (S.perform vault request s).2
    if heard vault then (S.perform vault request s).1 :: rest else rest
  | .tick seconds :: events, s => answers S heard events (S.tick seconds s)

theorem after_cons (S : System σ) (e : Event) (events : List Event) (s : σ) :
    S.after (e :: events) s = S.after events (S.step s e) := rfl

variable {S : System σ} {S' : System τ} {R : σ → τ → Prop}

/-- Runs of systems that perform requests in related ways. -/
theorem answers_of_related {alike : Option String → Option String → Prop}
    (hperform : ∀ vault vault' request, alike vault vault' →
      Related R (S.perform vault request) (S'.perform vault' request))
    (htick : ∀ seconds s t, R s t → R (S.tick seconds s) (S'.tick seconds t))
    {heard heard' : Option String → Bool}
    (hheard : ∀ vault vault', alike vault vault' → heard vault = heard' vault')
    {events events' : List Event} (h : events.Forall₂ (Event.Same alike) events') {s : σ} {t : τ}
    (hst : R s t) : S.answers heard events s = S'.answers heard' events' t ∧
      R (S.after events s) (S'.after events' t) := by
  induction h generalizing s t with
  | nil => exact ⟨rfl, hst⟩
  | cons he _ ih =>
    cases he with
    | tick seconds => exact ih (htick seconds s t hst)
    | @request vault vault' request halike =>
      obtain ⟨result, s', t', hs, ht, hst'⟩ := hperform vault vault' request halike s t hst
      rw [answers, answers, after_cons, after_cons, step, step, hs, ht, hheard vault vault' halike,
        (ih hst').1]
      exact ⟨rfl, (ih hst').2⟩

/-- A run and what is left of it when only some addresses are heard, if no other request makes a
difference. -/
theorem answers_filter {S : System σ} {R : σ → σ → Prop} {heard : Option String → Bool}
    (hheard : ∀ vault request, heard vault →
      Related R (S.perform vault request) (S.perform vault request))
    (hother : ∀ vault request s t, heard vault = false → R s t →
      R (S.perform vault request s).2 t)
    (htick : ∀ seconds s t, R s t → R (S.tick seconds s) (S.tick seconds t))
    (events : List Event) {s t : σ} (hst : R s t) :
    S.answers heard events s =
        S.answers (fun _ => true) (events.filter (Event.isHeard heard)) t ∧
      R (S.after events s) (S.after (events.filter (Event.isHeard heard)) t) := by
  induction events generalizing s t with
  | nil => exact ⟨rfl, hst⟩
  | cons e events ih =>
    cases e with
    | tick seconds => exact ih (htick seconds s t hst)
    | request vault request =>
      cases hvault : heard vault with
      | false =>
        rw [List.filter_cons_of_neg (by simp [Event.isHeard, hvault]), answers, after_cons, step,
          hvault]
        exact ih (hother vault request s t hvault hst)
      | true =>
        obtain ⟨result, s', t', hs, ht, hst'⟩ := hheard vault request hvault s t hst
        rw [List.filter_cons_of_pos (by simp [Event.isHeard, hvault]), answers, answers,
          after_cons, after_cons, step, step, hs, ht, hvault, (ih hst').1]
        exact ⟨rfl, (ih hst').2⟩

end System

namespace Related

variable {σ α : Type} {P : σ → Prop}

/-- Operations with the same result on the states of which something holds, if this holds of the
state that is left. -/
theorem of_eq {op op' : StateOp σ α} (heq : ∀ s, P s → op s = op' s)
    (hkeeps : ∀ s, P s → P (op s).2) : Related (fun s t => s = t ∧ P s) op op' := by
  rintro s _ ⟨rfl, hs⟩
  exact ⟨(op s).1, (op s).2, (op s).2, rfl, (heq s hs).symm, rfl, hkeeps s hs⟩

/-- An operation is related to itself on the states of which something holds if this still holds
afterwards. -/
theorem self_iff {op : StateOp σ α} :
    Related (fun s t => s = t ∧ P s) op op ↔ ∀ s, P s → P (op s).2 := by
  refine ⟨fun h s hs => ?_, .of_eq fun _ _ => rfl⟩
  obtain ⟨result, s', t', hs, -, -, hs'⟩ := h s s ⟨rfl, hs⟩
  rwa [hs]

end Related

/-- What the ways to a vault preserve is preserved by a script. -/
theorem Script.run_preserves {σ α : Type} {port : Port σ} {P : σ → Prop}
    (hfiles : ∀ {β : Type} (op : VaultM β), Accesses op → ∀ s, P s → P (port.files op s).2)
    (hgraph : ∀ s, P s → P (port.graph s).2) (hforget : ∀ s, P s → P (port.forget s).2)
    (script : Script α) (s : σ) (hs : P s) : P (script.run port s).2 :=
  Related.self_iff.1 (.script (fun op h => Related.self_iff.2 (hfiles op h))
    (Related.self_iff.2 hgraph) (Related.self_iff.2 hforget) script) s hs

/-! ## Sessions -/

theorem keepsName_graph : KeepsName (Vault.graph : VaultM Graph) := by
  intro now v
  obtain ⟨result, v', w', hv, -, -, hname, -⟩ := (Vault.Alike.refl v).graph now
  rw [hv, hname]

namespace Session

variable {s t : Session} {u v : Vault} {name : String} {vault : Option String} {α : Type}

def vault? (s : Session) (name : String) : Option Vault := s.vaults.find? (·.name == name)

/-- The vault that is found is told by the names and by the vault that is meant. -/
theorem find_eq (vault : Option String) (s : Session) :
    s.find vault = if s.names.isEmpty then .error .noVaults else
      match (Address.key s.defaultName? vault).bind fun key =>
          (s.vault? key).filter (!·.name.isEmpty) with
      | some v => .ok v
      | none => .error (.unknownVault vault s.names) := by
  rw [find, names, defaultName?, names]
  cases hvaults : s.vaults with
  | nil => rfl
  | cons first rest =>
    have hkey : Address.key (((first :: rest).map (·.name)).head?) vault =
        some ((vault.filter (!·.isEmpty)).getD first.name) := by
      rw [Address.key]
      cases vault.filter (!·.isEmpty) <;> rfl
    rw [hkey, Option.bind_some, vault?, hvaults]
    rfl

theorem vault?_eq_some (h : s.find vault = .ok v) :
    Address.key s.defaultName? vault = some v.name ∧ s.vault? v.name = some v := by
  obtain ⟨first, hfirst, hfind, -⟩ := find_eq_ok_iff.1 h
  have hname : v.name = keyOf vault first := by simpa using List.find?_some hfind
  refine ⟨?_, hname ▸ hfind⟩
  rw [hname, keyOf, Address.key, defaultName?, names, List.head?_map, hfirst]
  cases vault.filter (!·.isEmpty) <;> rfl

theorem names_putVault (h : s.vault? v.name = some u) :
    (putVault v s.vaults).map (·.name) = s.names := by
  have hname : u.name = v.name := by simpa using List.find?_some h
  obtain ⟨before, after, -, hvaults, hput⟩ := putVault_split h
  rw [names, hput, hvaults, List.map_append, List.map_append, List.map_cons, List.map_cons, hname]

theorem find?_putVault (v : Vault) (name : String) (vs : List Vault) :
    (putVault v vs).find? (·.name == name) =
      if v.name = name then some v else vs.find? (·.name == name) := by
  induction vs with
  | nil => by_cases hname : v.name = name <;> simp [putVault, hname]
  | cons w ws ih =>
    by_cases hw : w.name = v.name
    · by_cases hname : v.name = name <;> simp [putVault, hw, hname]
    · by_cases hname : v.name = name
      · subst hname
        simp [putVault, hw, ih]
      · simp [putVault, hw, hname, ih, List.find?_cons]

/-- What an operation leaves of a session. -/
theorem exists_on {op : VaultM α} (hop : KeepsName op) (h : s.find vault = .ok v) :
    ∃ s', on vault op s = ((op s.clock v).1, s') ∧ s'.names = s.names ∧ s'.clock = s.clock ∧
      ∀ name, s'.vault? name = if v.name = name then some (op s.clock v).2 else s.vault? name := by
  have hname := hop s.clock v
  refine ⟨_, on_of_find h op, ?_, rfl, fun name => ?_⟩
  · exact names_putVault (hname.symm ▸ (vault?_eq_some h).2)
  · rw [vault?, find?_putVault, hname]
    rfl

/-- Sessions in which no request to the vault with a name tells a difference. -/
structure SameFor (name : String) (s t : Session) : Prop where
  names : s.names = t.names
  clock : s.clock = t.clock
  vault : s.vault? name = t.vault? name

namespace SameFor

theorem refl (name : String) (s : Session) : SameFor name s s := ⟨rfl, rfl, rfl⟩

theorem trans {r : Session} (h : SameFor name r s) (h' : SameFor name s t) : SameFor name r t :=
  ⟨h.names.trans h'.names, h.clock.trans h'.clock, h.vault.trans h'.vault⟩

theorem defaultName?_eq (h : SameFor name s t) : s.defaultName? = t.defaultName? := by
  rw [defaultName?, h.names, defaultName?]

theorem tick (h : SameFor name s t) (seconds : Binary64) :
    SameFor name (s.tick seconds) (t.tick seconds) :=
  ⟨h.names, congrArg (·.add seconds) h.clock, h.vault⟩

/-- An operation on another vault makes no difference. -/
theorem on_other {op : VaultM α} (hop : KeepsName op)
    (hother : Address.key s.defaultName? vault ≠ some name) : SameFor name (on vault op s).2 s := by
  cases hfind : s.find vault with
  | error f =>
    rw [on_of_error hfind]
    exact .refl name s
  | ok v =>
    obtain ⟨s', hs, hnames, hclock, hvault⟩ := exists_on hop hfind
    have hne : v.name ≠ name := fun heq => hother (heq ▸ (vault?_eq_some hfind).1)
    rw [hs]
    exact ⟨hnames, hclock, by rw [hvault, if_neg hne]⟩

/-- An operation on the vault has the same result in both sessions. -/
theorem on_self {op : VaultM α} (hop : KeepsName op) {standard : Option String}
    (hkey : Address.key standard vault = some name) :
    Related (fun s t => SameFor name s t ∧ t.defaultName? = standard)
      (on vault op) (on vault op) := by
  rintro s t ⟨h, rfl⟩
  have hfind : s.find vault = t.find vault := by
    rw [find_eq, find_eq, h.defaultName?_eq, hkey, h.names, Option.bind_some, Option.bind_some,
      h.vault]
  cases ht : t.find vault with
  | error f =>
    rw [on_of_error (hfind.trans ht), on_of_error ht]
    exact ⟨.error f, s, t, rfl, rfl, h, rfl⟩
  | ok v =>
    obtain ⟨s', hs, hnames, hclock, hvault⟩ := exists_on hop (hfind.trans ht)
    obtain ⟨t', ht', hnames', hclock', hvault'⟩ := exists_on hop ht
    have hname : v.name = name := by simpa [hkey] using (vault?_eq_some ht).1.symm
    rw [h.clock] at hs hvault
    have hsame : SameFor name s' t' := by
      refine ⟨?_, ?_, ?_⟩
      · rw [hnames, hnames', h.names]
      · rw [hclock, hclock', h.clock]
      · rw [hvault, hvault', if_pos hname, if_pos hname]
    refine ⟨(op t.clock v).1, s', t', hs, ht', hsame, ?_⟩
    rw [defaultName?, hnames', defaultName?]

theorem perform_other (request : Request) (hother : Address.key s.defaultName? vault ≠ some name) :
    SameFor name (perform vault request s).2 s := by
  have hpreserved {α : Type} (op : VaultM α) (hop : KeepsName op) (t : Session)
      (ht : SameFor name t s) : SameFor name (on vault op t).2 s :=
    (on_other hop (ht.defaultName?_eq ▸ hother)).trans ht
  rw [perform_eq]
  exact Script.run_preserves (P := fun t => SameFor name t s)
    (fun op h => hpreserved op h.keepsName) (hpreserved _ keepsName_graph)
    (hpreserved _ .invalidate) request.script s (.refl name s)

theorem perform_self (request : Request) {standard : Option String}
    (hkey : Address.key standard vault = some name) :
    Related (fun s t => SameFor name s t ∧ t.defaultName? = standard)
      (perform vault request) (perform vault request) := by
  rw [perform_eq]
  exact .script (fun op h => on_self h.keepsName hkey) (on_self keepsName_graph hkey)
    (on_self .invalidate hkey) request.script

end SameFor

/-- A session at work. -/
def system : System Session := ⟨perform, tick⟩

/-- Requests to other vaults leave a vault as it is. -/
theorem vault?_after {events : List Event}
    (h : ∀ vault request, .request vault request ∈ events →
      Address.means s.defaultName? name vault = false) :
    (system.after events s).vault? name = s.vault? name := by
  induction events generalizing s with
  | nil => rfl
  | cons e events ih =>
    rw [System.after_cons]
    cases e with
    | tick seconds => exact ih fun vault request hmem => h vault request (.tail _ hmem)
    | request vault request =>
      have hother : Address.key s.defaultName? vault ≠ some name := by
        simpa [Address.means] using h vault request (.head _)
      have hsame := SameFor.perform_other request hother
      rw [ih, System.step]
      · exact hsame.vault
      · intro vault' request' hmem
        rw [System.step, system, hsame.defaultName?_eq]
        exact h vault' request' (.tail _ hmem)

/-- The answers of a vault are those of the run that holds no requests to others. -/
theorem answers_filter (s : Session) (name : String) (events : List Event) :
    system.answers (Address.means s.defaultName? name) events s =
        system.answers (fun _ => true)
          (events.filter (Event.isHeard (Address.means s.defaultName? name))) s ∧
      (system.after events s).vault? name =
        (system.after (events.filter (Event.isHeard (Address.means s.defaultName? name)))
          s).vault? name := by
  let R (t u : Session) : Prop := SameFor name t u ∧ u.defaultName? = s.defaultName?
  have hself (vault : Option String) (request : Request)
      (h : Address.means s.defaultName? name vault) :
      Related R (system.perform vault request) (system.perform vault request) :=
    SameFor.perform_self request (by simpa [Address.means] using h)
  have hother (vault : Option String) (request : Request) (t u : Session)
      (h : Address.means s.defaultName? name vault = false) (htu : R t u) :
      R (system.perform vault request t).2 u := by
    obtain ⟨hsame, hdefault⟩ := htu
    refine ⟨(SameFor.perform_other request ?_).trans hsame, hdefault⟩
    rw [hsame.defaultName?_eq, hdefault]
    simpa [Address.means] using h
  have htick (seconds : Binary64) (t u : Session) (htu : R t u) :
      R (system.tick seconds t) (system.tick seconds u) := ⟨htu.1.tick seconds, htu.2⟩
  obtain ⟨hanswers, hsame, -⟩ :=
    System.answers_filter hself hother htick events ⟨.refl name s, rfl⟩
  exact ⟨hanswers, hsame.vault⟩

end Session

end MarkdownVault
