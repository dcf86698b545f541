import MarkdownVault.Proofs.Session.Manager

/-!
# Vaults are isolated

Vaults that share no files do not see each other through the manager that serves them, and all ways
to mean the default vault lead to the same backend and the same builder.
-/

namespace MarkdownVault

/-- A script whose every way to the vault fails in one way comes to its end at once or fails so. -/
theorem Script.run_of_failing {σ α : Type} (port : Port σ) {f : Failure} {s : σ}
    (hfiles : ∀ {β : Type} (op : VaultM β), port.files op s = (.error f, s))
    (hgraph : port.graph s = (.error f, s)) (hforget : port.forget s = (.error f, s))
    (script : Script α) :
    script.run port s = (.error f, s) ∨ ∃ result, script = .done result := by
  cases script with
  | done result => exact .inr ⟨result, rfl⟩
  | files op _ next => exact .inl (by rw [run, StateOp.run_bind, hfiles])
  | graph next => exact .inl (by rw [run, StateOp.run_bind, hgraph])
  | forget next => exact .inl (by rw [run, StateOp.run_bind, hforget])

namespace Session

theorem exists_of_checked_eq_done {parameter : String} {n : Int} {rest : Script Answer}
    {result : Except Failure Answer} (h : checked parameter n rest = .done result)
    (hrest : rest = .done result → ∃ f, result = .error f) : ∃ f, result = .error f := by
  rw [checked] at h
  split at h
  · cases h
    exact ⟨_, rfl⟩
  · exact hrest h

/-- A request that asks nothing of the vault is refused. -/
theorem Request.exists_of_script_eq_done {request : Request} {result : Except Failure Answer}
    (h : request.script = .done result) : ∃ f, result = .error f := by
  cases request with
  | neighbors path depth direction limit =>
    exact exists_of_checked_eq_done h fun h => exists_of_checked_eq_done h fun h => nomatch h
  | connection source target depth => exact exists_of_checked_eq_done h fun h => nomatch h
  | search criteria limit => exact exists_of_checked_eq_done h fun h => nomatch h
  | createBase path filters folder columns views =>
    rw [script] at h
    split at h
    · cases h
      exact ⟨_, rfl⟩
    · cases h
  | _ => cases h

end Session

namespace Manager

variable {α : Type} {m n : Manager} {v w : Option String}

/-- Managers with the same names for the same backends. -/
structure SameNames (m n : Manager) : Prop where
  backends : n.backends = m.backends
  standard : n.standard = m.standard

namespace SameNames

theorem refl (m : Manager) : SameNames m m := ⟨rfl, rfl⟩

theorem symm (h : SameNames m n) : SameNames n m := ⟨h.backends.symm, h.standard.symm⟩

theorem trans {k : Manager} (h : SameNames m n) (h' : SameNames n k) : SameNames m k :=
  ⟨h'.backends.trans h.backends, h'.standard.trans h.standard⟩

theorem files (h : SameNames m n) (op : VaultM α) : SameNames m (files v op n).2 := by
  rw [Manager.files]
  cases n.backend v with
  | error f => exact h
  | ok ref => exact ⟨h.backends, h.standard⟩

theorem builder (h : SameNames m n) : SameNames m (builder v n).2 := by
  rw [Manager.builder]
  cases n.builderKey v with
  | error f => exact h
  | ok key =>
    dsimp only
    cases n.builders key with
    | some b => exact h
    | none =>
      cases n.backend v with
      | error f => exact h
      | ok ref => exact ⟨h.backends, h.standard⟩

theorem graph (h : SameNames m n) : SameNames m (graph v n).2 := by
  rw [Manager.graph, StateOp.run_bind]
  have hbuilder : SameNames m (Manager.builder v n).2 := h.builder
  rcases hrun : Manager.builder v n with ⟨f | b, n'⟩
  · rwa [hrun] at hbuilder
  · rw [hrun] at hbuilder
    exact ⟨hbuilder.backends, hbuilder.standard⟩

theorem forget (h : SameNames m n) : SameNames m (forget v n).2 := by
  rw [Manager.forget]
  cases n.builderKey v with
  | error f => exact h
  | ok key =>
    dsimp only
    cases n.builders key with
    | none => exact h
    | some b => exact ⟨h.backends, h.standard⟩

end SameNames

/-! ## Ways to mean the default vault -/

/-- Whether an address leaves the choice of a vault to the manager, or names the one that it would
choose. -/
def MeansStandard (m : Manager) (address : Option String) : Prop :=
  address = none ∨ address = some "" ∨ address = m.standard

/-- Addresses of which one can stand for the other. -/
def Respelled (m : Manager) (v w : Option String) : Prop :=
  v = w ∨ m.MeansStandard v ∧ m.MeansStandard w

theorem MeansStandard.key_eq (h : m.MeansStandard v) : Address.key m.standard v = m.standard := by
  rcases h with rfl | rfl | rfl
  · rfl
  · rfl
  · cases hstandard : m.standard with
    | none => rfl
    | some name => cases hname : name.isEmpty <;> simp [Address.key, Option.filter, hname]

theorem Respelled.key_eq (h : m.Respelled v w) :
    Address.key m.standard v = Address.key m.standard w := by
  rcases h with rfl | ⟨hv, hw⟩
  · rfl
  · rw [hv.key_eq, hw.key_eq]

/-- Two ways to mean one vault lead to the same backend, unless they mean the default and this is
refused because its name is empty. -/
theorem backend_eq_of_respelled (hm : m.WellNamed) (hname : m.standard ≠ some "")
    (h : m.Respelled v w) (hn : SameNames m n) : n.backend v = n.backend w := by
  rcases h with rfl | ⟨hv, hw⟩
  · rfl
  · obtain ⟨hbackends, hstandard⟩ := hn
    rw [backend, backend, hstandard, hv.key_eq, hw.key_eq, hbackends, hm.standard, names]
    cases hlist : m.backends with
    | nil => rfl
    | cons first rest =>
      have hfirst : first.1 ≠ "" := by simpa [hm.standard, names, hlist] using hname
      have hself : (first :: rest).lookup first.1 = some first.2 := List.lookup_cons_self
      simp [Option.filter, hfirst, hself]

variable (hm : m.WellNamed) (hname : m.standard ≠ some "") (h : m.Respelled v w)

include hm hname h

theorem builderKey_eq_of_respelled (hn : SameNames m n) : n.builderKey v = n.builderKey w := by
  rw [builderKey, builderKey, backend_eq_of_respelled hm hname h hn, hn.standard, h.key_eq]

theorem files_eq_of_respelled (hn : SameNames m n) (op : VaultM α) :
    files v op n = files w op n := by
  rw [files, files, backend_eq_of_respelled hm hname h hn]

theorem graph_eq_of_respelled (hn : SameNames m n) : graph v n = graph w n := by
  have hbuilder : builder v n = builder w n := by
    rw [builder, builder, builderKey_eq_of_respelled hm hname h hn,
      backend_eq_of_respelled hm hname h hn]
  rw [graph, graph, StateOp.run_bind, StateOp.run_bind, hbuilder]

theorem forget_eq_of_respelled (hn : SameNames m n) : forget v n = forget w n := by
  rw [forget, forget, builderKey_eq_of_respelled hm hname h hn]

/-- A request has the same answer and leaves the same manager whichever way the vault is meant. -/
theorem related_of_respelled (request : Session.Request) :
    Related (fun n n' => n = n' ∧ SameNames m n) (perform v request) (perform w request) :=
  .script (fun op _ => .of_eq (fun _ hn => files_eq_of_respelled hm hname h hn op)
      fun _ hn => hn.files op)
    (.of_eq (fun _ hn => graph_eq_of_respelled hm hname h hn) fun _ hn => hn.graph)
    (.of_eq (fun _ hn => forget_eq_of_respelled hm hname h hn) fun _ hn => hn.forget)
    request.script

omit hm hname h

theorem SameNames.perform (hn : SameNames m n) (v : Option String) (request : Session.Request) :
    SameNames m (perform v request n).2 :=
  Script.run_preserves (P := SameNames m) (fun op _ _ hn => hn.files op) (fun _ hn => hn.graph)
    (fun _ hn => hn.forget) request.script n hn

theorem SameNames.after (hn : SameNames m n) (events : List Event) :
    SameNames m (system.after events n) := by
  induction events generalizing n with
  | nil => exact hn
  | cons e events ih =>
    rw [System.after_cons]
    cases e with
    | tick seconds => exact ih ⟨hn.backends, hn.standard⟩
    | request vault request => exact ih (hn.perform vault request)

/-- A default vault whose name is empty is refused whichever way it is meant. -/
theorem backend_of_unnamed (hm : m.WellNamed) (hname : m.standard = some "")
    (hv : m.MeansStandard v) : m.backend v = .error (.unknownVault v m.names) := by
  rw [backend, hv.key_eq, hname]
  cases hlist : m.backends with
  | nil =>
    have hstandard := hm.standard
    rw [hname, names, hlist] at hstandard
    cases hstandard
  | cons first rest => rfl

/-- A request to a default vault whose name is empty fails and changes nothing. It is refused as
it would be of any vault, or the vault is unknown. -/
theorem perform_of_unnamed (hm : m.WellNamed) (hname : m.standard = some "")
    (hv : m.MeansStandard v) (request : Session.Request) :
    ∃ f, perform v request m = (.error f, m) ∧
      (f = .unknownVault v m.names ∨ ∀ w n, perform w request n = (.error f, n)) := by
  have hbackend := backend_of_unnamed hm hname hv
  have hfiles {β : Type} (op : VaultM β) :
      files v op m = (.error (.unknownVault v m.names), m) := by
    rw [files, hbackend]
  have hgraph : graph v m = (.error (.unknownVault v m.names), m) := by
    rw [graph, StateOp.run_bind, builder, builderKey, hbackend]
    rfl
  have hforget : forget v m = (.error (.unknownVault v m.names), m) := by
    rw [forget, builderKey, hbackend]
    rfl
  rcases Script.run_of_failing (port v) hfiles hgraph hforget request.script with
    hrun | ⟨result, hdone⟩
  · exact ⟨_, hrun, .inl rfl⟩
  · obtain ⟨f, rfl⟩ := Session.Request.exists_of_script_eq_done hdone
    have hrefused (w : Option String) (n : Manager) : perform w request n = (.error f, n) := by
      rw [perform, hdone]
      rfl
    exact ⟨f, hrefused v m, .inr hrefused⟩

theorem SameNames.wellNamed (hn : SameNames m n) (hm : m.WellNamed) : n.WellNamed where
  names := by rw [names, hn.backends]; exact hm.names
  standard := by rw [hn.standard, hm.standard, names, names, hn.backends]

/-- A request leaves the same manager whichever way the vault is meant. -/
theorem snd_perform_of_respelled (hm : m.WellNamed) (h : m.Respelled v w) (hn : SameNames m n)
    (request : Session.Request) : (perform v request n).2 = (perform w request n).2 := by
  by_cases hname : m.standard = some ""
  · rcases h with rfl | ⟨hv, hw⟩
    · rfl
    · have hnamed := hn.wellNamed hm
      rw [← hn.standard] at hname
      rw [MeansStandard, ← hn.standard] at hv hw
      obtain ⟨f, hv, -⟩ := perform_of_unnamed hnamed hname hv request
      obtain ⟨g, hw, -⟩ := perform_of_unnamed hnamed hname hw request
      rw [hv, hw]
  · obtain ⟨result, n', n'', hv, hw, heq, -⟩ :=
      related_of_respelled hm hname h request n n ⟨rfl, hn⟩
    rw [hv, hw]
    exact heq

/-! ## Runs -/

theorem after_eq_of_respelled (hm : m.WellNamed) {events events' : List Event}
    (h : events.Forall₂ (Event.Same m.Respelled) events') (hn : SameNames m n) :
    system.after events n = system.after events' n := by
  induction h generalizing n with
  | nil => rfl
  | cons he _ ih =>
    rw [System.after_cons, System.after_cons]
    cases he with
    | tick seconds => exact ih ⟨hn.backends, hn.standard⟩
    | @request vault vault' request hvault =>
      have hstep := snd_perform_of_respelled hm hvault hn request
      exact (ih (hn.perform vault request)).trans (congrArg (system.after _) hstep)

theorem answers_eq_of_respelled (hm : m.WellNamed) (hname : m.standard ≠ some "")
    {events events' : List Event} (h : events.Forall₂ (Event.Same m.Respelled) events') :
    system.answers (fun _ => true) events m = system.answers (fun _ => true) events' m :=
  (System.answers_of_related
    (fun _ _ request hvault => related_of_respelled hm hname hvault request)
    (fun _ _ _ ⟨heq, hn⟩ => ⟨heq ▸ rfl, hn.backends, hn.standard⟩) (fun _ _ _ => rfl) h
    ⟨rfl, .refl m⟩).1

/-- What a vault shows is the same with two managers. -/
def SameVault (name : String) (m n : Manager) : Prop :=
  ∀ ref, m.backends.lookup name = some ref →
    n.backends.lookup name = some ref ∧ Vault.Alike (m.vault name ref) (n.vault name ref)

/-- Managers whose vault is represented by the same one show the same of it. -/
theorem Represents.sameVault {s t : Session} {name : String} (h : Represents s m)
    (h' : Represents t n) (hn : SameNames m n) (hvault : s.vault? name = t.vault? name) :
    SameVault name m n := by
  intro ref href
  have href' : n.backends.lookup name = some ref := by rwa [hn.backends]
  obtain ⟨u, hu, halike⟩ := h.vaults name ref href
  obtain ⟨u', hu', halike'⟩ := h'.vaults name ref href'
  obtain rfl : u = u' := Option.some.inj (hu.symm.trans (hvault.trans hu'))
  exact ⟨href', halike.symm.trans halike'⟩

/-- Vaults that share no files, under one manager, whatever is asked of it. The answers are those of
a session that holds each vault by itself. A vault to which no request is addressed keeps its files
and its graph; the answers of a vault are those of the run that holds no requests to others, and so
is what is left of it. Whichever way the default vault is meant, the same manager is left, and the
same answers are given unless the default vault's name is empty: such a vault is refused, and
nothing changes. -/
theorem Separate.isolated (h : m.Separate) (events : List Event) :
    (∀ heard, system.answers heard events m = Session.system.answers heard events m.session) ∧
    (∀ name, (∀ v request, .request v request ∈ events →
        Address.means m.standard name v = false) → SameVault name m (system.after events m)) ∧
    (∀ name,
      let own := events.filter (Event.isHeard (Address.means m.standard name))
      system.answers (Address.means m.standard name) events m =
          system.answers (fun _ => true) own m ∧
        SameVault name (system.after events m) (system.after own m)) ∧
    (∀ events', events.Forall₂ (Event.Same m.Respelled) events' →
      system.after events m = system.after events' m ∧
        (m.standard ≠ some "" →
          system.answers (fun _ => true) events m = system.answers (fun _ => true) events' m)) ∧
    (m.standard = some "" → ∀ v request, m.MeansStandard v →
      ∃ f, perform v request m = (.error f, m) ∧
        (f = .unknownVault v m.names ∨ ∀ w n, perform w request n = (.error f, n))) := by
  have hsession := represents_session h
  have hstandard : m.session.defaultName? = m.standard := hsession.defaultName?_eq
  refine ⟨fun heard => (hsession.run heard events).1, fun name hothers => ?_, fun name => ?_,
    fun events' hevents => ⟨?_, fun hname => ?_⟩, fun hname v request hv => ?_⟩
  · have hafter := (hsession.run (fun _ => true) events).2
    rw [← hstandard] at hothers
    exact hsession.sameVault hafter (SameNames.after (.refl m) events)
      (Session.vault?_after hothers).symm
  · obtain ⟨hanswers, hvault⟩ := Session.answers_filter m.session name events
    rw [hstandard] at hanswers hvault
    obtain ⟨hall, hafter⟩ := hsession.run (Address.means m.standard name) events
    obtain ⟨hown, hafterown⟩ := hsession.run (fun _ => true)
      (events.filter (Event.isHeard (Address.means m.standard name)))
    refine ⟨hall.trans (hanswers.trans hown.symm), hafter.sameVault hafterown ?_ hvault⟩
    exact (SameNames.after (.refl m) events).symm.trans (SameNames.after (.refl m) _)
  · exact after_eq_of_respelled h.toWellNamed hevents (.refl m)
  · exact answers_eq_of_respelled h.toWellNamed hname hevents
  · exact perform_of_unnamed h.toWellNamed hname hv request

/-- Two vaults in one folder, one of which is still to be made, and one in memory. -/
def adjoining : Manager :=
  let note : FileData := ⟨"[[b]]".toUTF8, .zero false⟩
  let tree : Tree := .folder [("home", .folder [("work", .folder [("a.md", .file note)])])]
  let places : Nat → Place
    | 0 => .disk "work" ["home", "work"] (.zero false) []
    | 1 => .disk "play" ["home", "play"] (.zero false) []
    | _ => .memory ⟨"scratch", [], [], [], []⟩
  (((empty places tree (.zero false)).connect "work" 0).connect "play" 1).connect "scratch" 2

theorem separate_adjoining : adjoining.Separate where
  toWellNamed := (((wellNamed_empty _ _ _).connect "work" 0).connect "play" 1).connect "scratch" 2
  backends := by decide
  roots := by
    intro ref href ref' href' hne root hroot root' hroot'
    have hrefs : adjoining.backends.map (·.2) = [0, 1, 2] := rfl
    simp only [hrefs, List.mem_cons, List.not_mem_nil, or_false] at href href'
    rcases href with rfl | rfl | rfl <;> rcases href' with rfl | rfl | rfl <;>
      cases hroot <;> cases hroot'
    · exact absurd rfl hne
    · exact ⟨by decide, by decide⟩
    · exact ⟨by decide, by decide⟩
    · exact absurd rfl hne
  builders := by
    intro name b hb
    cases hb

/-- One vault is written to and asked for its graph under all its names, and another one is asked in
between. -/
theorem isolated_adjoining :
    let events : List Event := [.request none .graph, .request (some "play") .graph,
      .request (some "work") (.createBase "list" none none none .null), .tick (Binary64.ofNat 40),
      .request (some "") (.outgoing "a")]
    let own : List Event := [.request none .graph,
      .request (some "work") (.createBase "list" none none none .null), .tick (Binary64.ofNat 40),
      .request (some "") (.outgoing "a")]
    let plain : List Event := [.request none .graph, .request (some "play") .graph,
      .request none (.createBase "list" none none none .null), .tick (Binary64.ofNat 40),
      .request none (.outgoing "a")]
    adjoining.Separate ∧
      system.answers (fun _ => true) events adjoining =
        Session.system.answers (fun _ => true) events adjoining.session ∧
      SameVault "scratch" adjoining (system.after events adjoining) ∧
      system.answers (Address.means (some "work") "work") events adjoining =
        system.answers (fun _ => true) own adjoining ∧
      system.after events adjoining = system.after plain adjoining ∧
      system.answers (fun _ => true) events adjoining =
        system.answers (fun _ => true) plain adjoining := by
  intro events own plain
  obtain ⟨hsession, hothers, hown, hspelled, -⟩ := Separate.isolated separate_adjoining events
  have hplain : events.Forall₂ (Event.Same adjoining.Respelled) plain := by
    have hwork : adjoining.MeansStandard (some "work") := .inr (.inr rfl)
    have hempty : adjoining.MeansStandard (some "") := .inr (.inl rfl)
    have hnone : adjoining.MeansStandard none := .inl rfl
    exact .cons (.request _ (.inl rfl)) (.cons (.request _ (.inl rfl))
      (.cons (.request _ (.inr ⟨hwork, hnone⟩)) (.cons (.tick _)
        (.cons (.request _ (.inr ⟨hempty, hnone⟩)) .nil))))
  refine ⟨separate_adjoining, hsession _, hothers "scratch" ?_, (hown "work").1,
    (hspelled plain hplain).1, (hspelled plain hplain).2 (by decide)⟩
  intro v request hmem
  simp only [events, List.mem_cons, Event.request.injEq, reduceCtorEq, List.not_mem_nil,
    or_false, false_or] at hmem
  rcases hmem with ⟨rfl, -⟩ | ⟨rfl, -⟩ | ⟨rfl, -⟩ | ⟨rfl, -⟩ <;> decide

/-- A manager whose only vault has an empty name. -/
def unnamed : Manager :=
  let memory : Memory := ⟨"", [("a.md", "x")], [], [], []⟩
  (empty (fun _ => .memory memory) (.folder []) (.zero false)).connect "" 0

theorem separate_unnamed : unnamed.Separate where
  toWellNamed := (wellNamed_empty _ _ _).connect "" 0
  backends := by decide
  roots := by
    intro ref _ ref' _ _ root hroot
    cases hroot
  builders := by
    intro name b hb
    cases hb

/-- The refusal of a vault with an empty name tells how it was meant. -/
theorem answers_unnamed_ne :
    unnamed.Separate ∧
      [Event.request none (.note "a")].Forall₂ (Event.Same unnamed.Respelled)
        [.request (some "") (.note "a")] ∧
      system.answers (fun _ => true) [.request none (.note "a")] unnamed ≠
        system.answers (fun _ => true) [.request (some "") (.note "a")] unnamed := by
  refine ⟨separate_unnamed, .cons (.request _ (.inr ⟨.inl rfl, .inr (.inl rfl)⟩)) .nil, fun h => ?_⟩
  have hleft : system.answers (fun _ => true) [.request none (.note "a")] unnamed =
      [.error (.unknownVault none [""])] := rfl
  have hright : system.answers (fun _ => true) [.request (some "") (.note "a")] unnamed =
      [.error (.unknownVault (some "") [""])] := rfl
  rw [hleft, hright] at h
  cases h

end Manager

end MarkdownVault
