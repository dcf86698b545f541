import MarkdownVault.Proofs.Base.Writing
import MarkdownVault.Proofs.Session.Access

/-!
# Requests to a session

Whatever a session is asked, what happens to the vault that is named can be told step by step: files
are accessed, the graph is asked for or forgotten, and the result is made of what came of it. Each
step looks the vault up anew.
-/

namespace MarkdownVault

/-- Operations that may fail on a state. -/
abbrev StateOp (σ α : Type) := ExceptT Failure (StateM σ) α

theorem StateOp.run_bind {σ α β : Type} (op : StateOp σ α) (next : α → StateOp σ β) (s : σ) :
    (op >>= next) s = match op s with
      | (.ok a, s) => next a s
      | (.error f, s) => (.error f, s) := by
  have h : (op >>= next) s = ExceptT.bindCont next (op s).1 (op s).2 := rfl
  rw [h]
  rcases op s with ⟨_ | _, _⟩ <;> rfl

theorem StateOp.map_eq_bind {σ α β : Type} (f : α → β) (op : StateOp σ α) :
    f <$> op = op >>= fun a => fun s => (.ok (f a), s) := by
  funext s
  rw [map_eq_pure_bind, run_bind, run_bind]
  rfl

/-- Steps that leave the state alone leave it alone together. -/
theorem StateOp.mapM_eq {σ α β : Type} {step : α → StateOp σ β} {result : α → Except Failure β}
    (h : ∀ a s, step a s = (result a, s)) (as : List α) (s : σ) :
    as.mapM step s = (as.mapM result, s) := by
  induction as with
  | nil => rfl
  | cons a as ih =>
    rw [List.mapM_cons, List.mapM_cons, run_bind, h]
    cases result a with
    | error f => rfl
    | ok b =>
      dsimp only
      rw [run_bind, ih]
      cases as.mapM result <;> rfl

/-- What an operation does with a vault, one step after the other. -/
inductive Script (α : Type) : Type 1
  | done (result : Except Failure α)
  | files {β : Type} (op : VaultM β) (accesses : Accesses op) (next : β → Script α)
  | graph (next : Graph → Script α)
  | forget (next : Script α)

/-- The ways to a vault: to its files, to its graph, and to have the graph forgotten. -/
structure Port (σ : Type) where
  files : {β : Type} → VaultM β → StateOp σ β
  graph : StateOp σ Graph
  forget : StateOp σ Unit

namespace Script

def run {σ α : Type} (port : Port σ) : Script α → StateOp σ α
  | done result => fun s => (result, s)
  | files op _ next => port.files op >>= fun b => run port (next b)
  | graph next => port.graph >>= fun g => run port (next g)
  | forget next => port.forget >>= fun _ => run port next

end Script

/-- Operations that have the same result on related states and leave them related. -/
def Related {σ τ α : Type} (R : σ → τ → Prop) (op : StateOp σ α) (op' : StateOp τ α) : Prop :=
  ∀ s t, R s t → ∃ result s' t', op s = (result, s') ∧ op' t = (result, t') ∧ R s' t'

namespace Related

variable {σ τ α β : Type} {R : σ → τ → Prop}

theorem bind {op : StateOp σ α} {op' : StateOp τ α} {next : α → StateOp σ β}
    {next' : α → StateOp τ β} (hop : Related R op op') (hnext : ∀ a, Related R (next a) (next' a)) :
    Related R (op >>= next) (op' >>= next') := by
  intro s t hst
  obtain ⟨result, s', t', hs, ht, hst'⟩ := hop s t hst
  rw [StateOp.run_bind, StateOp.run_bind, hs, ht]
  cases result with
  | error f => exact ⟨.error f, s', t', rfl, rfl, hst'⟩
  | ok a => exact hnext a s' t' hst'

/-- Scripts are related if the ways to the vault are. -/
theorem script {port : Port σ} {port' : Port τ}
    (hfiles : ∀ {β : Type} (op : VaultM β), Accesses op →
      Related R (port.files op) (port'.files op))
    (hgraph : Related R port.graph port'.graph) (hforget : Related R port.forget port'.forget)
    (script : Script α) : Related R (script.run port) (script.run port') := by
  induction script with
  | done result => exact fun s t hst => ⟨result, s, t, rfl, rfl, hst⟩
  | files op haccesses next ih => exact (hfiles op haccesses).bind ih
  | graph next ih => exact hgraph.bind ih
  | forget next ih => exact hforget.bind fun _ => ih

end Related

/-- An operation that leaves the name of its vault as it is. -/
def KeepsName {α : Type} (op : VaultM α) : Prop := ∀ now v, (op now v).2.name = v.name

namespace KeepsName

theorem invalidate : KeepsName (Vault.invalidate : VaultM Unit) := fun _ _ => rfl

theorem bind {α β : Type} {op : VaultM α} {next : α → VaultM β} (hop : KeepsName op)
    (hnext : ∀ a, KeepsName (next a)) : KeepsName (op >>= next) := by
  intro now v
  have hname := hop now v
  rw [run_bind]
  rcases hrun : op now v with ⟨f | a, w⟩
  · rwa [hrun] at hname
  · rw [hrun] at hname
    exact (hnext a now w).trans hname

end KeepsName

theorem Accesses.keepsName {α : Type} {op : VaultM α} (h : Accesses op) : KeepsName op := by
  intro now v
  obtain ⟨result, store, hrun⟩ := h.exists_run now v
  rw [hrun]

namespace Session

/-- What a session can be asked of a vault. -/
inductive Request where
  | note (path : String)
  | graph
  | outgoing (path : String)
  | incoming (path : String)
  | neighbors (path : String) (depth : Int) (direction : String) (limit : Int)
  | connection (source target : String) (depth : Int)
  | orphans
  | statistics
  | bases
  | base (path : String)
  | createBase (path : String) (filters folder : Option String) (columns : Option (List String))
      (views : Value)
  | updateBase (path : String) (change : BaseChange)
  | queryBase (path : String) (index : Int)
  | conversationsBase (path : String) (source folder : Option String)
  | search (criteria : Conversation.Criteria) (limit : Int)
  | analysis (path : String)
  | census
  | invalidate

/-- What a request comes to if it does not fail. -/
inductive Answer where
  | note (note : Note)
  | graph (graph : Graph)
  | links (links : LinkedNotes)
  | neighborhood (neighborhood : Neighborhood)
  | connection (connection : Connection)
  | orphans (notes : List GraphNode)
  | statistics (statistics : GraphStatistics)
  | bases (bases : List BaseEntry)
  | base (base : BaseFile)
  | query (result : QueryResult)
  | search (result : Conversation.SearchResult)
  | analysis (analysis : Conversation.Analysis)
  | census (census : Conversation.Census)
  | done

def perform (vault : Option String) : Request → SessionM Answer
  | .note path => .note <$> note vault path
  | .graph => .graph <$> on vault Vault.graph
  | .outgoing path => .links <$> outgoing vault path
  | .incoming path => .links <$> incoming vault path
  | .neighbors path depth direction limit =>
    .neighborhood <$> neighbors vault path depth direction limit
  | .connection source target depth => .connection <$> connection vault source target depth
  | .orphans => .orphans <$> orphans vault
  | .statistics => .statistics <$> statistics vault
  | .bases => .bases <$> bases vault
  | .base path => .base <$> base vault path
  | .createBase path filters folder columns views =>
    .base <$> createBase vault path filters folder columns views
  | .updateBase path change => .base <$> updateBase vault path change
  | .queryBase path index => .query <$> queryBase vault path index
  | .conversationsBase path source folder =>
    .base <$> conversationsBase vault path source folder
  | .search criteria limit => .search <$> search vault criteria limit
  | .analysis path => .analysis <$> analysis vault path
  | .census => .census <$> census vault
  | .invalidate => (fun _ => .done) <$> on vault Vault.invalidate

/-- Goes on only with numbers of at least one. -/
def checked (parameter : String) (n : Int) (rest : Script Answer) : Script Answer :=
  if n < 1 then .done (.error (.tooSmall parameter)) else rest

/-- Writes a base and has the graph forgotten. -/
def writing (f : BaseFile) : Script Answer :=
  .files (Vault.write f.path f.base.text) (.write _ _) fun _ => .forget (.done (.ok (.base f)))

theorem accesses_loadBase (path : String) : Accesses (loadBase path) := by
  have hload : loadBase path = Vault.readText (basePath path) >>= fun text =>
      MonadExcept.ofExcept ((parsedBase text).map (⟨basePath path, ·⟩)) := by
    funext now v
    rw [run_loadBase, MarkdownVault.run_bind, Vault.run_readText, loaded, afterLoad]
    have hread : Backend.read (basePath path) v.store = v.store.read (basePath path) := rfl
    rw [hread]
    rcases (v.store.read (basePath path)).1 with f | text
    · rfl
    · exact (run_ofExcept now _ _).symm
  rw [hload]
  exact (Accesses.text _).bind fun _ => .result _

theorem accesses_runBase (b : Base) (index : Int) : Accesses (runBase b index : VaultM _) := by
  have hrecords : Accesses (records : VaultM (List Record)) :=
    (Accesses.sweep _).bind fun _ => .pure _
  exact hrecords.bind fun records => .result _

theorem accesses_conversationsIn (c : Conversation.Criteria) :
    Accesses (conversationsIn c : VaultM _) := (Accesses.sweep _).bind fun _ => .pure _

theorem accesses_runSearch (c : Conversation.Criteria) (limit : Int) :
    Accesses (runSearch c limit : VaultM _) := (accesses_conversationsIn c).bind fun _ => .pure _

theorem accesses_runCensus : Accesses (runCensus : VaultM _) :=
  (accesses_conversationsIn .none).bind fun _ => .pure _

/-- What a session does for a request. -/
def Request.script : Request → Script Answer
  | .note path => .files (Vault.readNote (notePath path)) (.note _) fun n => .done (.ok (.note n))
  | .graph => .graph fun g => .done (.ok (.graph g))
  | .outgoing path => .graph fun g =>
    .done ((nodePath g path).map fun path => .links ⟨path, g.outgoing path⟩)
  | .incoming path => .graph fun g =>
    .done ((nodePath g path).map fun path => .links ⟨path, g.incoming path⟩)
  | .neighbors path depth direction limit =>
    checked "depth" depth <| checked "max_nodes" limit <| .graph fun g => .done do
      let path ← nodePath g path
      match LinkDirection.ofText? direction with
      | none => .error (.unknownDirection direction)
      | some d => .ok (.neighborhood ⟨path, depth, d, g.neighbors path depth d limit⟩)
  | .connection source target depth => checked "max_depth" depth <| .graph fun g => .done do
    let source ← nodePath g source
    let target ← nodePath g target
    return .connection ⟨source, target, g.shortestPaths source target depth pathLimit⟩
  | .orphans => .graph fun g => .done (.ok (.orphans g.orphans))
  | .statistics => .graph fun g => .done (.ok (.statistics g.statistics))
  | .bases => .files (Vault.list none) (.list none) fun files =>
    .done (((files.filter FileEntry.isBase).mapM fun f =>
      (modifiedMoment f).map fun time => ⟨f, time⟩).map .bases)
  | .base path => .files (loadBase path) (accesses_loadBase path) fun f => .done (.ok (.base f))
  | .createBase path filters folder columns views =>
    match (newBase path filters folder columns).base.withViews? views with
    | none => .done (.error .invalidViews)
    | some b => writing { newBase path filters folder columns with base := b }
  | .updateBase path change => .files (loadBase path) (accesses_loadBase path) fun f =>
    match f.base.change? change with
    | none => .done (.error .invalidUpdate)
    | some b => writing { f with base := b }
  | .queryBase path index => .files (loadBase path) (accesses_loadBase path) fun f =>
    .files (runBase f.base index) (accesses_runBase _ _) fun result => .done (.ok (.query result))
  | .conversationsBase path source folder =>
    writing ⟨basePath path, Base.conversations source folder⟩
  | .search criteria limit => checked "max_results" limit <|
    .files (runSearch criteria limit) (accesses_runSearch _ _) fun result =>
      .done (.ok (.search result))
  | .analysis path => .files (Vault.readNote (notePath path)) (.note _) fun n =>
    .done (.ok (.analysis (.ofNote n)))
  | .census => .files runCensus accesses_runCensus fun census => .done (.ok (.census census))
  | .invalidate => .forget (.done (.ok .done))

/-- The ways to the vault that a name means. -/
def port (vault : Option String) : Port Session :=
  ⟨fun op => on vault op, on vault Vault.graph, on vault Vault.invalidate⟩

/-! ## Steps that are taken together -/

section

variable {α β : Type} {name : Option String} {s : Session} {v v' w : Vault}

theorem putVault_putVault (h : w.name = v.name) (vs : List Vault) :
    putVault w (putVault v vs) = putVault w vs := by
  induction vs with
  | nil => simp [putVault, h]
  | cons u us ih =>
    by_cases hu : u.name = v.name
    · simp [putVault, hu, h]
    · simp [putVault, hu, h, ih]

theorem putVault_of_find? {vs : List Vault} (h : vs.find? (·.name == v.name) = some v) :
    putVault v vs = vs := by
  obtain ⟨before, after, -, hvs, hput⟩ := putVault_split h
  rw [hput, hvs]

/-- A step that comes after another one finds the same vault. -/
theorem on_bind {op : VaultM α} {next : α → VaultM β} {next' : α → SessionM β}
    (hop : KeepsName op) (hkeeps : ∀ a, KeepsName (next a))
    (hnext : ∀ a s v, s.find name = .ok v → on name (next a) s = next' a s) :
    on name (op >>= next) = on name op >>= next' := by
  funext s
  rw [StateOp.run_bind]
  cases hfind : s.find name with
  | error f => rw [on_of_error hfind, on_of_error hfind]
  | ok v =>
    rw [on_of_find hfind, on_of_find hfind, MarkdownVault.run_bind]
    have hname := hop s.clock v
    rcases hrun : op s.clock v with ⟨f | a, v'⟩
    · rfl
    · rw [hrun] at hname
      have hfound := find_putVault hfind hname
      have hkept := hkeeps a s.clock v'
      dsimp only
      rw [← hnext a _ _ hfound, on_of_find hfound, putVault_putVault hkept]

theorem on_result (h : s.find name = .ok v) (result : Except Failure α) :
    on name (MonadExcept.ofExcept result) s = (result, s) := by
  rw [on_of_find h, run_ofExcept, putVault_of_find? (find?_of_find h)]

end

theorem keepsName_writeBase (f : BaseFile) : KeepsName (writeBase f) :=
  ((Accesses.write _ _).keepsName.bind fun _ => .invalidate).bind fun _ =>
    (Accesses.pure f).keepsName

section

variable (vault : Option String) {α β : Type} {shown : α → Answer}

/-- A step whose result is made into an answer, or is the reason of a failure. -/
theorem map_bind_eq {op : SessionM β} {next : β → SessionM α} {result : β → Except Failure Answer}
    (h : ∀ b s, (shown <$> next b) s = (result b, s)) :
    shown <$> (op >>= next) = op >>= fun b => fun s => (result b, s) := by
  rw [map_bind]
  exact bind_congr fun b => funext (h b)

theorem map_atLeastOne {parameter : String} {n : Int} {rest : SessionM α} {script : Script Answer}
    (h : shown <$> rest = script.run (port vault)) :
    shown <$> (atLeastOne parameter n >>= fun _ => rest) =
      (checked parameter n script).run (port vault) := by
  rw [atLeastOne, checked]
  split
  · rfl
  · rw [← h]
    rfl

theorem map_writeBase (f : BaseFile) :
    .base <$> on vault (writeBase f) = (writing f).run (port vault) := by
  have hwrite : on vault (writeBase f) = on vault (Vault.write f.path f.base.text) >>= fun _ =>
      on vault Vault.invalidate >>= fun _ => fun s => (.ok f, s) := by
    have hsteps : writeBase f = Vault.write f.path f.base.text >>= fun _ =>
        Vault.invalidate >>= fun _ => MonadExcept.ofExcept (.ok f) := by
      rw [writeBase, Vault.writeThrough, bind_assoc]
      rfl
    have hresult : KeepsName (MonadExcept.ofExcept (.ok f) : VaultM BaseFile) :=
      (Accesses.pure f).keepsName
    rw [hsteps]
    refine on_bind (Accesses.write _ _).keepsName
      (fun _ => KeepsName.invalidate.bind fun _ => hresult) fun _ s v _ => ?_
    rw [on_bind .invalidate (fun _ => hresult) fun _ s v hfind => on_result hfind (.ok f)]
  rw [hwrite, map_bind]
  refine bind_congr fun _ => ?_
  rw [map_bind]
  rfl

theorem on_changeBase (path : String) (change : BaseChange) :
    on vault (changeBase path change) = on vault (loadBase path) >>= fun f =>
      match f.base.change? change with
      | none => fun s => (.error .invalidUpdate, s)
      | some b => on vault (writeBase { f with base := b }) := by
  refine on_bind (accesses_loadBase path).keepsName (fun f => ?_) fun f s v hfind => ?_
  · cases f.base.change? change with
    | none => exact (Accesses.result (.error .invalidUpdate)).keepsName
    | some b => exact keepsName_writeBase _
  · cases f.base.change? change with
    | none => exact on_result hfind (.error .invalidUpdate)
    | some b => rfl

theorem queryBase_eq (path : String) (index : Int) :
    queryBase vault path index =
      on vault (loadBase path) >>= fun f => on vault (runBase f.base index) :=
  on_bind (accesses_loadBase path).keepsName (fun _ => (accesses_runBase _ _).keepsName)
    fun _ _ _ _ => rfl

end

/-- What a session does for a request is told by its script. -/
theorem perform_eq (vault : Option String) (request : Request) :
    perform vault request = request.script.run (port vault) := by
  cases request with
  | note path => exact StateOp.map_eq_bind _ _
  | graph => exact StateOp.map_eq_bind _ _
  | outgoing path => exact map_bind_eq fun g s => by cases nodePath g path <;> rfl
  | incoming path => exact map_bind_eq fun g s => by cases nodePath g path <;> rfl
  | neighbors path depth direction limit =>
    refine map_atLeastOne vault (map_atLeastOne vault (map_bind_eq fun g s => ?_))
    cases nodePath g path with
    | error f => rfl
    | ok path => cases LinkDirection.ofText? direction <;> rfl
  | connection source target depth =>
    refine map_atLeastOne vault (map_bind_eq fun g s => ?_)
    cases nodePath g source with
    | error f => rfl
    | ok source => cases nodePath g target <;> rfl
  | orphans => exact map_bind_eq fun _ _ => rfl
  | statistics => exact map_bind_eq fun _ _ => rfl
  | bases =>
    refine map_bind_eq fun files s => ?_
    have hdated (f : FileEntry) (s : Session) :
        (do return ⟨f, ← modifiedMoment f⟩ : SessionM BaseEntry) s =
          ((modifiedMoment f).map fun time => ⟨f, time⟩, s) := by
      cases modifiedMoment f <;> rfl
    rw [StateOp.map_eq_bind, StateOp.run_bind, StateOp.mapM_eq hdated]
    cases ((files.filter FileEntry.isBase).mapM _ : Except Failure (List BaseEntry)) <;> rfl
  | base path => exact StateOp.map_eq_bind _ _
  | createBase path filters folder columns views =>
    rw [perform, createBase, Request.script]
    dsimp only
    cases (newBase path filters folder columns).base.withViews? views with
    | none => rfl
    | some b => exact map_writeBase vault _
  | updateBase path change =>
    rw [perform, updateBase, on_changeBase, map_bind]
    refine bind_congr fun f => ?_
    dsimp only
    cases f.base.change? change with
    | none => rfl
    | some b => exact map_writeBase vault _
  | queryBase path index =>
    rw [perform, queryBase_eq, map_bind]
    exact bind_congr fun f => StateOp.map_eq_bind _ _
  | conversationsBase path source folder => exact map_writeBase vault _
  | search criteria limit => exact map_atLeastOne vault (StateOp.map_eq_bind _ _)
  | analysis path => exact map_bind_eq fun _ _ => rfl
  | census => exact StateOp.map_eq_bind _ _
  | invalidate => exact StateOp.map_eq_bind _ _

end Session

end MarkdownVault
