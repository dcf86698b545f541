import Mathlib.Data.List.Induction
import MarkdownVault.Proofs.Graph.Schedule

/-!
# Where graphs come from

A build keeps its graph only if the generation is still the one at which it started, so the graph
that is kept rests on answers that are younger than every invalidation so far.
-/

namespace MarkdownVault

/-! ## Builds that are answered -/

namespace Build

variable {b b' : Build}

theorem advanceOn_none (h : b.pending = none) (files : Files) :
    b.advanceOn files = (files.listing none).map fun listed => b.listed listed := by
  simp only [advanceOn, Vault.advance, h, run_bind, Vault.run_list, Backend.list]
  cases files.listing none <;> rfl

theorem advanceOn_nil (h : b.pending = some []) (files : Files) : b.advanceOn files = .ok b := by
  simp [advanceOn, Vault.advance, h]

theorem advanceOn_cons {file : FileEntry} {rest : List FileEntry}
    (h : b.pending = some (file :: rest)) (files : Files) :
    b.advanceOn files =
      (taken file (files.text file.path)).map fun note => b.pass note := by
  simp only [advanceOn, Vault.advance, h, run_bind, run_attempt, run_ofExcept, Vault.run_readText,
    Backend.read, answered, next?, Option.bind_some, List.head?_cons]

theorem generation_advanceOn {files : Files} (h : b.advanceOn files = .ok b') :
    b'.generation = b.generation := by
  rcases hp : b.pending with _ | _ | ⟨file, rest⟩
  case none =>
    rw [advanceOn_none hp] at h
    obtain ⟨listed, -, rfl⟩ := map_eq_ok_iff.1 h
    rfl
  case some.nil =>
    rw [advanceOn_nil hp] at h
    rw [Except.ok.inj h]
  case some.cons =>
    rw [advanceOn_cons hp] at h
    obtain ⟨note, -, rfl⟩ := map_eq_ok_iff.1 h
    rfl

/-- What comes of a build that takes in these answers. -/
def replay (b : Build) (answers : List Files) : Except Failure Build :=
  answers.foldlM (fun b files => b.advanceOn files) b

theorem replay_concat (answers : List Files) (files : Files) :
    b.replay (answers ++ [files]) = (b.replay answers).bind fun b => b.advanceOn files := by
  rw [replay, List.foldlM_append]
  simp only [List.foldlM_cons, List.foldlM_nil, bind_pure]
  rfl

/-- The graph of the notes that were read. -/
def graph (b : Build) : Except Failure Graph := (b.finish .empty).1.map Snapshot.graph

theorem map_graph_finish (b : Build) (m : GraphMemo) :
    (b.finish m).1.map Snapshot.graph = b.graph := by
  rw [graph, finish, finish]
  cases Graph.ofNotes? b.notes <;> rfl

theorem generation_finish (b : Build) (m : GraphMemo) :
    (b.finish m).2.generation = m.generation := by
  rw [finish]
  cases Graph.ofNotes? b.notes <;> rfl

/-- A graph that is kept is the old one, or that of a build of the present generation. -/
theorem snapshot_finish {m : GraphMemo} {snapshot : Snapshot}
    (h : (b.finish m).2.snapshot = some snapshot) :
    m.snapshot = some snapshot ∨
      b.generation = m.generation ∧ (b.finish m).1 = .ok snapshot := by
  rw [finish] at h ⊢
  cases hg : Graph.ofNotes? b.notes with
  | none => exact .inl (by simpa [hg] using h)
  | some g =>
    simp only [hg, GraphMemo.finish] at h ⊢
    split at h
    case isTrue heq => exact .inr ⟨heq, congrArg Except.ok (Option.some.inj h)⟩
    case isFalse => exact .inl h

/-- What a build makes of these answers, nothing if it would ask for more. -/
def outcome? (b : Build) (answers : List Files) : Option (Except Failure Graph) :=
  match b.replay answers with
  | .error f => some (.error f)
  | .ok b => if b.isComplete then some b.graph else none

end Build

namespace Schedule

variable {s s' : State} {e : Event} {i started : Nat}

theorem Call.started_answer (a : Answer) (c : Call) : (c.answer a).started = c.started := by
  rw [answer]
  split <;> rfl

theorem Call.started_resume (m : GraphMemo) (c : Call) : (c.resume m).1.started = c.started := by
  rw [resume]
  split <;> rfl

theorem Call.generation_resume (m : GraphMemo) (c : Call) :
    (c.resume m).2.generation = m.generation := by
  rw [resume]
  split
  · rw [proceed]
    split
    · rfl
    · split
      · exact Build.generation_finish _ _
      · rfl
  · rfl

namespace State

/-- A call got an answer after it had started. -/
def Gave (s : State) (i started : Nat) (a : Answer) : Prop :=
  started < a.time ∧ s.history[a.time]? = some (.answer i a.files)

/-- A call built a graph, or failed to, from answers that it got and from nothing else. -/
structure Built (s : State) (i started : Nat) (taken : List Answer)
    (result : Except Failure Snapshot) : Prop where
  ended : s.calls[i]? = some ⟨started, .ended taken result⟩
  gave : ∀ a ∈ taken, s.Gave i started a
  outcome : ∃ m, (Build.start m).outcome? (taken.map Answer.files) =
    some (result.map Snapshot.graph)

/-- No invalidation from a time on. -/
def Unbroken (s : State) (started : Nat) : Prop :=
  ∀ t, s.history[t]? = some .invalidate → t < started

/-- A running build: it took in answers that it got, and as long as its generation lasts, nothing
was invalidated. -/
structure Running (s : State) (i started : Nat) (task : Task) : Prop where
  gave : ∀ a ∈ task.taken ++ task.waiting.toList, s.Gave i started a
  replay : Build.replay ⟨task.build.generation, none, []⟩ (task.taken.map Answer.files) =
    .ok task.build
  generation_le : task.build.generation ≤ s.memo.generation
  unbroken : task.build.generation = s.memo.generation → s.Unbroken started

def Traced (s : State) (i : Nat) (c : Call) : Prop :=
  match c.status with
  | .running task => s.Running i c.started task
  | .ended taken result => s.Built i c.started taken result
  | .remembered snapshot => ∃ j started taken, s.Built j started taken (.ok snapshot) ∧
      ∀ t < c.started, s.history[t]? = some .invalidate → t < started

/-- Every call can be traced to answers, and the graph that is kept to a build that nothing has
invalidated. -/
structure Sound (s : State) : Prop where
  started : ∀ c ∈ s.calls, c.started < s.history.length
  traced : ∀ i c, s.calls[i]? = some c → s.Traced i c
  memo : ∀ snapshot, s.memo.snapshot = some snapshot →
    ∃ i started taken, s.Built i started taken (.ok snapshot) ∧ s.Unbroken started

/-- What every event leaves as it was. -/
structure Follows (s s' : State) (e : Event) : Prop where
  history : s'.history = s.history ++ [e]
  ended : ∀ (i started : Nat) taken result, s.calls[i]? = some ⟨started, .ended taken result⟩ →
    s'.calls[i]? = some ⟨started, .ended taken result⟩
  generation_le : s.memo.generation ≤ s'.memo.generation
  generation_lt : e = .invalidate → s.memo.generation < s'.memo.generation

namespace Follows

theorem history_of (h : s.Follows s' e) {t : Nat} {e' : Event} (ht : s.history[t]? = some e') :
    s'.history[t]? = some e' := by
  rw [h.history, List.getElem?_append_left (List.getElem?_eq_some_iff.1 ht).1, ht]

theorem gave (h : s.Follows s' e) {a : Answer} (ha : s.Gave i started a) : s'.Gave i started a :=
  ⟨ha.1, h.history_of ha.2⟩

theorem built (h : s.Follows s' e) {taken : List Answer} {result : Except Failure Snapshot}
    (hb : s.Built i started taken result) : s'.Built i started taken result where
  ended := h.ended _ _ _ _ hb.ended
  gave a ha := h.gave (hb.gave a ha)
  outcome := hb.outcome

theorem invalidated_of_lt (h : s.Follows s' e) {t : Nat} (hlt : t < s.history.length)
    (ht : s'.history[t]? = some .invalidate) : s.history[t]? = some .invalidate := by
  rwa [h.history, List.getElem?_append_left hlt] at ht

theorem invalidated (h : s.Follows s' e) (he : e ≠ .invalidate) {t : Nat}
    (ht : s'.history[t]? = some .invalidate) : s.history[t]? = some .invalidate := by
  rw [h.history, List.getElem?_append] at ht
  split at ht
  · exact ht
  · cases hn : t - s.history.length <;> simp_all

theorem unbroken (h : s.Follows s' e) (he : e ≠ .invalidate) (hs : s.Unbroken started) :
    s'.Unbroken started := by
  intro t ht
  exact hs t (h.invalidated he ht)

theorem running (h : s.Follows s' e) {task : Task} (ht : s.Running i started task) :
    s'.Running i started task where
  gave a ha := h.gave (ht.gave a ha)
  replay := ht.replay
  generation_le := Nat.le_trans ht.generation_le h.generation_le
  unbroken heq := by
    have hle := ht.generation_le
    have hle' := h.generation_le
    -- An invalidation would have left the generation of the build behind.
    have he : e ≠ .invalidate := by
      intro he
      have hlt := h.generation_lt he
      omega
    exact h.unbroken he (ht.unbroken (by omega))

theorem traced (h : s.Follows s' e) {c : Call} (hstarted : c.started < s.history.length)
    (hc : s.Traced i c) : s'.Traced i c := by
  rcases c with ⟨started, task | ⟨taken, result⟩ | snapshot⟩
  · exact h.running hc
  · exact h.built hc
  · obtain ⟨j, origin, taken, hb, hafter⟩ := hc
    refine ⟨j, origin, taken, h.built hb, ?_⟩
    intro t ht hinv
    exact hafter t ht (h.invalidated_of_lt (Nat.lt_trans ht hstarted) hinv)

end Follows

theorem follows_step (s : State) (e : Event) : s.Follows (s.step e) e where
  history := rfl
  ended i started taken result h := by
    have hlt := (List.getElem?_eq_some_iff.1 h).1
    have hbegin (status : Status) : (s.begin status).calls[i]? = s.calls[i]? :=
      List.getElem?_append_left hlt
    cases e with
    | change | invalidate => exact h
    | build => exact (hbegin _).trans h
    | get =>
      rw [step, react]
      split <;> exact (hbegin _).trans h
    | answer j files =>
      rw [step, react, List.getElem?_modify, h]
      split <;> rfl
    | resume j =>
      rw [step, react]
      split
      case h_1 => exact h
      case h_2 c hc =>
        rw [List.getElem?_set]
        split
        case isFalse => exact h
        case isTrue hj =>
          subst hj
          rw [if_pos hlt, Option.some.inj (hc.symm.trans h)]
          rfl
  generation_le := by
    cases e with
    | change | build | answer => exact Nat.le_refl _
    | invalidate => exact Nat.le_succ _
    | get =>
      rw [step, react]
      split <;> exact Nat.le_refl _
    | resume j =>
      rw [step, react]
      split
      · exact Nat.le_refl _
      · exact Nat.le_of_eq (Call.generation_resume _ _).symm
  generation_lt := by
    rintro rfl
    exact Nat.lt_succ_self _

/-- It is enough to look at the calls that an event touches, and at the graph that it keeps. -/
theorem Sound.of_follows (hs : s.Sound) (h : s.Follows s' e)
    (hcalls : ∀ (i : Nat) c, s'.calls[i]? = some c →
      s.calls[i]? = some c ∨ c.started < s'.history.length ∧ s'.Traced i c)
    (hmemo : ∀ snapshot, s'.memo.snapshot = some snapshot →
      e ≠ .invalidate ∧ s.memo.snapshot = some snapshot ∨
        ∃ i started taken, s'.Built i started taken (.ok snapshot) ∧ s'.Unbroken started) :
    s'.Sound where
  started c hc := by
    obtain ⟨i, hi⟩ := List.mem_iff_getElem?.1 hc
    rcases hcalls i c hi with hold | hnew
    · rw [h.history, List.length_append]
      exact Nat.lt_add_right _ (hs.started c (List.mem_of_getElem? hold))
    · exact hnew.1
  traced i c hc := by
    rcases hcalls i c hc with hold | hnew
    · exact h.traced (hs.started c (List.mem_of_getElem? hold)) (hs.traced i c hold)
    · exact hnew.2
  memo snapshot hm := by
    rcases hmemo snapshot hm with ⟨he, hold⟩ | hnew
    · obtain ⟨i, started, taken, hb, hunbroken⟩ := hs.memo snapshot hold
      exact ⟨i, started, taken, h.built hb, h.unbroken he hunbroken⟩
    · exact hnew

/-- A call that begins is traced if it takes the graph that is kept, or starts a build. -/
theorem Sound.begin {status : Status} (hs : s.Sound) (h : s.Follows s' e) (he : e ≠ .invalidate)
    (hs' : s' = { s.begin status with history := s.history ++ [e] })
    (hstatus : status = .running ⟨.start s.memo, [], none⟩ ∨
      ∃ snapshot, s.memo.snapshot = some snapshot ∧ status = .remembered snapshot) : s'.Sound := by
  have hunbroken : s'.Unbroken s.history.length := by
    intro t ht
    exact (List.getElem?_eq_some_iff.1 (h.invalidated he ht)).1
  apply hs.of_follows h
  case hcalls =>
    intro i c hc
    rw [hs'] at hc
    rw [State.begin, List.getElem?_append] at hc
    split at hc
    case isTrue => exact .inl hc
    case isFalse =>
      obtain rfl : c = ⟨s.history.length, status⟩ := by
        cases hn : i - s.calls.length <;> simp_all
      refine .inr ⟨by simp [h.history], ?_⟩
      rcases hstatus with rfl | ⟨snapshot, hm, rfl⟩
      · constructor
        case gave => simp
        case replay => rfl
        case generation_le => exact h.generation_le
        case unbroken =>
          intro _
          exact hunbroken
      · obtain ⟨j, origin, taken, hb, hafter⟩ := hs.memo snapshot hm
        refine ⟨j, origin, taken, h.built hb, ?_⟩
        intro t ht hinv
        exact hafter t (h.invalidated_of_lt ht hinv)
  case hmemo =>
    intro snapshot hm
    rw [hs'] at hm
    exact .inl ⟨he, hm⟩

theorem Follows.traced_answer {files : Files} (h : s.Follows s' (.answer i files)) {c : Call}
    (hstarted : c.started < s.history.length) (hc : s.Traced i c) :
    s'.Traced i (c.answer ⟨s.history.length, files⟩) := by
  have hold := h.traced hstarted hc
  rcases c with ⟨started, ⟨b, taken, _ | a⟩ | _ | _⟩
  case running.none =>
    have hrunning : s'.Running i started ⟨b, taken, none⟩ := hold
    constructor
    case gave =>
      intro a ha
      rcases List.mem_append.1 ha with ha | ha
      · exact hrunning.gave a (List.mem_append_left _ ha)
      · obtain rfl := List.mem_singleton.1 ha
        exact ⟨hstarted, by simp [h.history]⟩
    case replay => exact hrunning.replay
    case generation_le => exact hrunning.generation_le
    case unbroken => exact hrunning.unbroken
  all_goals exact hold

/-- Where a resumed build stands, and what it keeps. -/
theorem Follows.traced_proceed (h : s.Follows s' (.resume i)) {b : Build} {taken : List Answer}
    {a : Answer} (hc : s.Running i started ⟨b, taken, some a⟩)
    (hcall : s'.calls[i]? = some ⟨started, (Call.proceed b taken a s.memo).1⟩) :
    s'.Traced i ⟨started, (Call.proceed b taken a s.memo).1⟩ ∧
      ∀ snapshot, (Call.proceed b taken a s.memo).2.snapshot = some snapshot →
        s.memo.snapshot = some snapshot ∨
          ∃ taken, s'.Built i started taken (.ok snapshot) ∧ s'.Unbroken started := by
  have hgave : ∀ x ∈ taken ++ [a], s'.Gave i started x := (h.running hc).gave
  have hreplay : Build.replay ⟨b.generation, none, []⟩ ((taken ++ [a]).map Answer.files) =
      b.advanceOn a.files := by
    rw [List.map_append, List.map_singleton, Build.replay_concat, hc.replay]
    rfl
  rw [Call.proceed] at hcall ⊢
  cases hadvance : b.advanceOn a.files with
  | error f =>
    rw [hadvance] at hcall hreplay
    have hbuilt : s'.Built i started (taken ++ [a]) (.error f) := by
      refine ⟨hcall, hgave, ⟨b.generation, 0, none⟩, ?_⟩
      rw [Build.outcome?, Build.start, hreplay]
      rfl
    exact ⟨hbuilt, fun snapshot hm => .inl hm⟩
  | ok next =>
    rw [hadvance] at hcall hreplay
    have hgeneration := Build.generation_advanceOn hadvance
    by_cases hcomplete : next.isComplete
    · simp only [hcomplete, if_true] at hcall ⊢
      have hbuilt : s'.Built i started (taken ++ [a]) (next.finish s.memo).1 := by
        refine ⟨hcall, hgave, ⟨b.generation, 0, none⟩, ?_⟩
        rw [Build.outcome?, Build.start, hreplay, Build.map_graph_finish]
        exact if_pos hcomplete
      refine ⟨hbuilt, ?_⟩
      intro snapshot hm
      rcases Build.snapshot_finish hm with hold | ⟨heq, hresult⟩
      · exact .inl hold
      · rw [hresult] at hbuilt
        have hunbroken := h.unbroken (by simp) (hc.unbroken (hgeneration.symm.trans heq))
        exact .inr ⟨_, hbuilt, hunbroken⟩
    · simp only [hcomplete] at hcall ⊢
      have hrunning : s'.Running i started ⟨next, taken ++ [a], none⟩ := by
        constructor
        case gave => simpa using hgave
        case replay => simpa [hgeneration] using hreplay
        case generation_le => simpa [hgeneration] using (h.running hc).generation_le
        case unbroken => simpa [hgeneration] using (h.running hc).unbroken
      exact ⟨hrunning, fun snapshot hm => .inl hm⟩

theorem Follows.traced_resume (h : s.Follows s' (.resume i)) {c : Call}
    (hstarted : c.started < s.history.length) (hc : s.Traced i c)
    (hcall : s'.calls[i]? = some (c.resume s.memo).1) :
    s'.Traced i (c.resume s.memo).1 ∧
      ∀ snapshot, (c.resume s.memo).2.snapshot = some snapshot →
        s.memo.snapshot = some snapshot ∨
          ∃ taken, s'.Built i c.started taken (.ok snapshot) ∧ s'.Unbroken c.started := by
  rcases c with ⟨started, ⟨b, taken, _ | a⟩ | _ | _⟩
  case running.some => exact h.traced_proceed hc hcall
  all_goals exact ⟨h.traced hstarted hc, fun _ hm => .inl hm⟩

theorem Sound.step_answer (hs : s.Sound) (i : Nat) (files : Files) :
    (s.step (.answer i files)).Sound := by
  have h := follows_step s (.answer i files)
  apply hs.of_follows h
  case hcalls =>
    intro j c hc
    rw [State.step, react, List.getElem?_modify] at hc
    obtain ⟨c, hold, rfl⟩ := Option.map_eq_some_iff.1 hc
    have hstarted := hs.started c (List.mem_of_getElem? hold)
    split
    case isFalse => exact .inl hold
    case isTrue hij =>
      subst hij
      refine .inr ⟨?_, h.traced_answer hstarted (hs.traced i c hold)⟩
      rw [h.history, List.length_append, Call.started_answer]
      exact Nat.lt_add_right _ hstarted
  case hmemo =>
    intro snapshot hm
    exact .inl ⟨by simp, hm⟩

theorem Sound.step_resume (hs : s.Sound) (i : Nat) : (s.step (.resume i)).Sound := by
  have h := follows_step s (.resume i)
  cases hi : s.calls[i]? with
  | none =>
    have hcalls : (s.step (.resume i)).calls = s.calls := by simp [State.step, react, hi]
    have hmemo : (s.step (.resume i)).memo = s.memo := by simp [State.step, react, hi]
    apply hs.of_follows h
    case hcalls =>
      intro j c hc
      rw [hcalls] at hc
      exact .inl hc
    case hmemo =>
      intro snapshot hm
      rw [hmemo] at hm
      exact .inl ⟨by simp, hm⟩
  | some c =>
    have hcalls : (s.step (.resume i)).calls = s.calls.set i (c.resume s.memo).1 := by
      simp [State.step, react, hi]
    have hmemo : (s.step (.resume i)).memo = (c.resume s.memo).2 := by
      simp [State.step, react, hi]
    have hstarted := hs.started c (List.mem_of_getElem? hi)
    have hlt := (List.getElem?_eq_some_iff.1 hi).1
    have hcall : (s.step (.resume i)).calls[i]? = some (c.resume s.memo).1 := by
      rw [hcalls, List.getElem?_set_self hlt]
    obtain ⟨htraced, hkept⟩ := h.traced_resume hstarted (hs.traced i c hi) hcall
    apply hs.of_follows h
    case hcalls =>
      intro j c' hc
      by_cases hij : i = j
      · subst hij
        obtain rfl := Option.some.inj (hcall.symm.trans hc)
        refine .inr ⟨?_, htraced⟩
        rw [h.history, List.length_append, Call.started_resume]
        exact Nat.lt_add_right _ hstarted
      · rw [hcalls, List.getElem?_set_ne hij] at hc
        exact .inl hc
    case hmemo =>
      intro snapshot hm
      rw [hmemo] at hm
      rcases hkept snapshot hm with hold | ⟨taken, hb, hunbroken⟩
      · exact .inl ⟨by simp, hold⟩
      · exact .inr ⟨i, c.started, taken, hb, hunbroken⟩

theorem Sound.step (hs : s.Sound) (e : Event) : (s.step e).Sound := by
  have h := follows_step s e
  cases e with
  | change files =>
    apply hs.of_follows h
    case hcalls => exact fun _ _ => .inl
    case hmemo =>
      intro snapshot hm
      exact .inl ⟨by simp, hm⟩
  | invalidate =>
    apply hs.of_follows h
    case hcalls => exact fun _ _ => .inl
    case hmemo =>
      intro snapshot hm
      cases hm
  | build => exact hs.begin h (by simp) rfl (.inl rfl)
  | get =>
    cases hm : s.memo.snapshot with
    | none =>
      have hstep : s.step .get = { s.begin (.running ⟨.start s.memo, [], none⟩) with
          history := s.history ++ [.get] } := by simp [State.step, react, hm]
      exact hs.begin h (by simp) hstep (.inl rfl)
    | some snapshot =>
      have hstep : s.step .get = { s.begin (.remembered snapshot) with
          history := s.history ++ [.get] } := by simp [State.step, react, hm]
      exact hs.begin h (by simp) hstep (.inr ⟨snapshot, hm, rfl⟩)
  | answer i files => exact hs.step_answer i files
  | resume i => exact hs.step_resume i

/-- Every call that returned got its result from a build that no earlier invalidation concerns. -/
theorem Sound.exists_built (hs : s.Sound) {c : Call} (hc : c ∈ s.calls)
    {result : Except Failure Snapshot} (hr : c.result? = some result) :
    ∃ i started taken, s.Built i started taken result ∧
      ∀ t < c.started, s.history[t]? = some .invalidate → t < started := by
  obtain ⟨i, hi⟩ := List.mem_iff_getElem?.1 hc
  have htraced := hs.traced i c hi
  rcases c with ⟨started, _ | ⟨taken, _⟩ | _⟩
  · cases hr
  · cases hr
    exact ⟨i, started, taken, htraced, fun t ht _ => ht⟩
  · cases hr
    exact htraced

end State

theorem sound_run (files : Files) (events : List Event) : (run files events).Sound := by
  induction events using List.reverseRecOn with
  | nil =>
    constructor
    case started => simp [run, State.initial]
    case traced => simp [run, State.initial]
    case memo =>
      intro _ hm
      cases hm
  | append_singleton events e ih =>
    rw [run_concat]
    exact ih.step e

theorem history_run (files : Files) (events : List Event) :
    (run files events).history = events := by
  induction events using List.reverseRecOn with
  | nil => rfl
  | append_singleton events e ih => rw [run_concat, State.step, ih]

end Schedule

end MarkdownVault
