import Mathlib.Tactic.IntervalCases
import MarkdownVault.Proofs.Graph.Provenance

/-!
# Fresh graphs

If a backend shows the files as they are, a call returns the graph of these files, provided that
every change was followed by an invalidation before the call, and none happens during it.
-/

namespace MarkdownVault

/-! ## Builds on files that stay as they are -/

namespace Build

variable {b : Build} {files : Files}

/-- What a build comes to if these notes are still to be read. -/
def graphAfter (files : Files) (b : Build) (pending : List FileEntry) : Except Failure Graph :=
  (Reply.glean Vault.buildReader (Backend.replies Vault.listedPath pending files)).bind fun notes =>
    graph { b with notes := b.notes ++ notes }

/-- What a build comes to if it is answered from now on as files show it. -/
def graphOn (files : Files) (b : Build) : Except Failure Graph :=
  match b.pending with
  | none =>
    (files.listing none).bind fun listed => b.graphAfter files (listed.filter FileEntry.isNote)
  | some pending => b.graphAfter files pending

theorem graphOn_some {pending : List FileEntry} (h : b.pending = some pending) :
    b.graphOn files = b.graphAfter files pending := by rw [graphOn, h]

theorem graphOn_of_isComplete (h : b.isComplete) : b.graphOn files = b.graph := by
  rcases hp : b.pending with _ | _ | ⟨file, rest⟩
  case none => simp [isComplete, hp] at h
  case some.nil =>
    simp [graphOn_some hp, graphAfter, Backend.replies, Reply.glean, Except.bind]
  case some.cons => simp [isComplete, hp] at h

/-- Being answered as the files show it changes nothing about what a build comes to. -/
theorem graphOn_advanceOn (files : Files) (b : Build) :
    (b.advanceOn files).bind (graphOn files) = b.graphOn files := by
  rcases hp : b.pending with _ | _ | ⟨file, rest⟩
  case none =>
    rw [advanceOn_none hp, graphOn, hp]
    cases files.listing none <;> rfl
  case some.nil =>
    rw [advanceOn_nil hp]
    rfl
  case some.cons =>
    have htaken : Reply.taken Vault.buildReader (Backend.reply Vault.listedPath file files).1 =
        taken file (files.text file.path) := rfl
    have hnext : (Backend.reply Vault.listedPath file files).2 = files := rfl
    rw [advanceOn_cons hp, graphOn_some hp, graphAfter, Backend.replies, Reply.glean, htaken, hnext]
    cases taken file (files.text file.path) with
    | error f => rfl
    | ok note =>
      have hpass : (b.pass note).pending = some rest := by simp [pass, hp]
      simp only [Except.map, Except.bind, graphOn_some hpass, graphAfter]
      cases Reply.glean Vault.buildReader (Backend.replies Vault.listedPath rest files) with
      | error f => rfl
      | ok notes => simp [pass, graph, finish]

theorem graphOn_replay {answers : List Files} (h : ∀ shown ∈ answers, shown = files) (b : Build) :
    (b.replay answers).bind (graphOn files) = b.graphOn files := by
  induction answers generalizing b with
  | nil => rfl
  | cons shown rest ih =>
    obtain rfl := h shown List.mem_cons_self
    rw [← graphOn_advanceOn, replay, List.foldlM_cons]
    cases b.advanceOn shown with
    | error f => rfl
    | ok next => exact ih (fun _ hs => h _ (List.mem_cons_of_mem _ hs)) next

theorem eq_graphOn_of_outcome? {answers : List Files} (h : ∀ shown ∈ answers, shown = files)
    {result : Except Failure Graph} (hr : b.outcome? answers = some result) :
    result = b.graphOn files := by
  rw [← graphOn_replay h]
  rw [outcome?] at hr
  cases hreplay : b.replay answers with
  | error f =>
    rw [hreplay] at hr
    exact (Option.some.inj hr).symm
  | ok next =>
    rw [hreplay] at hr
    obtain ⟨hcomplete, hgraph⟩ := Option.ite_none_right_eq_some.1 hr
    rw [← Option.some.inj hgraph]
    exact (graphOn_of_isComplete hcomplete).symm

/-- A build from the start comes to what a single call returns. -/
theorem graphOn_start (m : GraphMemo) (now : Binary64) (name : String) :
    (start m).graphOn files = (Vault.graph now ⟨name, files, .empty⟩).1 := by
  have hgraph : (Vault.graph now ⟨name, files, .empty⟩).1 =
      (Vault.build now ⟨name, files, .empty⟩).1.map Snapshot.graph := by
    rw [Vault.graph, run_bind_pure]
    rfl
  rw [hgraph, Vault.result_build, graphOn, start, Vault.graphOf]
  simp only [Backend.list]
  cases files.listing none with
  | error f => rfl
  | ok listed =>
    simp only [Except.bind, graphAfter, List.nil_append]
    cases Reply.glean Vault.buildReader
        (Backend.replies Vault.listedPath (listed.filter FileEntry.isNote) files) with
    | error f => rfl
    | ok notes =>
      simp only [graph, finish]
      cases Graph.ofNotes? notes <;> rfl

end Build

namespace Schedule

variable {files : Files} {events : List Event}

theorem files_step {s : State} {e : Event} (h : ∀ shown, e ≠ .change shown) :
    (s.step e).files = s.files := by
  cases e with
  | change shown => exact absurd rfl (h shown)
  | invalidate | build | answer => rfl
  | get | resume =>
    rw [State.step, State.react]
    split <;> rfl

/-- The files stay as they were at a time if they do not change from then on. -/
theorem files_run_take {t : Nat} (h : ∀ u shown, events[u]? = some (.change shown) → u < t) :
    (run files (events.take t)).files = (run files events).files := by
  induction events using List.reverseRecOn with
  | nil => rw [List.take_nil]
  | append_singleton events e ih =>
    by_cases ht : t ≤ events.length
    · have hold : ∀ u shown, events[u]? = some (.change shown) → u < t := by
        intro u shown hu
        have hlt := (List.getElem?_eq_some_iff.1 hu).1
        exact h u shown (by rw [List.getElem?_append_left hlt, hu])
      have he : ∀ shown, e ≠ .change shown := by
        rintro shown rfl
        have := h events.length shown (by simp)
        omega
      rw [List.take_append_of_le_length ht, ih hold, run_concat, files_step he]
    · have hlength : (events ++ [e]).length ≤ t := by
        rw [List.length_append, List.length_singleton]
        omega
      rw [List.take_of_length_le hlength]

theorem result_of_unchanged {i started : Nat} {taken : List Answer}
    {result : Except Failure Snapshot} (hf : Faithful files events)
    (hb : (run files events).Built i started taken result)
    (h : ∀ t shown, events[t]? = some (.change shown) → t < started) (now : Binary64)
    (name : String) :
    result.map Snapshot.graph = (Vault.graph now ⟨name, (run files events).files, .empty⟩).1 := by
  obtain ⟨m, hm⟩ := hb.outcome
  rw [← Build.graphOn_start m now name]
  have hshown : ∀ shown ∈ taken.map Answer.files, shown = (run files events).files := by
    intro shown hs
    obtain ⟨a, ha, rfl⟩ := List.mem_map.1 hs
    obtain ⟨hlater, hanswer⟩ := hb.gave a ha
    rw [history_run] at hanswer
    rw [← hf a.time i a.files hanswer]
    apply files_run_take
    intro u shown hu
    exact Nat.lt_trans (h u shown hu) hlater
  exact Build.eq_graphOn_of_outcome? hshown hm

/-! ## Calls that come to an end -/

/-- A call ends if only it and the backend go on. -/
def EndsAlone (i : Nat) (s : State) : Prop :=
  ∃ more : List Event, (∀ e ∈ more, e = .answer i s.files ∨ e = .resume i) ∧
    ∃ c, (more.foldl State.step s).calls[i]? = some c ∧ c.result?.isSome

variable {s : State} {i started : Nat} {b : Build} {taken : List Answer}

theorem EndsAlone.of_result {c : Call} (hcall : s.calls[i]? = some c) (h : c.result?.isSome) :
    EndsAlone i s := by
  refine ⟨[], ?_, c, hcall, h⟩
  simp

theorem EndsAlone.of_step {e : Event} (he : e = .answer i s.files ∨ e = .resume i)
    (h : EndsAlone i (s.step e)) : EndsAlone i s := by
  obtain ⟨more, hmore, hend⟩ := h
  have hfiles : (s.step e).files = s.files := by
    apply files_step
    rcases he with rfl | rfl <;> simp
  refine ⟨e :: more, ?_, hend⟩
  intro e' he'
  rcases List.mem_cons.1 he' with rfl | he'
  · exact he
  · exact hfiles ▸ hmore e' he'

/-- A build that has its answer goes on with it. -/
theorem endsAlone_of_waiting {a : Answer}
    (hcall : s.calls[i]? = some ⟨started, .running ⟨b, taken, some a⟩⟩)
    (hnext : ∀ next s', b.advanceOn a.files = .ok next →
      s'.calls[i]? = some ⟨started, .running ⟨next, taken ++ [a], none⟩⟩ → ¬next.isComplete →
      EndsAlone i s') : EndsAlone i s := by
  refine .of_step (.inr rfl) ?_
  have hlt := (List.getElem?_eq_some_iff.1 hcall).1
  have hresumed : (s.step (.resume i)).calls[i]? =
      some ⟨started, (Call.proceed b taken a s.memo).1⟩ := by
    simp [State.step, State.react, hcall, Call.resume, List.getElem?_set_self hlt]
  rw [Call.proceed] at hresumed
  cases hadvance : b.advanceOn a.files with
  | error f =>
    rw [hadvance] at hresumed
    exact .of_result hresumed rfl
  | ok next =>
    rw [hadvance] at hresumed
    by_cases hcomplete : next.isComplete
    · simp only [hcomplete, if_true] at hresumed
      exact .of_result hresumed rfl
    · simp only [hcomplete] at hresumed
      exact hnext next _ hadvance hresumed hcomplete

theorem endsAlone_of_running (hcall : s.calls[i]? = some ⟨started, .running ⟨b, taken, none⟩⟩)
    (hnext : ∀ next s', b.advanceOn s.files = .ok next →
      s'.calls[i]? = some ⟨started, .running ⟨next, taken ++ [⟨s.history.length, s.files⟩], none⟩⟩ →
      ¬next.isComplete → EndsAlone i s') : EndsAlone i s := by
  refine .of_step (.inl rfl) ?_
  have hanswered : (s.step (.answer i s.files)).calls[i]? =
      some ⟨started, .running ⟨b, taken, some ⟨s.history.length, s.files⟩⟩⟩ := by
    simp [State.step, State.react, hcall, Call.answer]
  exact endsAlone_of_waiting hanswered hnext

theorem endsAlone_of_pending {pending : List FileEntry} (hp : b.pending = some pending)
    (hcall : s.calls[i]? = some ⟨started, .running ⟨b, taken, none⟩⟩) : EndsAlone i s := by
  induction pending generalizing s b taken with
  | nil =>
    apply endsAlone_of_running hcall
    intro next s' hadvance _ hcomplete
    rw [Build.advanceOn_nil hp] at hadvance
    obtain rfl := Except.ok.inj hadvance
    exact absurd (by simp [Build.isComplete, hp]) hcomplete
  | cons file rest ih =>
    apply endsAlone_of_running hcall
    intro next s' hadvance hcall' _
    rw [Build.advanceOn_cons hp] at hadvance
    obtain ⟨note, -, rfl⟩ := map_eq_ok_iff.1 hadvance
    have hpass : (b.pass note).pending = some rest := by simp [Build.pass, hp]
    exact ih hpass hcall'

theorem endsAlone (hcall : s.calls[i]? = some ⟨started, .running ⟨b, taken, none⟩⟩) :
    EndsAlone i s := by
  cases hp : b.pending with
  | some pending => exact endsAlone_of_pending hp hcall
  | none =>
    apply endsAlone_of_running hcall
    intro next s' hadvance hcall' _
    rw [Build.advanceOn_none hp] at hadvance
    obtain ⟨listed, -, rfl⟩ := map_eq_ok_iff.1 hadvance
    exact endsAlone_of_pending rfl hcall'

/-- No call waits for another one. -/
theorem endsAlone_of_call {c : Call} (hcall : s.calls[i]? = some c) : EndsAlone i s := by
  rcases c with ⟨started, ⟨b, taken, _ | a⟩ | _ | _⟩
  · exact endsAlone hcall
  · apply endsAlone_of_waiting hcall
    intro next s' _ hcall' _
    exact endsAlone hcall'
  all_goals exact .of_result hcall rfl

/-- Whatever the schedule, the graph that is kept was built by a call that started after the last
invalidation, a call returns a graph whose contents were shown after the last invalidation before
the call, and that is the graph of the present files if they did not change since then. Every call
ends if it is resumed. -/
theorem run_fresh (files : Files) (events : List Event) :
    (∀ snapshot, (run files events).memo.snapshot = some snapshot →
      ∃ i started taken, (run files events).Built i started taken (.ok snapshot) ∧
        ∀ t, events[t]? = some .invalidate → t < started) ∧
    (∀ c ∈ (run files events).calls, ∀ snapshot, c.result? = some (.ok snapshot) →
      ∃ i started taken, (run files events).Built i started taken (.ok snapshot) ∧
        ∀ t < c.started, events[t]? = some .invalidate → t < started ∧ ∀ a ∈ taken, t < a.time) ∧
    (Faithful files events → ∀ c ∈ (run files events).calls, ∀ result, c.result? = some result →
      (∀ t shown, events[t]? = some (.change shown) →
        ∃ u, t < u ∧ u < c.started ∧ events[u]? = some .invalidate) →
      ∀ now name, result.map Snapshot.graph =
        (Vault.graph now ⟨name, (run files events).files, .empty⟩).1) ∧
    ∀ i c, (run files events).calls[i]? = some c → EndsAlone i (run files events) := by
  have hs := sound_run files events
  have hhistory := history_run files events
  refine ⟨?memo, ?calls, ?faithful, fun i c => endsAlone_of_call⟩
  case memo =>
    intro snapshot hm
    obtain ⟨i, started, taken, hb, hunbroken⟩ := hs.memo snapshot hm
    exact ⟨i, started, taken, hb, hhistory ▸ hunbroken⟩
  case calls =>
    intro c hc snapshot hr
    obtain ⟨i, started, taken, hb, hafter⟩ := hs.exists_built hc hr
    rw [hhistory] at hafter
    refine ⟨i, started, taken, hb, ?_⟩
    intro t ht hinv
    refine ⟨hafter t ht hinv, ?_⟩
    intro a ha
    exact Nat.lt_trans (hafter t ht hinv) (hb.gave a ha).1
  case faithful =>
    intro hf c hc result hr hchanges now name
    obtain ⟨i, started, taken, hb, hafter⟩ := hs.exists_built hc hr
    have hunchanged : ∀ t shown, events[t]? = some (.change shown) → t < started := by
      intro t shown ht
      obtain ⟨u, htu, huc, hinv⟩ := hchanges t shown ht
      exact Nat.lt_trans htu (hafter u huc (by rw [hhistory, hinv]))
    exact result_of_unchanged hf hb hunchanged now name

/-- A vault with one note. -/
def oneNote (text : String) : Files where
  listing _ := .ok [.ofPath "a.md" .empty]
  text _ := .ok text

/-- Two calls for the graph, the first of them overtaken by a change, and a third one. -/
def overlapping (old new : Files) : List Event :=
  [.get, .answer 0 old, .resume 0, .change new, .invalidate, .get, .answer 1 new, .resume 1,
    .answer 1 new, .resume 1, .answer 0 new, .resume 0, .get]

theorem faithful_overlapping (old new : Files) : Faithful old (overlapping old new) := by
  intro t i shown h
  have ht : t < 13 := (List.getElem?_eq_some_iff.1 h).1
  interval_cases t <;> cases h <;> rfl

theorem eq_three_of_change {old new shown : Files} {t : Nat}
    (h : (overlapping old new)[t]? = some (.change shown)) : t = 3 := by
  have ht : t < 13 := (List.getElem?_eq_some_iff.1 h).1
  interval_cases t <;> cases h
  rfl

def overtaken : State := run (oneNote "") (overlapping (oneNote "") (oneNote "[[a]]"))

/-- The third call gets the graph of the changed note, which the second one built. -/
theorem run_fresh_overtaken :
    (∃ snapshot i started taken, overtaken.memo.snapshot = some snapshot ∧
      overtaken.Built i started taken (.ok snapshot) ∧ 4 < started) ∧
    ∃ c, overtaken.calls[2]? = some c ∧ c.started = 12 ∧ EndsAlone 2 overtaken ∧
      ∃ snapshot i started taken, c.result? = some (.ok snapshot) ∧
        overtaken.Built i started taken (.ok snapshot) ∧ 4 < started ∧ (∀ a ∈ taken, 4 < a.time) ∧
        .ok snapshot.graph = (Vault.graph default ⟨"", oneNote "[[a]]", .empty⟩).1 := by
  obtain ⟨hmemo, hcalls, hfaithful, hends⟩ :=
    run_fresh (oneNote "") (overlapping (oneNote "") (oneNote "[[a]]"))
  constructor
  · have hm : overtaken.memo.snapshot.isSome := by decide +kernel
    obtain ⟨snapshot, hm⟩ := Option.isSome_iff_exists.1 hm
    obtain ⟨i, started, taken, hb, hinv⟩ := hmemo snapshot hm
    exact ⟨snapshot, i, started, taken, hm, hb, hinv 4 rfl⟩
  · have hc : overtaken.calls[2]?.any fun c => c.started = 12 ∧ c.result?.any Except.toBool := by
      decide +kernel
    obtain ⟨c, hc, hthird⟩ := (Option.any_eq_true ..).1 hc
    obtain ⟨hstarted, hr⟩ : c.started = 12 ∧ c.result?.any Except.toBool := by simpa using hthird
    obtain ⟨result, hr, hok⟩ := (Option.any_eq_true ..).1 hr
    obtain ⟨snapshot, rfl⟩ := toBool_iff.1 hok
    have hmem := List.mem_of_getElem? hc
    obtain ⟨i, started, taken, hb, hinv⟩ := hcalls c hmem snapshot hr
    obtain ⟨hlater, htimes⟩ := hinv 4 (by omega) rfl
    have hfiles : overtaken.files = oneNote "[[a]]" := by
      refine (files_run_take (t := 4) ?_).symm
      intro u shown hu
      have hthree := eq_three_of_change hu
      omega
    have hchanges : ∀ t shown,
        (overlapping (oneNote "") (oneNote "[[a]]"))[t]? = some (.change shown) →
        ∃ u, t < u ∧ u < c.started ∧
          (overlapping (oneNote "") (oneNote "[[a]]"))[u]? = some .invalidate := by
      intro t shown ht
      have hthree := eq_three_of_change ht
      exact ⟨4, by omega, by omega, rfl⟩
    have hgraph := hfaithful (faithful_overlapping _ _) c hmem _ hr hchanges default ""
    rw [← hfiles]
    exact ⟨c, hc, hstarted, hends 2 c hc, snapshot, i, started, taken, hr, hb, hlater, htimes,
      hgraph⟩

end Schedule

end MarkdownVault
