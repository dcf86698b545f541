import MarkdownVault.Proofs.Graph.ShortestPaths
import MarkdownVault.Proofs.Loop

/-!
# A search for shortest paths

A survey notes which links lead one step farther, until a layer holds the target. One loop follows
these links back from the target and marks what it comes to; another reads walks off the links to
marked paths, with a stack of walks that are not done. Both loops end, whatever the graph, with the
shortest paths.
-/

namespace MarkdownVault

namespace Graph

/-- After how many steps a path was reached first, and the links that lead one step farther, in the
order in which they were followed. -/
structure Survey where
  reached : List (String × Nat)
  links : List (String × String)

namespace Survey

def successors (s : Survey) (p : String) : List String := (s.links.filter (·.1 == p)).map (·.2)

def predecessors (s : Survey) (p : String) : List String := (s.links.filter (·.2 == p)).map (·.1)

/-- Follows a link. What it reaches first goes to the next layer; what an earlier layer holds is
passed over. -/
def follow (steps : Nat) (state : Survey × List String) (link : String × String) :
    Survey × List String :=
  let (s, layer) := state
  match s.reached.lookup link.2 with
  | none => (⟨(link.2, steps) :: s.reached, s.links ++ [link]⟩, layer ++ [link.2])
  | some first => if first = steps then ({ s with links := s.links ++ [link] }, layer) else state

/-- The links of the paths in a layer. -/
def linksFrom (g : Graph) (layer : List String) : List (String × String) :=
  layer.flatMap fun p => (g.adjacent .both p).map (p, ·)

/-- One turn of a survey, with the layer that it adds. -/
def spread (g : Graph) (steps : Nat) (layer : List String) (s : Survey) : Survey × List String :=
  (linksFrom g layer).foldl (follow steps) (s, [])

/-- The survey at the turn that reaches the target, if it is one of the next `depth` turns. -/
def complete? (g : Graph) (target : String) : Nat → Nat → List String → Survey → Option Survey
  | 0, _, _, _ => none
  | depth + 1, steps, layer, s =>
    let (s, layer) := spread g steps layer s
    if (s.reached.lookup target).isSome then some s
    else if layer.isEmpty then none
    else complete? g target depth (steps + 1) layer s

end Survey

/-- What is known to be on the way to the target, and what of it was not looked at. -/
structure Marking where
  marked : List String
  pending : List String

namespace Marking

def mark (m : Marking) (p : String) : Marking :=
  if m.marked.contains p then m else ⟨p :: m.marked, p :: m.pending⟩

/-- One turn: the path that came last is taken up, and what leads to it is marked. -/
def next (s : Survey) (m : Marking) : Option Marking :=
  match m.pending with
  | [] => none
  | p :: pending => some ((s.predecessors p).foldl mark { m with pending })

end Marking

/-- Walks under way, each with its last stop apart, the one to go on with in front; and the paths
that are done. -/
structure Reading where
  stack : List (List String × String)
  paths : List (List String)

namespace Reading

def steps (s : Survey) (marked : List String) (p : String) : List String :=
  (s.successors p).filter marked.contains

/-- One turn: the first walk is done, or it is replaced by those that go one step farther. -/
def next (s : Survey) (marked : List String) (target : String) (limit : Nat) (r : Reading) :
    Option Reading :=
  if limit ≤ r.paths.length then none
  else match r.stack with
    | [] => none
    | (before, last) :: stack =>
      if last = target then some ⟨stack, r.paths ++ [before ++ [last]]⟩
      else some { r with
        stack := (steps s marked last).map (before ++ [last], ·) ++ stack }

/-- Reading goes on from a state and ends with some paths. -/
def Reads (s : Survey) (marked : List String) (target : String) (limit : Nat) (r : Reading)
    (paths : List (List String)) : Prop :=
  ∃ t, Ends (next s marked target limit) r t ∧ t.paths = paths

end Reading

/-- A search for the shortest paths between two notes ends with some paths. -/
def SearchEnds (g : Graph) (source target : String) (depth limit : Int)
    (paths : List (List String)) : Prop :=
  if !g.has source || !g.has target then paths = []
  else if source = target then paths = [[source]]
  else match Survey.complete? g target depth.toNat 1 [source] ⟨[(source, 0)], []⟩ with
    | none => paths = []
    | some s => ∃ m, Ends (Marking.next s) ⟨[target], [target]⟩ m ∧
        Reading.Reads s m.marked target limit.toNat ⟨[([], source)], []⟩ paths

/-! ## Surveys -/

namespace Survey

theorem mem_successors {s : Survey} {u v : String} : v ∈ s.successors u ↔ (u, v) ∈ s.links := by
  simp [successors]

theorem mem_predecessors {s : Survey} {u v : String} :
    u ∈ s.predecessors v ↔ (u, v) ∈ s.links := by
  simp [predecessors]

/-- What links to paths that were not reached in earlier turns come to. -/
theorem foldl_follow {steps : Nat} (s : Survey) (layer : List String)
    (links : List (String × String)) :
    links.foldl (follow steps) (s, layer) =
      let new := fresh (s.reached.map (·.1)) (links.map (·.2))
      (⟨(new.map (·, steps)).reverse ++ s.reached,
        s.links ++ links.filter fun l => (s.reached.lookup l.2).all (· == steps)⟩,
        layer ++ new) := by
  induction links generalizing s layer with
  | nil => simp [fresh]
  | cons l links ih =>
    rw [List.foldl_cons, List.map_cons, List.filter_cons]
    cases hfirst : s.reached.lookup l.2 with
    | none =>
      have hnew : l.2 ∉ s.reached.map (·.1) := by
        rw [mem_keys_iff]
        simp [hfirst]
      have hkept : ∀ l' : String × String,
          ((((l.2, steps) :: s.reached).lookup l'.2).all (· == steps)) =
            (s.reached.lookup l'.2).all (· == steps) := by
        intro l'
        rw [List.lookup_cons]
        by_cases h : l'.2 = l.2
        · simp [h, hfirst]
        · rw [beq_false_of_ne h]
      have hfollow : follow steps (s, layer) l =
          (⟨(l.2, steps) :: s.reached, s.links ++ [l]⟩, layer ++ [l.2]) := by
        simp [follow, hfirst]
      rw [hfollow, ih, fresh_cons_of_notMem hnew]
      simp [hkept]
    | some first =>
      have hold : l.2 ∈ s.reached.map (·.1) := mem_keys_iff.2 ⟨first, hfirst⟩
      rw [fresh_cons_of_mem hold]
      by_cases h : first = steps
      · have hfollow : follow steps (s, layer) l = ({ s with links := s.links ++ [l] }, layer) := by
          simp [follow, hfirst, h]
        rw [hfollow, ih]
        simp [h]
      · have hfollow : follow steps (s, layer) l = (s, layer) := by
          simp [follow, hfirst, h]
        rw [hfollow, ih]
        simp [h]

theorem map_snd_linksFrom (g : Graph) (layer : List String) :
    (linksFrom g layer).map (·.2) = layer.flatMap (g.adjacent .both) := by
  simp [linksFrom, List.map_flatMap, Function.comp_def]

theorem mem_linksFrom {g : Graph} {layer : List String} {u v : String} :
    (u, v) ∈ linksFrom g layer ↔ u ∈ layer ∧ g.Step .both u v := by
  simp only [linksFrom, List.mem_flatMap, List.mem_map, Prod.mk.injEq, mem_adjacent]
  constructor
  · rintro ⟨p, hp, _, hstep, rfl, rfl⟩
    exact ⟨hp, hstep⟩
  · rintro ⟨hu, hstep⟩
    exact ⟨u, hu, v, hstep, rfl, rfl⟩

/-- The links of one path in a layer, in their order. -/
theorem filter_linksFrom {g : Graph} {layer : List String} (hlayer : layer.Nodup) {u : String}
    (hu : u ∈ layer) :
    (linksFrom g layer).filter (·.1 == u) = (g.adjacent .both u).map (u, ·) := by
  have hother : ∀ ps : List String, u ∉ ps → (linksFrom g ps).filter (·.1 == u) = [] := by
    intro ps hps
    rw [List.filter_eq_nil_iff]
    rintro ⟨v, w⟩ hmem
    have hv := (mem_linksFrom.1 hmem).1
    simp only [beq_iff_eq]
    rintro rfl
    exact hps hv
  obtain ⟨before, after, rfl⟩ := List.append_of_mem hu
  rw [List.nodup_middle, List.nodup_cons, List.mem_append, not_or] at hlayer
  obtain ⟨⟨hbefore, hafter⟩, -⟩ := hlayer
  have hsplit : linksFrom g (before ++ u :: after) =
      linksFrom g before ++ ((g.adjacent .both u).map (u, ·) ++ linksFrom g after) := by
    simp [linksFrom]
  rw [hsplit, List.filter_append, List.filter_append, hother before hbefore, hother after hafter]
  simp

/-- A survey after `k` turns: every path that is near enough was reached after as many steps as it
is away, and the links are those that lead one step farther, each path's in their order. -/
structure Covers (g : Graph) (source : String) (k : Nat) (layer : List String) (s : Survey) :
    Prop where
  frontier : g.Frontier .both source k (s.reached.map (·.1)) layer
  nodup : layer.Nodup
  first_le : ∀ v j, s.reached.lookup v = some j → j ≤ k
  links : ∀ u v, (u, v) ∈ s.links → ∃ j < k, g.Distance .both j source u
  successors : ∀ j < k, ∀ u, g.Distance .both j source u →
    ∀ farther : String → Bool, (∀ v, farther v ↔ g.Distance .both (j + 1) source v) →
      s.successors u = (g.adjacent .both u).filter farther

section

variable {g : Graph} {source target : String} {k depth : Nat} {layer : List String} {s : Survey}

theorem Covers.initial : Covers g source 0 [source] ⟨[(source, 0)], []⟩ where
  frontier := .initial
  nodup := List.nodup_singleton source
  first_le v j hv := by
    rw [List.lookup_cons] at hv
    split at hv <;> simp_all
  links u v h := by simp at h
  successors j hj := absurd hj (Nat.not_lt_zero j)

theorem spread_eq (g : Graph) (steps : Nat) (layer : List String) (s : Survey) :
    spread g steps layer s =
      (⟨((g.beyond .both (s.reached.map (·.1)) layer).map (·, steps)).reverse ++ s.reached,
        s.links ++ (linksFrom g layer).filter fun l => (s.reached.lookup l.2).all (· == steps)⟩,
        g.beyond .both (s.reached.map (·.1)) layer) := by
  rw [spread, foldl_follow, map_snd_linksFrom]
  simp [beyond]

/-- Which links a turn keeps: those to paths that no earlier layer holds. -/
theorem Covers.kept_iff (h : Covers g source k layer s) {u v : String}
    (hu : g.Distance .both k source u) (hstep : g.Step .both u v) :
    (s.reached.lookup v).all (· == k + 1) ↔ g.Distance .both (k + 1) source v := by
  have hfar : g.Distance .both (k + 1) source v ↔ v ∉ s.reached.map (·.1) := by
    rw [h.frontier.mem_seen, distance_succ_iff]
    exact and_iff_left ⟨u, hu, hstep⟩
  rw [hfar, mem_keys_iff]
  cases hfirst : s.reached.lookup v with
  | none => simp
  | some j =>
    have hle := h.first_le v j hfirst
    simp
    omega

/-- Links from paths that are at another distance are none of a path's own. -/
theorem filter_links_eq_nil {links : List (String × String)} {j : Nat} {u : String}
    (hu : g.Distance .both j source u)
    (h : ∀ p v, (p, v) ∈ links → ∃ i, i ≠ j ∧ g.Distance .both i source p) :
    links.filter (·.1 == u) = [] := by
  rw [List.filter_eq_nil_iff]
  rintro ⟨p, v⟩ hmem
  obtain ⟨i, hne, hp⟩ := h p v hmem
  simp only [beq_iff_eq]
  rintro rfl
  exact hne (hp.unique hu)

/-- The successors of a path are those that the turn after its own one keeps. -/
theorem Covers.successors_spread (h : Covers g source k layer s) {j : Nat} (hj : j < k + 1)
    {u : String} (hu : g.Distance .both j source u) {farther : String → Bool}
    (hfarther : ∀ v, farther v ↔ g.Distance .both (j + 1) source v) :
    (spread g (k + 1) layer s).1.successors u = (g.adjacent .both u).filter farther := by
  have hlayer := h.frontier.mem_layer
  rw [spread_eq, Survey.successors, List.filter_append, List.map_append]
  rcases Nat.lt_succ_iff_lt_or_eq.1 hj with hj | rfl
  · have hnone : ((linksFrom g layer).filter
        fun l => (s.reached.lookup l.2).all (· == k + 1)).filter (·.1 == u) = [] :=
      filter_links_eq_nil hu fun p v hmem =>
        ⟨k, Nat.ne_of_gt hj, (hlayer p).1 (mem_linksFrom.1 (List.mem_filter.1 hmem).1).1⟩
    rw [hnone, List.map_nil, List.append_nil]
    exact h.successors j hj u hu farther hfarther
  · have hnone : s.links.filter (·.1 == u) = [] := by
      refine filter_links_eq_nil hu fun p v hmem => ?_
      obtain ⟨i, hi, hp⟩ := h.links p v hmem
      exact ⟨i, Nat.ne_of_lt hi, hp⟩
    rw [hnone, List.map_nil, List.nil_append, List.filter_comm,
      filter_linksFrom h.nodup ((hlayer u).2 hu), List.filter_map, List.map_map]
    have hsnd : (fun l : String × String => l.2) ∘ (u, ·) = id := rfl
    rw [hsnd, List.map_id]
    refine List.filter_congr fun v hv => ?_
    rw [Bool.eq_iff_iff, hfarther]
    exact h.kept_iff hu (mem_adjacent.1 hv)

theorem Covers.next (h : Covers g source k layer s) :
    Covers g source (k + 1) (spread g (k + 1) layer s).2 (spread g (k + 1) layer s).1 := by
  have hsuccessors (j : Nat) (hj : j < k + 1) (u : String) (hu : g.Distance .both j source u)
      (farther : String → Bool) (h' : ∀ v, farther v ↔ g.Distance .both (j + 1) source v) :=
    h.successors_spread hj hu h'
  have hlayer := h.frontier.mem_layer
  rw [spread_eq] at hsuccessors ⊢
  constructor
  case frontier =>
    have hnext := h.frontier.next
    simpa [List.map_reverse, Function.comp_def] using hnext
  case nodup => exact nodup_fresh
  case first_le =>
    intro v j hv
    dsimp only at hv
    rw [List.lookup_append, Option.or_eq_some_iff] at hv
    rcases hv with hnew | ⟨-, hold⟩
    · have hmem := mem_of_lookup hnew
      simp only [List.mem_reverse, List.mem_map, Prod.mk.injEq] at hmem
      obtain ⟨_, -, -, rfl⟩ := hmem
      exact le_rfl
    · exact (h.first_le v j hold).trans (Nat.le_succ k)
  case links =>
    intro u v hmem
    rcases List.mem_append.1 hmem with hold | hnew
    · obtain ⟨j, hj, hu⟩ := h.links u v hold
      exact ⟨j, by omega, hu⟩
    · have hu := (mem_linksFrom.1 (List.mem_filter.1 hnew).1).1
      exact ⟨k, Nat.lt_succ_self k, (hlayer u).1 hu⟩
  case successors => exact hsuccessors

/-- A survey is complete at the distance of the target, or the target is too far away. -/
theorem Covers.complete?_cases (h : Covers g source k layer s)
    (hfar : ¬ g.Within .both k source target) (depth : Nat) :
    (complete? g target depth (k + 1) layer s = none ∧
        ¬ g.Within .both (k + depth) source target) ∨
      ∃ final total, complete? g target depth (k + 1) layer s = some final ∧
        g.Distance .both total source target ∧ total ≤ k + depth ∧
          ∃ last, Covers g source total last final := by
  induction depth generalizing k layer s with
  | zero => exact .inl ⟨rfl, hfar⟩
  | succ depth ih =>
    have hnext := h.next
    have hreached : ((spread g (k + 1) layer s).1.reached.lookup target).isSome ↔
        g.Within .both (k + 1) source target := by
      rw [← hnext.frontier.mem_seen, mem_keys_iff, Option.isSome_iff_exists]
    have hsum : k + (depth + 1) = k + 1 + depth := by omega
    rw [complete?, hsum]
    dsimp only
    by_cases hnear : g.Within .both (k + 1) source target
    · obtain ⟨total, hle, hdistance⟩ := within_iff_exists_distance.1 hnear
      have htotal : total = k + 1 := by
        by_contra hne
        exact hfar ⟨total, by omega, hdistance.1⟩
      subst htotal
      rw [if_pos (hreached.2 hnear)]
      exact .inr ⟨_, k + 1, rfl, hdistance, by omega, _, hnext⟩
    · rw [if_neg (hreached.not.2 hnear)]
      by_cases hempty : (spread g (k + 1) layer s).2.isEmpty
      · rw [if_pos hempty]
        refine .inl ⟨rfl, fun hwithin => ?_⟩
        rw [spread_eq, List.isEmpty_iff] at hempty
        obtain ⟨j, -, hdistance⟩ := within_iff_exists_distance.1 hwithin
        rcases Nat.lt_or_ge k j with hj | hj
        · exact h.frontier.eq_nil_of_beyond hempty hj hdistance
        · exact hfar ⟨j, hj, hdistance.1⟩
      · rw [if_neg hempty]
        exact ih hnext hnear

/-- The links of a survey that is complete: one step each, one step farther. -/
theorem Covers.mem_links_iff (h : Covers g source k layer s) {u v : String} :
    (u, v) ∈ s.links ↔
      ∃ j < k, g.Distance .both j source u ∧ g.Distance .both (j + 1) source v ∧
        g.Step .both u v := by
  classical
  have hlinks : ∀ j < k, g.Distance .both j source u →
      ((u, v) ∈ s.links ↔ g.Step .both u v ∧ g.Distance .both (j + 1) source v) := by
    intro j hj hu
    rw [← mem_successors, h.successors j hj u hu
      (fun v => decide (g.Distance .both (j + 1) source v)) (fun v => by simp)]
    simp [mem_adjacent]
  constructor
  · intro hmem
    obtain ⟨j, hj, hu⟩ := h.links u v hmem
    obtain ⟨hstep, hv⟩ := (hlinks j hj hu).1 hmem
    exact ⟨j, hj, hu, hv, hstep⟩
  · rintro ⟨j, hj, hu, hv, hstep⟩
    exact (hlinks j hj hu).2 ⟨hstep, hv⟩

end

end Survey

/-! ## Marking -/

namespace Marking

variable {s : Survey} {m m' : Marking} {p v : String}

theorem mark_of_mem (h : p ∈ m.marked) : m.mark p = m := by simp [mark, h]

theorem mark_of_notMem (h : p ∉ m.marked) : m.mark p = ⟨p :: m.marked, p :: m.pending⟩ := by
  simp [mark, h]

/-- Marking takes in what is new and puts it in front. -/
theorem foldl_mark (m : Marking) (ps : List String) :
    ps.foldl mark m =
      ⟨(fresh m.marked ps).reverse ++ m.marked, (fresh m.marked ps).reverse ++ m.pending⟩ := by
  induction ps generalizing m with
  | nil => rfl
  | cons p ps ih =>
    rw [List.foldl_cons, ih]
    by_cases h : p ∈ m.marked
    · rw [mark_of_mem h, fresh_cons_of_mem h]
    · rw [mark_of_notMem h, fresh_cons_of_notMem h]
      simp

theorem mem_marked_foldl {ps : List String} :
    v ∈ (ps.foldl mark m).marked ↔ v ∈ ps ∨ v ∈ m.marked := by
  rw [foldl_mark]
  simp only [List.mem_append, List.mem_reverse, mem_fresh]
  by_cases h : v ∈ m.marked <;> simp [h]

/-- How much is still to do: what is pending, and the links from what is not marked yet. -/
def work (s : Survey) (m : Marking) : Nat :=
  (s.links.filter fun l => !m.marked.contains l.1).length + m.pending.length

theorem work_mark_le (h : p ∈ s.links.map (·.1)) : work s (m.mark p) ≤ work s m := by
  by_cases hp : p ∈ m.marked
  · rw [mark_of_mem hp]
  · rw [mark_of_notMem hp, work, work, List.length_cons]
    have hfilter : (s.links.filter fun l => !(p :: m.marked).contains l.1) =
        (s.links.filter fun l => !m.marked.contains l.1).filter fun l => l.1 != p := by
      rw [List.filter_filter]
      refine List.filter_congr fun l _ => ?_
      rw [List.contains_cons, Bool.not_or, bne]
    have hless : ((s.links.filter fun l => !m.marked.contains l.1).filter
        fun l => l.1 != p).length < (s.links.filter fun l => !m.marked.contains l.1).length := by
      rw [List.length_filter_lt_length_iff_exists]
      obtain ⟨l, hl, rfl⟩ := List.mem_map.1 h
      exact ⟨l, List.mem_filter.2 ⟨hl, by simpa using hp⟩, by simp⟩
    rw [hfilter]
    omega

theorem work_next_lt (h : m.next s = some m') : work s m' < work s m := by
  unfold next at h
  split at h
  case h_1 => cases h
  case h_2 p pending hpending =>
    cases h
    have hfold : ∀ (ps : List String) (m : Marking), (∀ p ∈ ps, p ∈ s.links.map (·.1)) →
        work s (ps.foldl mark m) ≤ work s m := by
      intro ps
      induction ps with
      | nil => exact fun m _ => le_rfl
      | cons p ps ih =>
        intro m hps
        obtain ⟨hp, hps⟩ := List.forall_mem_cons.1 hps
        exact (ih _ hps).trans (work_mark_le hp)
    have hsources : ∀ u ∈ s.predecessors p, u ∈ s.links.map (·.1) :=
      fun u hu => List.mem_map.2 ⟨(u, p), Survey.mem_predecessors.1 hu, rfl⟩
    have hle := hfold _ { m with pending } hsources
    have hless : work s { m with pending } < work s m := by simp [work, hpending]
    omega

/-- Marking comes to an end, whatever the links. -/
theorem exists_ends (s : Survey) (m : Marking) : ∃ t, Ends (next s) m t :=
  Ends.exists_of_measure (work s) (fun _ _ h => work_next_lt h) m

/-- Whatever is marked has a property, and what leads to it is marked too, unless it is still
pending. -/
structure Sound (s : Survey) (target : String) (P : String → Prop) (m : Marking) : Prop where
  target_mem : target ∈ m.marked
  pending_subset : m.pending ⊆ m.marked
  holds : ∀ v ∈ m.marked, P v
  closed : ∀ v ∈ m.marked, v ∈ m.pending ∨ ∀ u, (u, v) ∈ s.links → u ∈ m.marked

section

variable {target : String} {P : String → Prop}

theorem Sound.next (hP : ∀ u v, P v → (u, v) ∈ s.links → P u) (h : Sound s target P m)
    (hnext : m.next s = some m') : Sound s target P m' := by
  unfold Marking.next at hnext
  split at hnext
  case h_1 => cases hnext
  case h_2 p pending hpending =>
    cases hnext
    have hp : p ∈ m.marked := h.pending_subset (by simp [hpending])
    have hrest : pending ⊆ m.marked := fun v hv => h.pending_subset (by simp [hpending, hv])
    constructor
    case target_mem => exact mem_marked_foldl.2 (.inr h.target_mem)
    case pending_subset =>
      rw [foldl_mark]
      exact List.append_subset.2 ⟨List.subset_append_left _ _,
        List.Subset.trans hrest (List.subset_append_right _ _)⟩
    case holds =>
      intro v hv
      rcases mem_marked_foldl.1 hv with hnew | hold
      · exact hP v p (h.holds p hp) (Survey.mem_predecessors.1 hnew)
      · exact h.holds v hold
    case closed =>
      intro v hv
      rw [foldl_mark] at hv
      rcases List.mem_append.1 hv with hnew | hold
      · rw [foldl_mark]
        exact .inl (List.mem_append_left _ hnew)
      · rcases h.closed v hold with hwaiting | hclosed
        · rw [hpending, List.mem_cons] at hwaiting
          rcases hwaiting with rfl | hwaiting
          · exact .inr fun u hu => mem_marked_foldl.2 (.inl (Survey.mem_predecessors.2 hu))
          · rw [foldl_mark]
            exact .inl (List.mem_append_right _ hwaiting)
        · exact .inr fun u hu => mem_marked_foldl.2 (.inr (hclosed u hu))

theorem Sound.initial (htarget : P target) : Sound s target P ⟨[target], [target]⟩ where
  target_mem := List.mem_singleton.2 rfl
  pending_subset := List.Subset.refl _
  holds _ hv := List.mem_singleton.1 hv ▸ htarget
  closed _ hv := .inl hv

end

/-- What is marked in the end is what is on the way. -/
theorem mem_marked_iff {g : Graph} {source target : String} {total : Nat} {layer : List String}
    (hcovers : Survey.Covers g source total layer s) (h : g.Distance .both total source target)
    (hends : Ends (next s) ⟨[target], [target]⟩ m) :
    v ∈ m.marked ↔ ∃ k, g.OnWay source target total k v := by
  have hback : ∀ u v, (∃ k, g.OnWay source target total k v) → (u, v) ∈ s.links →
      ∃ k, g.OnWay source target total k u := by
    rintro u v ⟨k, hv⟩ hlink
    obtain ⟨j, hj, hu, hnext, hstep⟩ := hcovers.mem_links_iff.1 hlink
    obtain rfl := hnext.unique hv.distance
    exact ⟨j, (onWay_iff_exists_step h hj).2 ⟨hu, v, hstep, hv⟩⟩
  obtain ⟨hsound, hdone⟩ := hends.invariant (fun _ _ => Sound.next hback)
    (Sound.initial ⟨total, (onWay_total_iff h).2 rfl⟩)
  have hempty : m.pending = [] := by
    unfold next at hdone
    split at hdone
    case h_1 hnil => exact hnil
    case h_2 => cases hdone
  refine ⟨hsound.holds v, ?_⟩
  rintro ⟨k, hv⟩
  -- from the target backwards: whatever is on the way leads to what is marked already
  obtain ⟨left, hleft⟩ : ∃ left, total = k + left := Nat.exists_eq_add_of_le hv.le
  induction left generalizing k v with
  | zero =>
    rw [Nat.add_zero] at hleft
    subst hleft
    rw [(onWay_total_iff h).1 hv]
    exact hsound.target_mem
  | succ left ih =>
    obtain ⟨-, w, hstep, hw⟩ := (onWay_iff_exists_step h (by omega)).1 hv
    have hmarked : w ∈ m.marked := ih (k + 1) hw (by omega)
    have hclosed := (hsound.closed w hmarked).resolve_left (by simp [hempty])
    exact hclosed v (hcovers.mem_links_iff.2 ⟨k, by omega, hv.distance, hw.distance, hstep⟩)

end Marking

/-! ## Reading -/

namespace Reading

variable {s : Survey} {marked : List String} {target : String} {limit : Nat} {r r' : Reading}
  {paths paths' : List (List String)}

theorem Reads.turn (hturn : r.next s marked target limit = some r')
    (h : Reads s marked target limit r' paths) : Reads s marked target limit r paths := by
  obtain ⟨t, hends, hpaths⟩ := h
  exact ⟨t, .turn hturn hends, hpaths⟩

theorem Reads.unique (h : Reads s marked target limit r paths)
    (h' : Reads s marked target limit r paths') : paths = paths' := by
  obtain ⟨t, hends, rfl⟩ := h
  obtain ⟨t', hends', rfl⟩ := h'
  rw [hends.unique hends']

theorem reads_of_full (h : limit ≤ r.paths.length) : Reads s marked target limit r r.paths :=
  ⟨r, .done (if_pos h), rfl⟩

theorem reads_nil (paths : List (List String)) :
    Reads s marked target limit ⟨[], paths⟩ paths :=
  ⟨_, .done (by simp [next]), rfl⟩

theorem take_append_take {α : Type} (n : Nat) (xs ys : List α) :
    (xs.take n ++ ys).take n = (xs ++ ys).take n := by
  rw [List.take_append, List.take_append, List.take_take, Nat.min_self, List.length_take]
  congr 2
  omega

/-- Where there is no room left, whatever is still on the stack stays there. -/
theorem reads_of_room {stack stack' : List (List String × String)} {more : List (List String)}
    (hroom : paths.length ≤ limit)
    (hrest : Reads s marked target limit ⟨stack, (paths ++ more).take limit⟩ paths')
    (hstep : paths.length < limit → Reads s marked target limit ⟨stack', paths⟩ paths') :
    Reads s marked target limit ⟨stack', paths⟩ paths' := by
  rcases Nat.eq_or_lt_of_le hroom with heq | hless
  · subst heq
    rw [List.take_left] at hrest
    rw [hrest.unique (reads_of_full le_rfl)]
    exact reads_of_full le_rfl
  · exact hstep hless

/-- Walks that part at their last stop are read one after the other. -/
theorem reads_of_each {before : List String} {stops : List String}
    {more : String → List (List String)} {stack : List (List String × String)}
    (heach : ∀ q ∈ stops, ∀ stack paths, paths.length ≤ limit →
      Reads s marked target limit ⟨stack, (paths ++ more q).take limit⟩ paths' →
        Reads s marked target limit ⟨(before, q) :: stack, paths⟩ paths')
    (hroom : paths.length ≤ limit)
    (hrest : Reads s marked target limit ⟨stack, (paths ++ stops.flatMap more).take limit⟩ paths') :
    Reads s marked target limit ⟨stops.map (before, ·) ++ stack, paths⟩ paths' := by
  induction stops generalizing paths with
  | nil => simpa [List.take_of_length_le hroom] using hrest
  | cons q stops ih =>
    obtain ⟨hq, hstops⟩ := List.forall_mem_cons.1 heach
    refine hq _ _ hroom (ih hstops (List.length_take_le _ _) ?_)
    rwa [take_append_take, List.append_assoc, ← List.flatMap_cons]

section

variable {g : Graph} {source : String} {total : Nat} {last : List String}
  (hcovers : Survey.Covers g source total last s) (h : g.Distance .both total source target)
  (hmarked : ∀ v, v ∈ marked ↔ ∃ k, g.OnWay source target total k v)

include hcovers hmarked in
/-- The steps from a stop on the way are those to the next stops on the way. -/
theorem steps_eq {k : Nat} (hk : k < total) {u : String} (hu : g.OnWay source target total k u)
    {layer : List String} (hlayer : ∀ v, v ∈ layer ↔ g.OnWay source target total (k + 1) v) :
    steps s marked u = (g.adjacent .both u).filter layer.contains := by
  classical
  rw [steps, hcovers.successors k hk u hu.distance
    (fun v => decide (g.Distance .both (k + 1) source v)) (fun v => by simp), List.filter_filter]
  refine List.filter_congr fun v _ => ?_
  rw [Bool.eq_iff_iff]
  simp only [Bool.and_eq_true, List.contains_iff_mem, decide_eq_true_eq, hmarked, hlayer]
  constructor
  · rintro ⟨⟨j, hv⟩, hdistance⟩
    exact hv.distance.unique hdistance ▸ hv
  · exact fun hv => ⟨⟨k + 1, hv⟩, hv.distance⟩

include hcovers h hmarked in
/-- A walk in front of the stack comes to all walks that go on from it, in their order, as far as
there is room for them. -/
theorem reads_of_walks {k : Nat} {layers : List (List String)}
    (hlayers : Leveled (g.OnWay source target total) (k + 1) layers)
    (htotal : k + layers.length = total) {u : String} (hu : g.OnWay source target total k u)
    {before : List String} {stack : List (List String × String)}
    (hroom : paths.length ≤ limit)
    (hrest : Reads s marked target limit
      ⟨stack, (paths ++ (g.allWalks layers u).map (before ++ ·)).take limit⟩ paths') :
    Reads s marked target limit ⟨(before, u) :: stack, paths⟩ paths' := by
  refine reads_of_room hroom hrest fun hless => ?_
  induction layers generalizing k u before stack paths with
  | nil =>
    rw [List.length_nil, Nat.add_zero] at htotal
    subst htotal
    have hturn : next s marked target limit ⟨(before, u) :: stack, paths⟩ =
        some ⟨stack, paths ++ [before ++ [u]]⟩ := by
      simp [next, hless, (onWay_total_iff h).1 hu]
    refine .turn hturn ?_
    have hfits : (paths ++ [before ++ [u]]).length ≤ limit := by
      rw [List.length_append]
      exact hless
    simpa [allWalks, List.take_of_length_le hfits] using hrest
  | cons layer layers ih =>
    obtain ⟨hlayer, hlayers⟩ := leveled_cons_iff.1 hlayers
    rw [List.length_cons] at htotal
    have hk : k < total := by omega
    have hbefore : u ≠ target := by
      rintro rfl
      have heq := hu.distance.unique h
      omega
    have hturn : next s marked target limit ⟨(before, u) :: stack, paths⟩ =
        some ⟨((g.adjacent .both u).filter layer.contains).map (before ++ [u], ·) ++ stack,
          paths⟩ := by
      simp [next, hless, hbefore, steps_eq hcovers hmarked hk hu hlayer]
    have hmore : (g.allWalks (layer :: layers) u).map (before ++ ·) =
        ((g.adjacent .both u).filter layer.contains).flatMap fun q =>
          (g.allWalks layers q).map (before ++ [u] ++ ·) := by
      simp [allWalks, List.map_flatMap, Function.comp_def]
    rw [hmore] at hrest
    refine .turn hturn (reads_of_each (fun q hq stack paths hroom hrest => ?_) hroom hrest)
    have hway := (hlayer q).1 (by simpa using (List.mem_filter.1 hq).2)
    exact reads_of_room hroom hrest (ih hlayers (by omega) hway hroom hrest)

end

end Reading

/-! ## What the search ends with -/

section

variable {g : Graph} {source target : String}

/-- What is read off a survey that is complete: the walks through what is on the way. -/
theorem exists_marking_reads {s : Survey} {last : List String} {total : Nat}
    (hcovers : s.Covers g source total last) (h : g.Distance .both total source target)
    {layers : List (List String)} (hlength : layers.length = total)
    (hlayers : Leveled (g.OnWay source target total) 1 layers) {limit : Nat}
    {paths : List (List String)} :
    (∃ m, Ends (Marking.next s) ⟨[target], [target]⟩ m ∧
      Reading.Reads s m.marked target limit ⟨[([], source)], []⟩ paths) ↔
        paths = (g.allWalks layers source).take limit := by
  obtain ⟨m, hends⟩ := Marking.exists_ends s ⟨[target], [target]⟩
  have hreads : Reading.Reads s m.marked target limit ⟨[([], source)], []⟩
      ((g.allWalks layers source).take limit) :=
    Reading.reads_of_walks hcovers h (fun _ => Marking.mem_marked_iff hcovers h hends) hlayers
      (by omega) (onWay_zero h) (Nat.zero_le limit) (by simpa using Reading.reads_nil _)
  constructor
  · rintro ⟨m', hends', hpaths⟩
    rw [hends'.unique hends] at hpaths
    exact hpaths.unique hreads
  · rintro rfl
    exact ⟨m, hends, hreads⟩

theorem searchEnds_iff {depth limit : Int} {paths : List (List String)} :
    g.SearchEnds source target depth limit paths ↔
      paths = g.shortestPaths source target depth limit := by
  unfold SearchEnds
  by_cases hmissing : (!g.has source || !g.has target) = true
  · rw [if_pos hmissing, shortestPaths, if_pos hmissing]
  · rw [if_neg hmissing]
    obtain ⟨hsource, htarget⟩ : g.has source ∧ g.has target := by simpa using hmissing
    by_cases hsame : source = target
    · rw [if_pos hsame, shortestPaths, if_neg hmissing, if_pos hsame]
    · rw [if_neg hsame]
      have hstart : ¬ g.Within .both 0 source target := within_zero_iff.not.2 hsame
      rcases Survey.Covers.initial.complete?_cases hstart depth.toNat with
        ⟨hnone, hfar⟩ | ⟨s, total, hsome, hdistance, hle, last, hcovers⟩
      · rw [Nat.zero_add] at hfar
        rw [hnone, shortestPaths_eq_nil hsource htarget hsame hfar]
      · have hpos : 0 < total := by
          refine Nat.pos_of_ne_zero ?_
          rintro rfl
          exact hsame (distance_zero_iff.1 hdistance)
        rw [Nat.zero_add] at hle
        obtain ⟨layers, hlayers, hlength, honWay⟩ := exists_layers_onWay hdistance hpos hle
        rw [hsome, shortestPaths_eq hsource htarget hsame, hlayers, Option.map_some,
          Option.getD_some, walks_eq_take]
        exact exists_marking_reads hcovers hdistance hlength honWay

/-- The shortest paths between two notes: every walk of as many steps as the notes are apart, each
once, in the order of the links at every stop, as far as limits allow. A search that marks what is
on the way and reads walks off a stack always comes to an end, and finds these. -/
theorem shortestPaths_enumerate (g : Graph) (source target : String) :
    (∀ depth limit paths, g.SearchEnds source target depth limit paths ↔
      paths = g.shortestPaths source target depth limit) ∧
    (g.has source → g.has target → source ≠ target →
      (∀ total, g.Distance .both total source target →
        ∃ all : List (List String), all.Nodup ∧ all.Pairwise g.Before ∧
          (∀ w, w ∈ all ↔ g.Walk .both total source target w) ∧
          ∀ depth limit : Int, g.shortestPaths source target depth limit =
            if total ≤ depth then all.take limit.toNat else []) ∧
      ((∀ total, ¬ g.Distance .both total source target) →
        ∀ depth limit, g.shortestPaths source target depth limit = [])) := by
  refine ⟨fun _ _ _ => searchEnds_iff, fun hsource htarget hne => ⟨fun total h => ?_, ?_⟩⟩
  · obtain ⟨all, hordered, hall, hpaths⟩ := exists_allShortestPaths hsource htarget hne h
    exact ⟨all, hordered.imp Before.ne, hordered, hall, hpaths⟩
  · intro hapart depth limit
    refine shortestPaths_eq_nil hsource htarget hne ?_ limit
    rintro ⟨_, _, hleads⟩
    obtain ⟨total, -, hdistance⟩ := exists_distance hleads
    exact hapart total hdistance

end

/-- Two ways from one note to another, one of them against a link that only its own end knows of,
and a detour that leads back. -/
def forked : Graph :=
  { nodes :=
      [{ path := "a.md", title := "a", tags := [], outgoing := ["gone.md", "c.md", "b.md"],
         incoming := ["b.md"], embeds := [] },
       { path := "b.md", title := "b", tags := [], outgoing := ["a.md"], incoming := ["d.md"],
         embeds := [] },
       { path := "c.md", title := "c", tags := [], outgoing := ["c.md", "b.md", "d.md"],
         incoming := [], embeds := [] },
       { path := "d.md", title := "d", tags := [], outgoing := [], incoming := [], embeds := [] }]
    unresolved := ["gone"] }

theorem shortestPaths_enumerate_forked :
    forked.SearchEnds "a.md" "d.md" 2 1 [["a.md", "c.md", "d.md"]] ∧
      ∃ all : List (List String), all.Nodup ∧ all.Pairwise forked.Before ∧
        (∀ w, w ∈ all ↔ forked.Walk .both 2 "a.md" "d.md" w) ∧
        all.take 9 = [["a.md", "c.md", "d.md"], ["a.md", "b.md", "d.md"]] := by
  obtain ⟨hsearch, hpaths⟩ := shortestPaths_enumerate forked "a.md" "d.md"
  obtain ⟨hapart, -⟩ := hpaths (by decide) (by decide) (by decide)
  have hnear : forked.Distance .both 2 "a.md" "d.md" := by
    constructor
    · exact leads_succ_iff.2 ⟨"c.md", mem_adjacent.1 (by decide),
        leads_one_iff.2 (mem_adjacent.1 (by decide))⟩
    · intro m hm
      rcases m with - | - | m
      · exact absurd (leads_zero_iff.1 hm) (by decide)
      · exact absurd (mem_adjacent.2 (leads_one_iff.1 hm)) (by decide)
      · omega
  obtain ⟨all, hnodup, hordered, hall, hshortest⟩ := hapart 2 hnear
  refine ⟨(hsearch 2 1 _).2 (by decide), all, hnodup, hordered, hall, ?_⟩
  exact (hshortest 2 9).symm.trans (by decide)

end Graph

end MarkdownVault
