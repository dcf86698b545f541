import MarkdownVault.Proofs.Graph.Layers
import MarkdownVault.Proofs.Loop
import Mathlib.Data.Set.Card

/-!
# Neighbourhoods

A neighbourhood holds what is nearest to a note, each once and nearest first, and a smaller limit
only cuts it off. A search that keeps a queue of what it has come across, and stops in the middle
of a node's links when it has found enough, finds the same.
-/

namespace MarkdownVault

namespace Graph

variable {g : Graph} {direction : LinkDirection} {start : String} {depth : Nat}

/-- The paths other than the start within a number of steps of it. -/
def vicinity (g : Graph) (direction : LinkDirection) (depth : Nat) (start : String) : Set String :=
  {v | v ≠ start ∧ g.Within direction depth start v}

/-- The first `limit` of all that is in the vicinity of a note. -/
structure Nearest (g : Graph) (direction : LinkDirection) (depth limit : Nat) (start : String)
    (notes : List GraphNode) : Prop where
  find? : ∀ n ∈ notes, g.find? n.path = some n
  nodup : (notes.map (·.path)).Nodup
  near : ∀ n ∈ notes, n.path ∈ g.vicinity direction depth start
  length : notes.length = min (g.vicinity direction depth start).ncard limit
  sorted : notes.Pairwise fun m n => g.NotFarther direction start m.path n.path
  omitted : ∀ n ∈ notes, ∀ v ∈ g.vicinity direction depth start, v ∉ notes.map (·.path) →
    g.NotFarther direction start n.path v

/-! ## What is around a note -/

theorem mem_around {v : String} :
    v ∈ g.around direction depth start ↔ v ∈ g.vicinity direction depth start := by
  simp only [around, Frontier.initial.mem_flatten, vicinity, Set.mem_ofPred_eq, Nat.zero_add,
    within_iff_exists_distance]
  constructor
  · rintro ⟨j, hpos, hle, hdistance⟩
    refine ⟨?_, j, hle, hdistance⟩
    rintro rfl
    have hzero := hdistance.unique (distance_zero_iff.2 rfl)
    omega
  · rintro ⟨hne, j, hle, hdistance⟩
    refine ⟨j, Nat.pos_of_ne_zero ?_, hle, hdistance⟩
    rintro rfl
    exact hne (distance_zero_iff.1 hdistance).symm

theorem pairwise_around :
    (g.around direction depth start).Pairwise
      fun u v => u ≠ v ∧ g.NotFarther direction start u v :=
  Frontier.initial.pairwise_flatten

theorem nodup_around : (g.around direction depth start).Nodup :=
  pairwise_around.imp And.left

theorem ncard_vicinity :
    (g.vicinity direction depth start).ncard = (g.around direction depth start).length := by
  have hset : g.vicinity direction depth start = ↑(g.around direction depth start).toFinset := by
    ext v
    simp [mem_around]
  rw [hset, Set.ncard_coe_finset, List.toFinset_card_of_nodup nodup_around]

theorem mem_paths_of_mem_around (hstart : g.has start) {v : String}
    (h : v ∈ g.around direction depth start) : v ∈ g.paths := by
  obtain ⟨-, m, -, hleads⟩ := mem_around.1 h
  exact has_iff_mem_paths.1 (hleads.has hstart)

/-! ## The notes around a note -/

theorem find?_of_mem_nodesAt {ps : List String} {n : GraphNode} (h : n ∈ g.nodesAt ps) :
    g.find? n.path = some n := by
  obtain ⟨p, -, hfound⟩ := List.mem_filterMap.1 h
  rw [path_of_find? hfound, hfound]

theorem neighbors_eq (hstart : g.has start) (depth limit : Int) :
    g.neighbors start depth direction limit =
      g.nodesAt ((g.around direction depth.toNat start).take limit.toNat) := if_pos hstart

theorem map_path_neighbors (hstart : g.has start) (depth limit : Int) :
    (g.neighbors start depth direction limit).map (·.path) =
      (g.around direction depth.toNat start).take limit.toNat := by
  rw [neighbors_eq hstart]
  exact map_path_nodesAt fun v hv => mem_paths_of_mem_around hstart (List.mem_of_mem_take hv)

theorem nearest_neighbors (hstart : g.has start) (depth limit : Int) :
    g.Nearest direction depth.toNat limit.toNat start
      (g.neighbors start depth direction limit) := by
  have hpaths : (g.neighbors start depth direction limit).map (·.path) =
      (g.around direction depth.toNat start).take limit.toNat :=
    map_path_neighbors hstart depth limit
  have hmem : ∀ n ∈ g.neighbors start depth direction limit,
      n.path ∈ (g.around direction depth.toNat start).take limit.toNat := by
    intro n hn
    rw [← hpaths]
    exact List.mem_map_of_mem hn
  have hpairwise : (g.around direction depth.toNat start).Pairwise
      fun u v => u ≠ v ∧ g.NotFarther direction start u v := pairwise_around
  constructor
  case find? =>
    intro n hn
    rw [neighbors_eq hstart] at hn
    exact find?_of_mem_nodesAt hn
  case nodup =>
    rw [hpaths]
    exact nodup_around.sublist (List.take_sublist _ _)
  case near => exact fun n hn => mem_around.1 (List.mem_of_mem_take (hmem n hn))
  case length =>
    rw [← List.length_map (·.path), hpaths, List.length_take, ncard_vicinity, Nat.min_comm]
  case sorted =>
    have htaken := hpairwise.sublist (List.take_sublist limit.toNat _)
    rw [← hpaths, List.pairwise_map] at htaken
    exact htaken.imp And.right
  case omitted =>
    intro n hn v hv hout
    rw [hpaths] at hout
    rw [← List.take_append_drop limit.toNat (g.around direction depth.toNat start),
      List.pairwise_append] at hpairwise
    have hrest := mem_around.2 hv
    rw [← List.take_append_drop limit.toNat (g.around direction depth.toNat start),
      List.mem_append] at hrest
    exact (hpairwise.2.2 _ (hmem n hn) v (hrest.resolve_left hout)).2

theorem nodesAt_take {ps : List String} (h : ∀ p ∈ ps, p ∈ g.paths) (k : Nat) :
    g.nodesAt (ps.take k) = (g.nodesAt ps).take k := by
  induction ps generalizing k with
  | nil => simp [nodesAt]
  | cons p ps ih =>
    obtain ⟨hp, hps⟩ := List.forall_mem_cons.1 h
    obtain ⟨n, hn⟩ : ∃ n, g.find? p = some n := by
      rw [← has_iff_mem_paths, has, List.any_eq_true] at hp
      exact Option.isSome_iff_exists.1 (List.find?_isSome.2 hp)
    cases k with
    | zero => simp [nodesAt]
    | succ k =>
      simp only [nodesAt, List.take_succ_cons, List.filterMap_cons, hn]
      exact congrArg _ (ih hps k)

theorem take_neighbors (hstart : g.has start) (depth : Int) {limit cap : Int} (h : limit ≤ cap) :
    (g.neighbors start depth direction cap).take limit.toNat =
      g.neighbors start depth direction limit := by
  have hpaths : ∀ v ∈ g.around direction depth.toNat start, v ∈ g.paths :=
    fun v hv => mem_paths_of_mem_around hstart hv
  have hmin : min limit.toNat cap.toNat = limit.toNat := by omega
  rw [neighbors_eq hstart, neighbors_eq hstart, nodesAt_take hpaths, nodesAt_take hpaths,
    List.take_take, hmin]

/-! ## A search with a queue -/

/-- A search under way: what was come across and not looked at yet, with its number of steps from
the start; what was come across at all; and what was found, in this order. -/
structure Search where
  queue : List (String × Nat)
  visited : List String
  found : List String

namespace Search

def initial (start : String) : Search := ⟨[(start, 0)], [start], []⟩

/-- Takes in a path that is new. -/
def push (steps : Nat) (p : String) (s : Search) : Search :=
  ⟨s.queue ++ [(p, steps)], p :: s.visited, s.found ++ [p]⟩

/-- Takes in the paths that are new, and stops as soon as enough is found. -/
def meet (limit steps : Nat) : List String → Search → Search
  | [], s => s
  | p :: ps, s =>
    if s.visited.contains p then meet limit steps ps s
    else if limit ≤ s.found.length + 1 then
      { s with visited := p :: s.visited, found := s.found ++ [p] }
    else meet limit steps ps (s.push steps p)

/-- One turn of a search: the first path in the queue is looked at, unless it is too far away. -/
def next (g : Graph) (direction : LinkDirection) (depth limit : Nat) (s : Search) :
    Option Search :=
  if limit ≤ s.found.length then none
  else match s.queue with
    | [] => none
    | (p, steps) :: queue =>
      if depth ≤ steps then some { s with queue }
      else some (meet limit (steps + 1) (g.adjacent direction p) { s with queue })

/-- A search from a state on ends and has found some paths. -/
def Finds (g : Graph) (direction : LinkDirection) (depth limit : Nat) (s : Search)
    (found : List String) : Prop :=
  ∃ t, Ends (next g direction depth limit) s t ∧ t.found = found

section

variable {limit steps : Nat} {s s' : Search} {ps found : List String}

theorem meet_cons_of_mem {p : String} (h : p ∈ s.visited) :
    meet limit steps (p :: ps) s = meet limit steps ps s := by
  simp [meet, h]

theorem meet_cons_of_notMem {p : String} (h : p ∉ s.visited) :
    meet limit steps (p :: ps) s =
      if limit ≤ s.found.length + 1 then
        { s with visited := p :: s.visited, found := s.found ++ [p] }
      else meet limit steps ps (s.push steps p) := by
  simp [meet, h]

/-- Where enough is found, the rest is not looked at. -/
theorem found_meet (h : s.found.length < limit) :
    (meet limit steps ps s).found = (s.found ++ fresh s.visited ps).take limit := by
  induction ps generalizing s with
  | nil => simp [meet, fresh, List.take_of_length_le h.le]
  | cons p ps ih =>
    by_cases hp : p ∈ s.visited
    · rw [meet_cons_of_mem hp, fresh_cons_of_mem hp, ih h]
    · rw [meet_cons_of_notMem hp, fresh_cons_of_notMem hp,
        List.append_cons s.found p (fresh (p :: s.visited) ps)]
      split
      case isTrue hfull =>
        have hlength : (s.found ++ [p]).length = limit := by
          rw [List.length_append, List.length_singleton]
          omega
        rw [List.take_append_of_le_length hlength.ge, ← hlength, List.take_length]
      case isFalse hroom =>
        rw [ih (by simpa [push] using hroom)]
        rfl

/-- Where not enough is found, everything new is taken in. -/
theorem meet_eq (h : (s.found ++ fresh s.visited ps).length < limit) :
    meet limit steps ps s =
      ⟨s.queue ++ (fresh s.visited ps).map (·, steps), (fresh s.visited ps).reverse ++ s.visited,
        s.found ++ fresh s.visited ps⟩ := by
  induction ps generalizing s with
  | nil => simp [meet, fresh]
  | cons p ps ih =>
    by_cases hp : p ∈ s.visited
    · rw [fresh_cons_of_mem hp] at h ⊢
      rw [meet_cons_of_mem hp, ih h]
    · rw [fresh_cons_of_notMem hp, List.append_cons s.found p] at h
      have hroom : ¬ limit ≤ s.found.length + 1 := by
        rw [List.length_append, List.length_append, List.length_singleton] at h
        omega
      rw [meet_cons_of_notMem hp, if_neg hroom, ih h, fresh_cons_of_notMem hp]
      simp [push]

theorem Finds.turn (hturn : next g direction depth limit s = some s')
    (h : Finds g direction depth limit s' found) : Finds g direction depth limit s found := by
  obtain ⟨t, hends, hfound⟩ := h
  exact ⟨t, .turn hturn hends, hfound⟩

theorem finds_of_full (h : limit ≤ s.found.length) : Finds g direction depth limit s s.found :=
  ⟨s, .done (if_pos h), rfl⟩

/-- What is too far away is passed over. -/
theorem finds_of_far (h : ∀ e ∈ s.queue, depth ≤ e.2) :
    Finds g direction depth limit s s.found := by
  obtain ⟨queue, visited, found⟩ := s
  induction queue with
  | nil => exact ⟨_, .done (by simp [next]), rfl⟩
  | cons e queue ih =>
    by_cases hfull : limit ≤ found.length
    · exact finds_of_full hfull
    · obtain ⟨hfar, hrest⟩ := List.forall_mem_cons.1 h
      refine .turn ?_ (ih hrest)
      simp [next, hfull, hfar]

/-- What a layer in front of the queue comes to: either there is room for all that is new beyond it,
or the search is over. -/
theorem finds_of_layer {k : Nat} (hk : k < depth) {layer behind visited : List String}
    {result : List String} (hroom : found.length < limit)
    (hnext : (found ++ g.beyond direction visited layer).length < limit →
      Finds g direction depth limit
        ⟨(behind ++ g.beyond direction visited layer).map (·, k + 1),
          (g.beyond direction visited layer).reverse ++ visited,
          found ++ g.beyond direction visited layer⟩ result)
    (hfull : limit ≤ (found ++ g.beyond direction visited layer).length →
      result = (found ++ g.beyond direction visited layer).take limit) :
    Finds g direction depth limit
      ⟨layer.map (·, k) ++ behind.map (·, k + 1), visited, found⟩ result := by
  induction layer generalizing behind visited found with
  | nil => simpa [beyond, fresh] using hnext (by simpa [beyond, fresh] using hroom)
  | cons u layer ih =>
    have hbeyond : g.beyond direction visited (u :: layer) =
        fresh visited (g.adjacent direction u) ++
          g.beyond direction ((fresh visited (g.adjacent direction u)).reverse ++ visited)
            layer := by
      rw [beyond, List.flatMap_cons, fresh_append]
      rfl
    have hturn : next g direction depth limit
        ⟨(u :: layer).map (·, k) ++ behind.map (·, k + 1), visited, found⟩ =
          some (meet limit (k + 1) (g.adjacent direction u)
            ⟨layer.map (·, k) ++ behind.map (·, k + 1), visited, found⟩) := by
      simp [next, hroom, hk]
    refine .turn hturn ?_
    rw [hbeyond, ← List.append_assoc] at hfull hnext
    by_cases hmore : (found ++ fresh visited (g.adjacent direction u)).length < limit
    · rw [meet_eq hmore, List.append_assoc, ← List.map_append]
      refine ih hmore ?_ hfull
      simpa only [List.append_assoc, List.reverse_append] using hnext
    · have hlimit : limit ≤ (found ++ fresh visited (g.adjacent direction u)).length := by omega
      have hfound : (meet limit (k + 1) (g.adjacent direction u)
          ⟨layer.map (·, k) ++ behind.map (·, k + 1), visited, found⟩).found =
            (found ++ fresh visited (g.adjacent direction u)).take limit := found_meet hroom
      have hresult := hfull (hlimit.trans (by simp))
      rw [List.take_append_of_le_length hlimit, ← hfound] at hresult
      rw [hresult]
      refine finds_of_full ?_
      rw [hfound, List.length_take, Nat.min_eq_left hlimit]

/-- A search whose queue holds one layer finds the layers behind it. -/
theorem finds_layersAfter {k left : Nat} {layer visited : List String}
    (hroom : found.length < limit) :
    Finds g direction (k + left) limit ⟨layer.map (·, k), visited, found⟩
      ((found ++ (g.layersAfter direction visited layer left).flatten).take limit) := by
  induction left generalizing k layer visited found with
  | zero =>
    rw [layersAfter, List.flatten_nil, List.append_nil, List.take_of_length_le hroom.le]
    refine finds_of_far fun e he => ?_
    obtain ⟨p, -, rfl⟩ := List.mem_map.1 he
    exact Nat.le_refl k
  | succ left ih =>
    have hqueue : layer.map (·, k) = layer.map (·, k) ++ ([] : List String).map (·, k + 1) := by
      simp
    rw [flatten_layersAfter_succ, ← List.append_assoc, hqueue]
    refine finds_of_layer (by omega) hroom (fun hmore => ?_)
      (fun hfull => List.take_append_of_le_length hfull)
    rw [List.nil_append, ← Nat.add_assoc, Nat.add_right_comm]
    exact ih hmore

theorem finds_around {start : String} (hlimit : 0 < limit) :
    Finds g direction depth limit (initial start)
      ((g.around direction depth start).take limit) := by
  have hfinds : Finds g direction (0 + depth) limit ⟨[start].map (·, 0), [start], []⟩
      (([] ++ (g.layersAfter direction [start] [start] depth).flatten).take limit) :=
    finds_layersAfter hlimit
  rwa [Nat.zero_add] at hfinds

theorem Finds.unique {found' : List String} (h : Finds g direction depth limit s found)
    (h' : Finds g direction depth limit s found') : found = found' := by
  obtain ⟨t, hends, rfl⟩ := h
  obtain ⟨t', hends', rfl⟩ := h'
  rw [hends.unique hends']

end

/-- A search with a queue ends with some notes. -/
def Answers (g : Graph) (start : String) (depth : Int) (direction : LinkDirection) (limit : Int)
    (notes : List GraphNode) : Prop :=
  if !g.has start || depth ≤ 0 || limit ≤ 0 then notes = []
  else ∃ found, Finds g direction depth.toNat limit.toNat (initial start) found ∧
    notes = g.nodesAt found

theorem answers_iff {start : String} {depth limit : Int} {notes : List GraphNode} :
    Answers g start depth direction limit notes ↔
      notes = g.neighbors start depth direction limit := by
  unfold Answers
  split
  case isTrue hnone =>
    have hempty : g.neighbors start depth direction limit = [] := by
      simp only [Bool.or_eq_true, Bool.not_eq_true', decide_eq_true_eq] at hnone
      by_cases hstart : g.has start
      · rw [neighbors_eq hstart]
        rcases hnone with (hmissing | hdepth) | hlimit
        · rw [hstart] at hmissing
          cases hmissing
        · simp [Int.toNat_of_nonpos hdepth, around, layersAfter, nodesAt]
        · simp [Int.toNat_of_nonpos hlimit, nodesAt]
      · exact if_neg hstart
    rw [hempty]
  case isFalse hsome =>
    simp only [Bool.or_eq_true, Bool.not_eq_true', decide_eq_true_eq, not_or,
      Bool.not_eq_false] at hsome
    obtain ⟨⟨hstart, -⟩, hlimit⟩ := hsome
    have hfound : Finds g direction depth.toNat limit.toNat (initial start)
        ((g.around direction depth.toNat start).take limit.toNat) := finds_around (by omega)
    rw [neighbors_eq hstart]
    constructor
    · rintro ⟨found, hfinds, rfl⟩
      rw [hfinds.unique hfound]
    · rintro rfl
      exact ⟨_, hfound, rfl⟩

end Search

/-- The neighbourhood of a note: the first of all that is near it, nearest first. A greater limit
only adds to it, and a search that stops as soon as it has found enough ends with it. -/
theorem neighbors_nearest (hstart : g.has start) (depth limit : Int) :
    g.Nearest direction depth.toNat limit.toNat start
        (g.neighbors start depth direction limit) ∧
      (∀ cap, limit ≤ cap → g.neighbors start depth direction limit =
        (g.neighbors start depth direction cap).take limit.toNat) ∧
      ∀ notes, Search.Answers g start depth direction limit notes ↔
        notes = g.neighbors start depth direction limit :=
  ⟨nearest_neighbors hstart depth limit, fun _ hcap => (take_neighbors hstart depth hcap).symm,
    fun _ => Search.answers_iff⟩

/-- Two notes that link to each other; one of them to a third that does not know of it, the other
to a note that there is not. -/
def entangled : Graph :=
  { nodes :=
      [{ path := "a.md", title := "a", tags := [], outgoing := ["gone.md", "b.md"],
         incoming := ["b.md"], embeds := [] },
       { path := "b.md", title := "b", tags := [], outgoing := ["a.md", "c.md", "b.md"],
         incoming := ["a.md"], embeds := [] },
       { path := "c.md", title := "c", tags := [], outgoing := [], incoming := [], embeds := [] }]
    unresolved := ["gone"] }

theorem neighbors_nearest_entangled :
    (entangled.neighbors "a.md" 2 .outgoing 5).map (·.path) = ["b.md", "c.md"] ∧
      entangled.Nearest .outgoing 2 1 "a.md" (entangled.neighbors "a.md" 2 .outgoing 1) ∧
      entangled.neighbors "a.md" 2 .outgoing 1 =
        (entangled.neighbors "a.md" 2 .outgoing 5).take 1 :=
  have hsearch := @neighbors_nearest entangled .outgoing "a.md" (by decide) 2 1
  ⟨by decide, hsearch.1, hsearch.2.1 5 (by decide)⟩

end Graph

end MarkdownVault
