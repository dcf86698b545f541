import MarkdownVault.Proofs.Graph.Layers

/-!
# Shortest paths

The shortest paths between two notes are walks whose every stop lies on the way: at its own distance
from the source, and near enough to the target. Layers cut down to such stops lead nowhere else, so
reading walks off them never has to turn back, and a limit only ends the reading early.
-/

namespace MarkdownVault

namespace Graph

/-! ## Limits -/

section

variable {α β : Type}

theorem collect_eq_take {f : Nat → α → List β} {all : α → List β}
    (h : ∀ limit a, f limit a = (all a).take limit) (limit : Nat) (as : List α) :
    collect limit f as = (as.flatMap all).take limit := by
  induction as generalizing limit with
  | nil => simp [collect]
  | cons a as ih =>
    unfold collect
    split
    case isTrue hzero => simp [hzero]
    case isFalse =>
      dsimp only
      rw [ih, h, List.flatMap_cons, List.take_append, List.length_take]
      have hleft : limit - min limit (all a).length = limit - (all a).length := by omega
      rw [hleft]

end

/-- All walks that go from a path through layers, one step each. -/
def allWalks (g : Graph) : List (List String) → String → List (List String)
  | [], path => [[path]]
  | layer :: layers, path =>
    ((g.adjacent .both path).filter layer.contains).flatMap fun p =>
      (allWalks g layers p).map (path :: ·)

theorem walks_eq_take (g : Graph) (layers : List (List String)) (limit : Nat) (path : String) :
    g.walks layers limit path = (g.allWalks layers path).take limit := by
  induction layers generalizing limit path with
  | nil => cases limit <;> simp [walks, allWalks]
  | cons layer layers ih =>
    refine collect_eq_take (fun limit p => ?_) limit _
    rw [ih, List.map_take]

/-! ## The order of walks -/

/-- The place of a path among those at the other ends of the links of another. -/
def rank (g : Graph) (u v : String) : Nat :=
  ((g.find? u).map fun n => (n.outgoing ++ n.incoming).eraseDups.idxOf v).getD 0

/-- Of two walks that part somewhere, the first goes on with what is linked earlier there. -/
inductive Before (g : Graph) : List String → List String → Prop
  | part {u v w : String} {p q : List String} :
      g.rank u v < g.rank u w → Before g (u :: v :: p) (u :: w :: q)
  | onward {u : String} {p q : List String} : Before g p q → Before g (u :: p) (u :: q)

section

variable {g : Graph}

theorem Before.ne {p q : List String} (h : g.Before p q) : p ≠ q := by
  induction h with
  | part hrank =>
    intro heq
    cases heq
    exact Nat.lt_irrefl _ hrank
  | onward _ ih => simpa using ih

theorem pairwise_rank_adjacent (u : String) :
    (g.adjacent .both u).Pairwise fun v w => g.rank u v < g.rank u w := by
  unfold adjacent
  split
  case h_1 => exact .nil
  case h_2 n hn =>
    refine List.Pairwise.filter _ ?_
    have hrank : ∀ v, g.rank u v = (n.outgoing ++ n.incoming).eraseDups.idxOf v := by
      simp [rank, hn]
    have hnodup := nodup_eraseDups (n.outgoing ++ n.incoming)
    simp only [hrank, endsOf]
    rw [List.pairwise_iff_getElem]
    intro i j hi hj hij
    rwa [hnodup.idxOf_getElem i hi, hnodup.idxOf_getElem j hj]

theorem head?_of_mem_allWalks {layers : List (List String)} {path : String} {w : List String}
    (h : w ∈ g.allWalks layers path) : ∃ rest, w = path :: rest := by
  cases layers with
  | nil => exact ⟨[], by simpa [allWalks] using h⟩
  | cons layer layers =>
    simp only [allWalks, List.mem_flatMap, List.mem_map] at h
    obtain ⟨p, -, rest, -, rfl⟩ := h
    exact ⟨rest, rfl⟩

theorem pairwise_allWalks (layers : List (List String)) (path : String) :
    (g.allWalks layers path).Pairwise g.Before := by
  induction layers generalizing path with
  | nil => simp [allWalks]
  | cons layer layers ih =>
    rw [allWalks, List.pairwise_flatMap]
    constructor
    · intro p _
      exact List.pairwise_map.2 ((ih p).imp .onward)
    · refine ((pairwise_rank_adjacent path).filter _).imp ?_
      intro v w hrank p hp q hq
      obtain ⟨_, hv, rfl⟩ := List.mem_map.1 hp
      obtain ⟨_, hw, rfl⟩ := List.mem_map.1 hq
      obtain ⟨_, rfl⟩ := head?_of_mem_allWalks hv
      obtain ⟨_, rfl⟩ := head?_of_mem_allWalks hw
      exact .part hrank

end

/-! ## On the way -/

/-- What lies at a distance from the source on a shortest walk of `total` steps to the target. -/
structure OnWay (g : Graph) (source target : String) (total k : Nat) (v : String) : Prop where
  le : k ≤ total
  distance : g.Distance .both k source v
  leads : g.Leads .both (total - k) v target

/-- Lists that hold, one after the other, what has a property at a level. -/
inductive Leveled (P : Nat → String → Prop) : Nat → List (List String) → Prop
  | nil {k : Nat} : Leveled P k []
  | cons {k : Nat} {layer : List String} {layers : List (List String)} :
      (∀ v, v ∈ layer ↔ P k v) → Leveled P (k + 1) layers → Leveled P k (layer :: layers)

theorem leveled_cons_iff {P : Nat → String → Prop} {k : Nat} {layer : List String}
    {layers : List (List String)} :
    Leveled P k (layer :: layers) ↔ (∀ v, v ∈ layer ↔ P k v) ∧ Leveled P (k + 1) layers :=
  ⟨fun | .cons hlayer hlayers => ⟨hlayer, hlayers⟩, fun h => .cons h.1 h.2⟩

section

variable {g : Graph} {source target : String} {total k : Nat}

theorem onWay_zero (h : g.Distance .both total source target) :
    g.OnWay source target total 0 source :=
  ⟨Nat.zero_le _, distance_zero_iff.2 rfl, h.1⟩

theorem onWay_total_iff (h : g.Distance .both total source target) {v : String} :
    g.OnWay source target total total v ↔ v = target := by
  constructor
  · intro hv
    exact leads_zero_iff.1 (Nat.sub_self total ▸ hv.leads)
  · rintro rfl
    exact ⟨le_rfl, h, Nat.sub_self total ▸ leads_zero_iff.2 rfl⟩

/-- Whatever is on the way, its next stop is a step away and on the way as well. -/
theorem onWay_iff_exists_step (h : g.Distance .both total source target) (hk : k < total)
    {u : String} :
    g.OnWay source target total k u ↔
      g.Distance .both k source u ∧
        ∃ v, g.Step .both u v ∧ g.OnWay source target total (k + 1) v := by
  have hrest : total - k = (total - (k + 1)) + 1 := by omega
  constructor
  · rintro ⟨-, hdistance, hleads⟩
    rw [hrest, leads_succ_iff] at hleads
    obtain ⟨v, hstep, hleads⟩ := hleads
    refine ⟨hdistance, v, hstep, hk, ?_, hleads⟩
    have hsum : (k + 1) + (total - (k + 1)) = total := by omega
    have hsource : g.Leads .both (k + 1) source v :=
      leads_add_iff.2 ⟨u, hdistance.1, leads_one_iff.2 hstep⟩
    rw [← hsum] at h
    exact (h.of_leads hsource hleads).1
  · rintro ⟨hdistance, v, hstep, hv⟩
    refine ⟨hk.le, hdistance, ?_⟩
    rw [hrest]
    exact leads_succ_iff.2 ⟨v, hstep, hv.leads⟩

/-! ## The layers up to the target -/

/-- The layers up to one that holds a target are those of the distances up to its own. -/
theorem Frontier.exists_layersTo? {seen layer : List String} {depth m : Nat}
    (h : g.Frontier .both source k seen layer)
    (htarget : g.Distance .both (k + 1 + m) source target) (hm : m < depth) :
    ∃ layers, layersTo? target (g.layersAfter .both seen layer depth) = some layers ∧
      layers.length = m + 1 ∧ Leveled (g.Distance .both · source ·) (k + 1) layers := by
  induction m generalizing k seen layer depth with
  | zero =>
    obtain ⟨depth, rfl⟩ := Nat.exists_eq_succ_of_ne_zero (Nat.ne_of_gt hm)
    have hmem : target ∈ g.beyond .both seen layer := h.mem_beyond.2 htarget
    have hsome := List.ne_nil_of_mem hmem
    refine ⟨[g.beyond .both seen layer], ?_, rfl, .cons (fun _ => h.mem_beyond) .nil⟩
    simp [layersAfter_succ, hsome, layersTo?, hmem]
  | succ m ih =>
    obtain ⟨depth, rfl⟩ := Nat.exists_eq_succ_of_ne_zero (show depth ≠ 0 by omega)
    have hnot : target ∉ g.beyond .both seen layer := by
      intro hmem
      have heq := (h.mem_beyond.1 hmem).unique htarget
      omega
    obtain ⟨v, hv, -⟩ := htarget.split (m := k + 1)
    have hsome := List.ne_nil_of_mem (h.mem_beyond.2 hv)
    have hfar : g.Distance .both (k + 1 + 1 + m) source target := by
      rw [Nat.add_assoc (k + 1), Nat.add_comm 1]
      exact htarget
    have hmore : m < depth := by omega
    obtain ⟨layers, hlayers, hlength, hleveled⟩ := ih h.next hfar hmore
    refine ⟨g.beyond .both seen layer :: layers, ?_, by simp [hlength],
      .cons (fun _ => h.mem_beyond) hleveled⟩
    simp [layersAfter_succ, hsome, layersTo?, hnot, hlayers]

theorem layersTo?_eq_none {layers : List (List String)} (h : target ∉ layers.flatten) :
    layersTo? target layers = none := by
  induction layers with
  | nil => rfl
  | cons layer layers ih =>
    rw [List.flatten_cons, List.mem_append, not_or] at h
    simp [layersTo?, h.1, ih h.2]

theorem towards_cons_cons (g : Graph) (target : String) (layer layer' : List String)
    (layers : List (List String)) :
    g.towards target (layer :: layer' :: layers) =
      layer.filter (fun p => (g.adjacent .both p).any
        ((g.towards target (layer' :: layers)).headD []).contains) ::
          g.towards target (layer' :: layers) := rfl

/-- Cutting down the layers leaves what is on the way. -/
theorem towards_leveled (h : g.Distance .both total source target) {layers : List (List String)}
    (hlayers : Leveled (g.Distance .both · source ·) (k + 1) layers)
    (hne : layers ≠ []) (htotal : k + layers.length = total) :
    (g.towards target layers).length = layers.length ∧
      Leveled (g.OnWay source target total) (k + 1) (g.towards target layers) := by
  induction layers generalizing k with
  | nil => exact absurd rfl hne
  | cons layer layers ih =>
    obtain ⟨hlayer, hlayers⟩ := leveled_cons_iff.1 hlayers
    cases layers with
    | nil =>
      refine ⟨rfl, .cons (fun v => ?_) .nil⟩
      rw [List.length_singleton] at htotal
      rw [htotal, onWay_total_iff h, List.mem_singleton]
    | cons layer' layers =>
      rw [List.length_cons, List.length_cons] at htotal
      obtain ⟨hlength, hbehind⟩ := ih hlayers (List.cons_ne_nil _ _) (by simp; omega)
      rw [towards_cons_cons]
      cases hcut : g.towards target (layer' :: layers) with
      | nil => simp [hcut] at hlength
      | cons ends behind =>
        rw [hcut] at hlength hbehind
        refine ⟨by simpa using hlength, .cons (fun v => ?_) hbehind⟩
        have hends := (leveled_cons_iff.1 hbehind).1
        simp only [List.headD_cons, List.mem_filter, List.any_eq_true, List.contains_iff_mem,
          mem_adjacent, hends, hlayer]
        exact (onWay_iff_exists_step h (by omega)).symm

/-- The walks through what is on the way are the shortest ones. -/
theorem mem_allWalks_iff (h : g.Distance .both total source target) {layers : List (List String)}
    (hlayers : Leveled (g.OnWay source target total) (k + 1) layers)
    (htotal : k + layers.length = total) {u : String} (hu : g.OnWay source target total k u)
    {w : List String} :
    w ∈ g.allWalks layers u ↔ g.Walk .both layers.length u target w := by
  induction layers generalizing k u w with
  | nil =>
    rw [List.length_nil, Nat.add_zero] at htotal
    subst htotal
    have htarget := (onWay_total_iff h).1 hu
    simp [allWalks, walk_zero_iff, htarget]
  | cons layer layers ih =>
    obtain ⟨hlayer, hlayers⟩ := leveled_cons_iff.1 hlayers
    rw [List.length_cons] at htotal ⊢
    simp only [allWalks, List.mem_flatMap, List.mem_filter, List.contains_iff_mem, mem_adjacent,
      hlayer, List.mem_map, walk_succ_iff]
    constructor
    · rintro ⟨v, ⟨hstep, hv⟩, rest, hrest, rfl⟩
      exact ⟨v, rest, hstep, (ih hlayers (by omega) hv).1 hrest, rfl⟩
    · rintro ⟨v, rest, hstep, hrest, rfl⟩
      have hv : g.OnWay source target total (k + 1) v := by
        have hsum : (k + 1) + layers.length = total := by omega
        have hleads : g.Leads .both (k + 1) source v :=
          leads_add_iff.2 ⟨u, hu.distance.1, leads_one_iff.2 hstep⟩
        rw [← hsum] at h
        refine ⟨by omega, (h.of_leads hleads ⟨_, hrest⟩).1, ?_⟩
        rw [← hsum, Nat.add_sub_cancel_left]
        exact ⟨_, hrest⟩
      exact ⟨v, ⟨hstep, hv⟩, rest, (ih hlayers (by omega) hv).2 hrest, rfl⟩

/-! ## Shortest paths of a graph -/

theorem shortestPaths_eq (hsource : g.has source) (htarget : g.has target) (hne : source ≠ target)
    (depth limit : Int) :
    g.shortestPaths source target depth limit =
      ((layersTo? target (g.layersAfter .both [source] [source] depth.toNat)).map
        fun layers => g.walks (g.towards target layers) limit.toNat source).getD [] := by
  simp only [shortestPaths, hsource, htarget, Bool.not_true, Bool.or_self, Bool.false_eq_true,
    if_false, if_neg hne]
  cases layersTo? target (g.layersAfter .both [source] [source] depth.toNat) <;> rfl

theorem shortestPaths_eq_nil (hsource : g.has source) (htarget : g.has target)
    (hne : source ≠ target) {depth : Int} (hfar : ¬ g.Within .both depth.toNat source target)
    (limit : Int) : g.shortestPaths source target depth limit = [] := by
  have hnone : target ∉ (g.layersAfter .both [source] [source] depth.toNat).flatten := by
    rw [Frontier.initial.mem_flatten]
    rintro ⟨j, -, hle, hdistance⟩
    exact hfar ⟨j, by omega, hdistance.1⟩
  rw [shortestPaths_eq hsource htarget hne, layersTo?_eq_none hnone]
  rfl

/-- The walks depend on what the layers hold, not on its order. -/
theorem allWalks_congr {P : Nat → String → Prop} {layers layers' : List (List String)}
    (h : Leveled P k layers) (h' : Leveled P k layers') (hlength : layers.length = layers'.length)
    (u : String) : g.allWalks layers u = g.allWalks layers' u := by
  induction layers generalizing k layers' u with
  | nil => rw [List.eq_nil_of_length_eq_zero hlength.symm]
  | cons layer layers ih =>
    obtain ⟨hlayer, hlayers⟩ := leveled_cons_iff.1 h
    cases layers' with
    | nil => cases hlength
    | cons layer' layers' =>
      obtain ⟨hlayer', hlayers'⟩ := leveled_cons_iff.1 h'
      have hcontains : layer.contains = layer'.contains := by
        funext v
        rw [Bool.eq_iff_iff, List.contains_iff_mem, List.contains_iff_mem, hlayer, hlayer']
      have hrest : g.allWalks layers = g.allWalks layers' :=
        funext (ih hlayers hlayers' (Nat.succ_inj.1 hlength))
      rw [allWalks, allWalks, hcontains, hrest]

theorem exists_layers_onWay (h : g.Distance .both total source target) (hpos : 0 < total)
    {depth : Nat} (hdepth : total ≤ depth) :
    ∃ layers, layersTo? target (g.layersAfter .both [source] [source] depth) = some layers ∧
      (g.towards target layers).length = total ∧
      Leveled (g.OnWay source target total) 1 (g.towards target layers) := by
  obtain ⟨m, rfl⟩ := Nat.exists_eq_succ_of_ne_zero (Nat.ne_of_gt hpos)
  have htarget : g.Distance .both (0 + 1 + m) source target := by
    rw [Nat.zero_add, Nat.add_comm]
    exact h
  obtain ⟨layers, hlayers, hlength, hleveled⟩ :=
    Frontier.initial.exists_layersTo? htarget (show m < depth by omega)
  have hne : layers ≠ [] := List.ne_nil_of_length_pos (by omega)
  obtain ⟨hcut, honWay⟩ := towards_leveled h hleveled hne (by omega)
  exact ⟨layers, hlayers, hcut.trans hlength, honWay⟩

/-- The first shortest paths, whatever the limit, are those at the front of one list, which holds
every walk of that length once, in order. -/
theorem exists_allShortestPaths (hsource : g.has source) (htarget : g.has target)
    (hne : source ≠ target) (h : g.Distance .both total source target) :
    ∃ all : List (List String), all.Pairwise g.Before ∧
      (∀ w, w ∈ all ↔ g.Walk .both total source target w) ∧
      ∀ depth limit : Int, g.shortestPaths source target depth limit =
        if total ≤ depth then all.take limit.toNat else [] := by
  have hpos : 0 < total := by
    refine Nat.pos_of_ne_zero ?_
    rintro rfl
    exact hne (distance_zero_iff.1 h)
  obtain ⟨layers, -, hlength, hlayers⟩ := exists_layers_onWay h hpos le_rfl
  refine ⟨g.allWalks (g.towards target layers) source, pairwise_allWalks _ _, fun w => ?_,
    fun depth limit => ?_⟩
  · rw [mem_allWalks_iff h hlayers (by omega) (onWay_zero h), hlength]
  · split
    case isTrue hdepth =>
      obtain ⟨layers', hsome, hlength', hlayers'⟩ :=
        exists_layers_onWay h hpos (show total ≤ depth.toNat by omega)
      rw [shortestPaths_eq hsource htarget hne, hsome, Option.map_some, Option.getD_some,
        walks_eq_take, allWalks_congr hlayers' hlayers (by omega)]
    case isFalse hdepth =>
      refine shortestPaths_eq_nil hsource htarget hne ?_ limit
      rintro ⟨m, hm, hleads⟩
      have hle := h.2 hleads
      omega

end

end Graph

end MarkdownVault
