import MarkdownVault.Proofs.Graph.Distance

/-!
# Layers

A search that goes through a graph layer by layer holds, after some number of turns, what is within
that many steps, and its last layer holds what is at exactly that distance. All that the search
finds follows from that.
-/

namespace MarkdownVault

namespace Graph

/-! ## First occurrences -/

section

variable {seen ps qs : List String} {p : String}

theorem fresh_cons_of_mem (h : p ∈ seen) : fresh seen (p :: ps) = fresh seen ps := by
  simp [fresh, h]

theorem fresh_cons_of_notMem (h : p ∉ seen) :
    fresh seen (p :: ps) = p :: fresh (p :: seen) ps := by
  simp [fresh, h]

theorem mem_fresh : p ∈ fresh seen ps ↔ p ∈ ps ∧ p ∉ seen := by
  induction ps generalizing seen with
  | nil => simp [fresh]
  | cons q ps ih =>
    by_cases hq : q ∈ seen
    · rw [fresh_cons_of_mem hq, ih, List.mem_cons]
      constructor
      · rintro ⟨hp, hseen⟩
        exact ⟨.inr hp, hseen⟩
      · rintro ⟨rfl | hp, hseen⟩
        · exact absurd hq hseen
        · exact ⟨hp, hseen⟩
    · rw [fresh_cons_of_notMem hq, List.mem_cons, ih, List.mem_cons, List.mem_cons]
      by_cases hpq : p = q
      · simp [hpq, hq]
      · simp [hpq]

theorem nodup_fresh : (fresh seen ps).Nodup := by
  induction ps generalizing seen with
  | nil => simp [fresh]
  | cons q ps ih =>
    by_cases hq : q ∈ seen
    · rw [fresh_cons_of_mem hq]
      exact ih
    · rw [fresh_cons_of_notMem hq]
      exact List.nodup_cons.2 ⟨fun hmem => (mem_fresh.1 hmem).2 List.mem_cons_self, ih⟩

theorem fresh_append :
    fresh seen (ps ++ qs) = fresh seen ps ++ fresh ((fresh seen ps).reverse ++ seen) qs := by
  induction ps generalizing seen with
  | nil => rfl
  | cons p ps ih =>
    rw [List.cons_append]
    by_cases hp : p ∈ seen
    · rw [fresh_cons_of_mem hp, fresh_cons_of_mem hp, ih]
    · simp only [fresh_cons_of_notMem hp, ih, List.cons_append, List.reverse_cons,
        List.append_assoc, List.nil_append]

end

/-! ## Where a search stands -/

section

variable {g : Graph} {direction : LinkDirection} {start : String} {k depth : Nat}
  {seen layer : List String}

/-- A search from `start` after `k` turns: what it has seen and its last layer. -/
structure Frontier (g : Graph) (direction : LinkDirection) (start : String) (k : Nat)
    (seen layer : List String) : Prop where
  mem_seen : ∀ v, v ∈ seen ↔ g.Within direction k start v
  mem_layer : ∀ v, v ∈ layer ↔ g.Distance direction k start v

theorem Frontier.initial : g.Frontier direction start 0 [start] [start] where
  mem_seen v := by simp [within_zero_iff, eq_comm]
  mem_layer v := by simp [distance_zero_iff, eq_comm]

/-- The next layer of a search. -/
def beyond (g : Graph) (direction : LinkDirection) (seen layer : List String) : List String :=
  fresh seen (layer.flatMap (g.adjacent direction))

theorem Frontier.mem_beyond (h : g.Frontier direction start k seen layer) {v : String} :
    v ∈ g.beyond direction seen layer ↔ g.Distance direction (k + 1) start v := by
  simp only [beyond, mem_fresh, List.mem_flatMap, mem_adjacent, h.mem_seen, h.mem_layer,
    distance_succ_iff]
  exact and_comm

theorem Frontier.next (h : g.Frontier direction start k seen layer) :
    g.Frontier direction start (k + 1)
      ((g.beyond direction seen layer).reverse ++ seen) (g.beyond direction seen layer) where
  mem_seen v := by
    rw [List.mem_append, List.mem_reverse, h.mem_beyond, h.mem_seen, within_succ_iff, or_comm]
  mem_layer _ := h.mem_beyond

theorem layersAfter_succ :
    g.layersAfter direction seen layer (depth + 1) =
      if (g.beyond direction seen layer).isEmpty then []
      else g.beyond direction seen layer ::
        g.layersAfter direction ((g.beyond direction seen layer).reverse ++ seen)
          (g.beyond direction seen layer) depth := rfl

/-- Where a layer would be empty, nothing lies farther away. -/
theorem Frontier.eq_nil_of_beyond (h : g.Frontier direction start k seen layer)
    (hempty : g.beyond direction seen layer = []) {v : String} {j : Nat} (hj : k < j) :
    ¬ g.Distance direction j start v := by
  intro hdistance
  obtain ⟨i, rfl⟩ := Nat.exists_eq_add_of_le hj
  obtain ⟨u, hu, -⟩ := hdistance.split
  have hmem := h.mem_beyond.2 hu
  simp [hempty] at hmem

/-! ## What is found -/

theorem layersAfter_nil : g.layersAfter direction seen [] depth = [] := by
  cases depth <;> simp [layersAfter, fresh]

theorem flatten_layersAfter_succ :
    (g.layersAfter direction seen layer (depth + 1)).flatten =
      g.beyond direction seen layer ++
        (g.layersAfter direction ((g.beyond direction seen layer).reverse ++ seen)
          (g.beyond direction seen layer) depth).flatten := by
  rw [layersAfter_succ]
  split
  case isTrue hempty =>
    rw [List.isEmpty_iff] at hempty
    simp [hempty, layersAfter_nil]
  case isFalse => rw [List.flatten_cons]

/-- Later layers hold just what is farther away, up to the depth of the search. -/
theorem Frontier.mem_flatten (h : g.Frontier direction start k seen layer) {v : String} :
    v ∈ (g.layersAfter direction seen layer depth).flatten ↔
      ∃ j, k < j ∧ j ≤ k + depth ∧ g.Distance direction j start v := by
  induction depth generalizing k seen layer with
  | zero =>
    simp only [layersAfter, List.flatten_nil, List.not_mem_nil, false_iff]
    rintro ⟨j, hlt, hle, -⟩
    omega
  | succ depth ih =>
    rw [flatten_layersAfter_succ, List.mem_append, h.mem_beyond, ih h.next]
    constructor
    · rintro (hnear | ⟨j, hlt, hle, hdistance⟩)
      · exact ⟨k + 1, by omega, by omega, hnear⟩
      · exact ⟨j, by omega, by omega, hdistance⟩
    · rintro ⟨j, hlt, hle, hdistance⟩
      rcases Nat.eq_or_lt_of_le hlt with rfl | hlt
      · exact .inl hdistance
      · exact .inr ⟨j, hlt, by omega, hdistance⟩

/-- The first of two paths is no farther from the start than the second. -/
def NotFarther (g : Graph) (direction : LinkDirection) (start u v : String) : Prop :=
  ∀ m n, g.Distance direction m start u → g.Distance direction n start v → m ≤ n

/-- Layers come one after the other, nearest first, and share nothing. -/
theorem Frontier.pairwise_flatten (h : g.Frontier direction start k seen layer) :
    (g.layersAfter direction seen layer depth).flatten.Pairwise
      fun u v => u ≠ v ∧ g.NotFarther direction start u v := by
  induction depth generalizing k seen layer with
  | zero => simp [layersAfter]
  | succ depth ih =>
    rw [flatten_layersAfter_succ, List.pairwise_append]
    refine ⟨?_, ih h.next, fun u hu v hv => ?_⟩
    · refine List.Pairwise.imp_of_mem ?_ nodup_fresh
      intro u v hu hv hne
      refine ⟨hne, fun m n hm hn => ?_⟩
      rw [hm.unique (h.mem_beyond.1 hu), hn.unique (h.mem_beyond.1 hv)]
    · have hnear := h.mem_beyond.1 hu
      obtain ⟨j, hlt, -, hfar⟩ := h.next.mem_flatten.1 hv
      constructor
      · rintro rfl
        have heq := hnear.unique hfar
        omega
      · intro m n hm hn
        rw [hm.unique hnear, hn.unique hfar]
        exact hlt.le

end

end Graph

end MarkdownVault
