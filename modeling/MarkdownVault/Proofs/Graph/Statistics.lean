import MarkdownVault.Graph.Statistics
import MarkdownVault.Proofs.Graph.Coherence
import MarkdownVault.Proofs.Ranking

/-!
# Statistics that agree

Every link is counted once at the note that it starts from and once at the note that it leads to.
The pairs of these notes are the same in both ways of counting, so the sums are the same as well.
-/

namespace MarkdownVault

theorem total_eq_zero_iff {ns : List Nat} : total ns = 0 ↔ ∀ n ∈ ns, n = 0 := by
  induction ns with
  | nil => simp [total]
  | cons n ns ih => rw [total, Nat.add_eq_zero_iff, ih, List.forall_mem_cons]

theorem total_map_length {α β : Type} (f : α → List β) (xs : List α) :
    total (xs.map fun x => (f x).length) = (xs.flatMap f).length := by
  induction xs with
  | nil => rfl
  | cons x xs ih => rw [List.map_cons, total, ih, List.flatMap_cons, List.length_append]

namespace Graph

/-! ## Links as pairs of paths -/

/-- The links of a graph, each as the paths of its two ends, from where they start. -/
def links (g : Graph) : List (String × String) :=
  g.nodes.flatMap fun n => n.outgoing.map fun p => (n.path, p)

/-- The same links from where they lead to. -/
def backlinks (g : Graph) : List (String × String) :=
  g.nodes.flatMap fun n => n.incoming.map fun p => (p, n.path)

/-- Nodes have paths of their own, links lead from node to node, and both ends know of each link
once. -/
structure TwoSided (g : Graph) : Prop where
  nodup_paths : g.paths.Nodup
  mem_paths : ∀ n ∈ g.nodes, ∀ p, p ∈ n.outgoing ∨ p ∈ n.incoming → p ∈ g.paths
  nodup_ends : ∀ n ∈ g.nodes, n.outgoing.Nodup ∧ n.incoming.Nodup
  mem_outgoing_iff : ∀ a ∈ g.nodes, ∀ b ∈ g.nodes, b.path ∈ a.outgoing ↔ a.path ∈ b.incoming

theorem Coherent.twoSided {g : Graph} (h : g.Coherent) : g.TwoSided where
  nodup_paths := h.nodup_paths
  mem_paths := by
    rintro n hn p (hp | hp)
    · exact h.mem_paths n hn p hp
    · exact (h.incoming_sublist n hn).subset hp
  nodup_ends n hn := ⟨h.nodup_outgoing n hn, h.nodup_incoming hn⟩
  mem_outgoing_iff := h.mem_outgoing_iff

namespace TwoSided

variable {g : Graph} (h : g.TwoSided)
include h

/-- Pairs that are told apart by their nodes occur once, whichever end the nodes stand for. -/
theorem nodup_flatMap {pairs : GraphNode → List (String × String)} (side : String × String → String)
    (hpairs : ∀ n ∈ g.nodes, (pairs n).Nodup) (hside : ∀ n, ∀ e ∈ pairs n, side e = n.path) :
    (g.nodes.flatMap pairs).Nodup := by
  rw [List.nodup_flatMap]
  refine ⟨hpairs, (List.pairwise_map.1 h.nodup_paths).imp ?_⟩
  intro a b hne e ha hb
  exact hne ((hside a e ha).symm.trans (hside b e hb))

theorem nodup_links : g.links.Nodup := by
  refine h.nodup_flatMap Prod.fst (fun n hn => ?_) fun n => ?_
  · exact (h.nodup_ends n hn).1.map fun _ _ heq => (Prod.mk.inj heq).2
  · rw [List.forall_mem_map]
    exact fun _ _ => rfl

theorem nodup_backlinks : g.backlinks.Nodup := by
  refine h.nodup_flatMap Prod.snd (fun n hn => ?_) fun n => ?_
  · exact (h.nodup_ends n hn).2.map fun _ _ heq => (Prod.mk.inj heq).1
  · rw [List.forall_mem_map]
    exact fun _ _ => rfl

theorem mem_links_iff (source target : String) :
    (source, target) ∈ g.links ↔ (source, target) ∈ g.backlinks := by
  simp only [links, backlinks, List.mem_flatMap, List.mem_map, Prod.mk.injEq]
  constructor
  · rintro ⟨a, ha, p, hp, rfl, rfl⟩
    obtain ⟨b, hb, rfl⟩ := List.mem_map.1 (h.mem_paths a ha p (.inl hp))
    exact ⟨b, hb, a.path, (h.mem_outgoing_iff a ha b hb).1 hp, rfl, rfl⟩
  · rintro ⟨b, hb, p, hp, rfl, rfl⟩
    obtain ⟨a, ha, rfl⟩ := List.mem_map.1 (h.mem_paths b hb p (.inr hp))
    exact ⟨a, ha, b.path, (h.mem_outgoing_iff a ha b hb).2 hp, rfl, rfl⟩

/-- Both ways of counting meet the same links. -/
theorem links_perm_backlinks : g.links.Perm g.backlinks :=
  (List.perm_ext_iff_of_nodup h.nodup_links h.nodup_backlinks).2 fun e =>
    h.mem_links_iff e.1 e.2

end TwoSided

theorem total_outgoing (g : Graph) :
    total (g.nodes.map fun n => n.outgoing.length) = g.links.length := by
  rw [links, ← total_map_length]
  simp only [List.length_map]

theorem total_incoming (g : Graph) :
    total (g.nodes.map fun n => n.incoming.length) = g.backlinks.length := by
  rw [backlinks, ← total_map_length]
  simp only [List.length_map]

theorem TwoSided.total_eq {g : Graph} (h : g.TwoSided) :
    total (g.nodes.map fun n => n.outgoing.length) =
      total (g.nodes.map fun n => n.incoming.length) := by
  rw [total_outgoing, total_incoming, h.links_perm_backlinks.length_eq]

/-! ## Orphans -/

/-- All nodes are orphans exactly if there is nothing to count at any of them. -/
theorem length_orphans_eq_iff (g : Graph) : g.orphans.length = g.nodes.length ↔
    total (g.nodes.map fun n => n.outgoing.length) = 0 ∧
      total (g.nodes.map fun n => n.incoming.length) = 0 := by
  rw [orphans, List.length_filter_eq_length_iff, total_eq_zero_iff, total_eq_zero_iff]
  simp [← forall₂_and]

/-! ## Rankings -/

/-- What a ranking of nodes by some count tells: the first ten in descending order, those with
equal counts as they stand in the graph. -/
structure Ranked (g : Graph) (count : GraphNode → Nat) (top : List LinkCount)
    (listed omitted : List GraphNode) : Prop where
  foremost : Sorting.Foremost (Sorting.descending count) 10 g.nodes listed omitted
  entries : top = listed.map fun n => ⟨n.path, count n⟩
  descending : top.Pairwise fun a b => b.count ≤ a.count
  ahead : ∀ a ∈ top, ∀ n ∈ omitted, count n ≤ a.count
  length : top.length = min 10 g.nodes.length
  nodup : g.paths.Nodup → (top.map (·.path)).Nodup

theorem isLE_descending {count : GraphNode → Nat} {a b : GraphNode} :
    (Sorting.descending count a b).isLE ↔ count b ≤ count a := Std.isLE_compare

theorem exists_ranked (g : Graph) (count : GraphNode → Nat) :
    ∃ listed omitted, g.Ranked count (g.ranking count) listed omitted := by
  have hle : (fun a b => decide (count b ≤ count a)) =
      fun a b => (Sorting.descending count a b).isLE := by
    funext a b
    rw [Bool.eq_iff_iff, decide_eq_true_iff, isLE_descending]
  have h : Sorting.Foremost (Sorting.descending count) rankingLimit g.nodes _ _ :=
    Sorting.foremost_mergeSort rankingLimit g.nodes
  rw [← hle] at h
  refine ⟨_, _, h, rfl, ?_, ?_, ?_, ?_⟩
  · rw [ranking, List.pairwise_map]
    exact h.pairwise.imp isLE_descending.1
  · rw [ranking, List.forall_mem_map]
    exact fun a ha n hn => isLE_descending.1 (h.ahead a ha n hn)
  · rw [ranking, List.length_map, h.length]
    rfl
  · intro hnodup
    have hpaths := (h.sorted.perm.map GraphNode.path).nodup_iff.2 hnodup
    rw [List.map_append, List.nodup_append] at hpaths
    rw [ranking, List.map_map]
    exact hpaths.1

/-- The statistics of a graph whose links are known at both of their ends count the same links both
ways, so the averages agree, and all nodes are orphans exactly if there is no link. Of any graph,
they tell how many nodes have no link of either kind, and rank the nodes by the links of each
kind. -/
theorem statistics_consistent (g : Graph) :
    (g.TwoSided →
      g.links.Perm g.backlinks ∧
      total (g.nodes.map fun n => n.incoming.length) =
        total (g.nodes.map fun n => n.outgoing.length) ∧
      g.statistics.edgeCount = g.backlinks.length ∧
      g.statistics.averageOutgoing = g.statistics.averageIncoming ∧
      (g.statistics.orphanCount = g.statistics.nodeCount ↔ g.statistics.edgeCount = 0)) ∧
    g.statistics.nodeCount = g.nodes.length ∧
    g.statistics.edgeCount = g.links.length ∧
    g.statistics.orphanCount = (g.nodes.filter fun n => n.outgoing = [] ∧ n.incoming = []).length ∧
    (∃ listed omitted,
      g.Ranked (fun n => n.incoming.length) g.statistics.mostLinked listed omitted) ∧
    ∃ listed omitted,
      g.Ranked (fun n => n.outgoing.length) g.statistics.mostLinking listed omitted := by
  refine ⟨fun h => ⟨h.links_perm_backlinks, h.total_eq.symm, ?_, ?_, ?_⟩, rfl, ?_, ?_,
    g.exists_ranked _, g.exists_ranked _⟩
  · exact h.total_eq.trans g.total_incoming
  · simp only [statistics, h.total_eq]
  · simp only [statistics, length_orphans_eq_iff, h.total_eq, and_self]
  · exact g.total_outgoing
  · refine congrArg List.length (List.filter_congr fun n _ => ?_)
    cases n.outgoing <;> cases n.incoming <;> rfl

/-- The graph of two notes that both link to one of them. -/
theorem statistics_consistent_namesakes :
    ∃ g, Vault.graphOf (.ok (Vault.namesakes.list none))
        (fun files => Backend.replies Vault.listedPath files (Store.memory Vault.namesakes)) =
          .ok g ∧
      g.TwoSided ∧ g.statistics.edgeCount = 2 ∧ g.backlinks.length = 2 ∧
      g.statistics.averageOutgoing = g.statistics.averageIncoming ∧
      g.statistics.orphanCount ≠ g.statistics.nodeCount := by
  obtain ⟨g, hg, hcoherent, -⟩ := @Vault.coherent_graphOf Store _ (Vault.namesakes.list none)
    (Store.memory Vault.namesakes) (by decide +kernel) (by decide +kernel) (by decide +kernel)
  obtain ⟨-, -, hbacklinks, haverages, horphans⟩ := (statistics_consistent g).1 hcoherent.twoSided
  have hcount : (Vault.graphOf (.ok (Vault.namesakes.list none)) fun files =>
      Backend.replies Vault.listedPath files (Store.memory Vault.namesakes)).map
        (fun g => g.statistics.edgeCount) = .ok 2 := eq_ok_of_toOption (by decide +kernel)
  rw [hg] at hcount
  have hedges : g.statistics.edgeCount = 2 := Except.ok.inj hcount
  refine ⟨g, hg, hcoherent.twoSided, hedges, hbacklinks.symm.trans hedges, haverages, ?_⟩
  rw [Ne, horphans, hedges]
  decide

end Graph

end MarkdownVault
