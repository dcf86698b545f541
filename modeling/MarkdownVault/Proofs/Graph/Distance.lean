import MarkdownVault.Graph.Traversal
import MarkdownVault.Proofs.Graph.Coherence
import Mathlib.Data.Nat.Find
import Mathlib.Order.Bounds.Basic

/-!
# Steps, walks and distances

What is near to what in a graph, apart from any way to search it. A step leads along a link in one
direction to a path that the graph has; links that dangle lead nowhere.
-/

namespace MarkdownVault

namespace Graph

/-- A node has a path at the other end of an edge. -/
def LinksTo (n : GraphNode) (direction : LinkDirection) (path : String) : Prop :=
  match direction with
  | .outgoing => path ∈ n.outgoing
  | .incoming => path ∈ n.incoming
  | .both => path ∈ n.outgoing ∨ path ∈ n.incoming

/-- One path is a step away from another. -/
def Step (g : Graph) (direction : LinkDirection) (u v : String) : Prop :=
  ∃ n, g.find? u = some n ∧ LinksTo n direction v ∧ g.has v

/-- The paths that a number of steps goes through, both ends among them. -/
inductive Walk (g : Graph) (direction : LinkDirection) : Nat → String → String → List String → Prop
  | here (u : String) : Walk g direction 0 u u [u]
  | step {n : Nat} {u v w : String} {path : List String} :
      g.Step direction u v → Walk g direction n v w path →
        Walk g direction (n + 1) u w (u :: path)

/-- One path can be reached from another in a number of steps. -/
def Leads (g : Graph) (direction : LinkDirection) (n : Nat) (u v : String) : Prop :=
  ∃ path, g.Walk direction n u v path

def Within (g : Graph) (direction : LinkDirection) (n : Nat) (u v : String) : Prop :=
  ∃ m ≤ n, g.Leads direction m u v

/-- The least number of steps from one path to another. -/
def Distance (g : Graph) (direction : LinkDirection) (n : Nat) (u v : String) : Prop :=
  IsLeast {m | g.Leads direction m u v} n

section

variable {g : Graph} {direction : LinkDirection} {u v w : String} {m n : Nat}

theorem mem_endsOf {n : GraphNode} : v ∈ endsOf direction n ↔ LinksTo n direction v := by
  cases direction with
  | outgoing => exact Iff.rfl
  | incoming => exact Iff.rfl
  | both => simp [endsOf, LinksTo]

theorem mem_adjacent : v ∈ g.adjacent direction u ↔ g.Step direction u v := by
  unfold adjacent Step
  split
  case h_1 hnone => simp [hnone]
  case h_2 node hsome => simp [hsome, mem_endsOf]

theorem has_iff_mem_paths : g.has u ↔ u ∈ g.paths := by simp [has, paths]

theorem Step.has_right (h : g.Step direction u v) : g.has v := h.choose_spec.2.2

/-! ## Walks -/

theorem walk_zero_iff {path : List String} :
    g.Walk direction 0 u v path ↔ u = v ∧ path = [u] := by
  constructor
  · rintro ⟨⟩
    exact ⟨rfl, rfl⟩
  · rintro ⟨rfl, rfl⟩
    exact .here u

theorem walk_succ_iff {path : List String} :
    g.Walk direction (n + 1) u w path ↔
      ∃ v rest, g.Step direction u v ∧ g.Walk direction n v w rest ∧ path = u :: rest := by
  constructor
  · rintro ⟨⟩
    exact ⟨_, _, ‹_›, ‹_›, rfl⟩
  · rintro ⟨v, rest, hstep, hrest, rfl⟩
    exact .step hstep hrest

theorem leads_zero_iff : g.Leads direction 0 u v ↔ u = v := by
  simp [Leads, walk_zero_iff]

theorem leads_succ_iff :
    g.Leads direction (n + 1) u w ↔ ∃ v, g.Step direction u v ∧ g.Leads direction n v w := by
  simp only [Leads, walk_succ_iff]
  constructor
  · rintro ⟨_, v, rest, hstep, hrest, -⟩
    exact ⟨v, hstep, rest, hrest⟩
  · rintro ⟨v, hstep, rest, hrest⟩
    exact ⟨_, v, rest, hstep, hrest, rfl⟩

/-- Walks that meet are one walk, and a walk may be cut anywhere. -/
theorem leads_add_iff :
    g.Leads direction (m + n) u w ↔ ∃ v, g.Leads direction m u v ∧ g.Leads direction n v w := by
  induction m generalizing u with
  | zero => simp [leads_zero_iff]
  | succ m ih =>
    rw [Nat.add_right_comm]
    simp only [leads_succ_iff, ih]
    constructor
    · rintro ⟨x, hx, v, hxv, hvw⟩
      exact ⟨v, ⟨x, hx, hxv⟩, hvw⟩
    · rintro ⟨v, ⟨x, hx, hxv⟩, hvw⟩
      exact ⟨x, hx, v, hxv, hvw⟩

theorem leads_one_iff : g.Leads direction 1 u v ↔ g.Step direction u v := by
  simp [leads_succ_iff, leads_zero_iff]

theorem Leads.has (h : g.Leads direction n u v) (hu : g.has u) : g.has v := by
  induction n generalizing u with
  | zero => exact leads_zero_iff.1 h ▸ hu
  | succ n ih =>
    obtain ⟨x, hx, hrest⟩ := leads_succ_iff.1 h
    exact ih hrest hx.has_right

/-! ## Distances -/

theorem exists_distance (h : g.Leads direction n u v) : ∃ m ≤ n, g.Distance direction m u v := by
  classical
  have hex : ∃ m, g.Leads direction m u v := ⟨n, h⟩
  exact ⟨Nat.find hex, Nat.find_min' hex h, Nat.find_spec hex, fun m hm => Nat.find_min' hex hm⟩

theorem within_iff_exists_distance :
    g.Within direction n u v ↔ ∃ m ≤ n, g.Distance direction m u v := by
  constructor
  · rintro ⟨m, hm, hleads⟩
    obtain ⟨k, hk, hdistance⟩ := exists_distance hleads
    exact ⟨k, hk.trans hm, hdistance⟩
  · rintro ⟨m, hm, hdistance⟩
    exact ⟨m, hm, hdistance.1⟩

theorem distance_zero_iff : g.Distance direction 0 u v ↔ u = v :=
  ⟨fun h => leads_zero_iff.1 h.1, fun h => ⟨leads_zero_iff.2 h, fun _ _ => Nat.zero_le _⟩⟩

/-- Every part of a shortest walk is a shortest walk. -/
theorem Distance.of_leads (h : g.Distance direction (m + n) u w) (huv : g.Leads direction m u v)
    (hvw : g.Leads direction n v w) :
    g.Distance direction m u v ∧ g.Distance direction n v w := by
  refine ⟨⟨huv, fun k hk => ?_⟩, hvw, fun k hk => ?_⟩
  · have hle := h.2 (leads_add_iff.2 ⟨v, hk, hvw⟩)
    omega
  · have hle := h.2 (leads_add_iff.2 ⟨v, huv, hk⟩)
    omega

theorem Distance.split (h : g.Distance direction (m + n) u w) :
    ∃ v, g.Distance direction m u v ∧ g.Distance direction n v w := by
  obtain ⟨v, huv, hvw⟩ := leads_add_iff.1 h.1
  exact ⟨v, h.of_leads huv hvw⟩

/-- What is one step beyond a distance is what can be reached from there and not sooner. -/
theorem distance_succ_iff :
    g.Distance direction (n + 1) u w ↔
      ¬ g.Within direction n u w ∧ ∃ v, g.Distance direction n u v ∧ g.Step direction v w := by
  constructor
  · intro h
    constructor
    · rintro ⟨m, hm, hleads⟩
      have hle := h.2 hleads
      omega
    · obtain ⟨v, huv, hvw⟩ := h.split
      exact ⟨v, huv, leads_one_iff.1 hvw.1⟩
  · rintro ⟨hfar, v, huv, hstep⟩
    refine ⟨leads_add_iff.2 ⟨v, huv.1, leads_one_iff.2 hstep⟩, fun m hm => ?_⟩
    by_contra hlt
    exact hfar ⟨m, by omega, hm⟩

theorem within_succ_iff :
    g.Within direction (n + 1) u v ↔
      g.Within direction n u v ∨ g.Distance direction (n + 1) u v := by
  simp only [within_iff_exists_distance, Nat.le_succ_iff]
  constructor
  · rintro ⟨m, hm | rfl, hdistance⟩
    · exact .inl ⟨m, hm, hdistance⟩
    · exact .inr hdistance
  · rintro (⟨m, hm, hdistance⟩ | hdistance)
    · exact ⟨m, .inl hm, hdistance⟩
    · exact ⟨n + 1, .inr rfl, hdistance⟩

theorem within_zero_iff : g.Within direction 0 u v ↔ u = v := by
  simp [Within, leads_zero_iff]

end

end Graph

end MarkdownVault
