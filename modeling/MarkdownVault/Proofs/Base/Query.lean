import MarkdownVault.Proofs.Sorting
import MarkdownVault.Proofs.Value.Order
import MarkdownVault.Proofs.Vault.Reading

/-!
# What a view answers

The notes that both filters hold for are the matches of a view. They are counted, put in order and
cut off in this sequence, so neither order nor limit nor columns change the count.
-/

namespace MarkdownVault

open Std

/-! ## Records of replies -/

namespace Reply

end Reply

section Records

variable {σ : Type} [Backend σ] {now : Binary64} {v : VaultOf σ} {files : List FileEntry} {s : σ}

end Records

/-! ## Filters -/

namespace Filter

end Filter

/-- How a key orders two matches. -/
def SortKey.order (k : SortKey) (a b : Match) : Ordering :=
  let o := (a.value k.property).rank.order (b.value k.property).rank
  match k.direction with
  | .asc => o
  | .desc => o.swap

namespace Match

/-- The first key that tells two matches apart decides. -/
def order : List SortKey → Match → Match → Ordering
  | [] => fun _ _ => .eq
  | k :: ks => compareLex k.order (order ks)

instance (k : SortKey) : TransCmp k.order where
  eq_swap {a b} := by
    rw [SortKey.order, SortKey.order, @OrientedCmp.eq_swap _ Value.Rank.order]
    cases k.direction <;> rfl
  isLE_trans {a b c} hab hbc := by
    rw [SortKey.order] at hab hbc ⊢
    cases hk : k.direction <;> simp only [hk] at hab hbc ⊢
    case asc => exact TransCmp.isLE_trans hab hbc
    case desc =>
      rw [← OrientedCmp.eq_swap] at hab hbc ⊢
      exact TransCmp.isLE_trans hbc hab

instance (keys : List SortKey) : TransCmp (order keys) := by
  induction keys with
  | nil => exact { eq_swap := rfl, isLE_trans := fun _ _ => rfl }
  | cons k keys ih =>
    rw [order]
    infer_instance

variable {keys : List SortKey} {ms : List Match}

theorem exists_compare {a b : Match}
    (htext : ∀ k ∈ keys, (∃ t, (a.value k.property).asText = .ok t) ∧
      ∃ t, (b.value k.property).asText = .ok t) : ∃ o, compare keys a b = .ok o := by
  induction keys with
  | nil => exact ⟨.eq, rfl⟩
  | cons k keys ih =>
    obtain ⟨⟨ha, hb⟩, hkeys⟩ := List.forall_mem_cons.1 htext
    obtain ⟨o, ho⟩ := Value.exists_compareForSort ha hb
    rw [compare, ho]
    cases o with
    | eq => exact ih hkeys
    | lt => exact ⟨_, rfl⟩
    | gt => exact ⟨_, rfl⟩

end Match

namespace Base

/-- Nothing that a view asks of a record fails: neither its filters nor, for a match, the formulas
and the texts of the values that it is sorted by. -/
def Evaluates (b : Base) (v : View) (r : Record) : Prop :=
  ∃ chosen, b.selects v r = .ok chosen ∧ (chosen = true → ∃ m, b.compute r = .ok m ∧
    ∀ k ∈ v.order.getD [], ∃ t, (m.value k.property).asText = .ok t)

instance (b : Base) (v : View) (r : Record) : Decidable (b.Evaluates v r) :=
  match h : b.selects v r with
  | .error _ => .isFalse fun ⟨_, hchosen, _⟩ => nomatch h.symm.trans hchosen
  | .ok false => .isTrue ⟨false, h, nofun⟩
  | .ok true => match hm : b.compute r with
    | .error _ => .isFalse fun ⟨_, hchosen, hmatch⟩ => by
        cases h.symm.trans hchosen
        obtain ⟨m, hcompute, -⟩ := hmatch rfl
        cases hm.symm.trans hcompute
    | .ok m => decidable_of_iff (∀ k ∈ v.order.getD [], (m.value k.property).asText.toBool) (by
        simp [Evaluates, h, hm, toBool_iff])

/-- What a view answers for some records: `found` are the matches, and `sorted` has
them in the order of the view. -/
structure Answers (b : Base) (v : View) (records : List Record) (found sorted : List Match)
    (result : QueryResult) : Prop where
  view : result.view = v
  /-- The matches are the records for which both filters hold, in the order of the records. -/
  chosen : found.map Match.record = records.filter fun r =>
    (Filter.evalValue r b.filters).toOption == some true &&
      (Filter.evalValue r v.filters).toOption == some true
  /-- One filter that asks for both chooses the same. -/
  conjunction : found.map Match.record = records.filter fun r =>
    (Filter.evalValue r (.map [(.text "and", .list [b.filters, v.filters])])).toOption == some true
  computed : ∀ m ∈ found, b.compute m.record = .ok m
  total : result.total = found.length
  kept : sorted.Perm found
  unordered : v.order.getD [] = [] → sorted = found
  ordered : (∀ k ∈ v.order.getD [], Value.Uniform (found.map (·.value k.property))) →
    Sorting.StablySorted (Match.order (v.order.getD [])) found sorted
  limited : ∀ limit, v.limit = some limit → 0 < limit →
    result.rows = (sorted.take limit.toNat).map (Match.row v)
  unlimited : (∀ limit, v.limit = some limit → limit ≤ 0) → result.rows = sorted.map (Match.row v)

theorem record_of_compute {b : Base} {r : Record} {m : Match} (h : b.compute r = .ok m) :
    m.record = r := by
  obtain ⟨computed, -, h⟩ := bind_eq_ok_iff.1 h
  cases h
  rfl

end Base

theorem View.perm_of_arrange {v : View} {ms sorted : List Match} (h : v.arrange ms = .ok sorted) :
    sorted.Perm ms := by
  rw [arrange] at h
  split at h
  · cases h
    exact .refl _
  · exact Sorting.perm_of_sort h

theorem View.cut_sublist {α : Type} (v : View) (xs : List α) : (v.cut xs).Sublist xs := by
  rw [cut]
  split
  · split
    · exact List.take_sublist _ _
    · exact .refl _
  · exact .refl _

/-- Whatever a view answers, its rows are records that it was given, and none is counted twice. -/
theorem Base.rows_of_query {b : Base} {index : Int} {records : List Record} {result : QueryResult}
    (h : b.query index records = .ok result) :
    (∀ row ∈ result.rows, row.path ∈ records.map (·.path)) ∧ result.total ≤ records.length := by
  obtain ⟨selected, hselected, h⟩ := bind_eq_ok_iff.1 h
  obtain ⟨ms, hms, h⟩ := bind_eq_ok_iff.1 h
  obtain ⟨sorted, hsorted, h⟩ := bind_eq_ok_iff.1 h
  cases h
  have hsource : ms.map Match.record = selected :=
    map_of_mapM_eq_ok hms fun _ _ => record_of_compute
  have hsublist := sublist_of_filterM hselected
  have hperm := View.perm_of_arrange hsorted
  constructor
  · intro row hrow
    obtain ⟨m, hm, rfl⟩ := List.mem_map.1 hrow
    have hmem : m.record ∈ selected :=
      hsource ▸ List.mem_map_of_mem (hperm.subset ((View.cut_sublist _ _).subset hm))
    exact List.mem_map_of_mem (hsublist.subset hmem)
  · calc sorted.length = ms.length := hperm.length_eq
      _ = selected.length := by rw [← hsource, List.length_map]
      _ ≤ records.length := hsublist.length_le

/-- The shortest of the notes with a tag. -/
def shortest : Base :=
  { filters := .text "file.hasTag(\"x\")"
    formulas := none
    properties := none
    views := [{ View.standard with order := some [⟨"file.size", .asc⟩], limit := some 1 }]
    extra := [] }

end MarkdownVault
