import Mathlib.Data.List.Forall2
import MarkdownVault.Proofs.Base.Query
import MarkdownVault.Proofs.Value.Comparable
import MarkdownVault.Proofs.Value.Preorder

/-!
# Views do not depend on the listing

The notes of a vault reach a view in the order in which they are listed. If comparing is a total
preorder on every column that the view sorts by, that order only shows between matches that rank
the same.
-/

namespace MarkdownVault

open Std Sorting

namespace Match

variable {keys : List SortKey} {ms : List Match}

/-- The direction of a key turns the numbers round. -/
def signed (k : SortKey) (n : Nat) : Int :=
  match k.direction with
  | .asc => n
  | .desc => -n

theorem compare_signed (k : SortKey) (m n : Nat) : Ord.compare (signed k m) (signed k n) =
    if k.direction = .desc then (Ord.compare m n).swap else Ord.compare m n := by
  rw [signed, signed]
  cases k.direction with
  | asc => simp [LinearOrder.compare_eq_compareOfLessAndEq, compareOfLessAndEq]
  | desc =>
    rw [Nat.compare_swap]
    simp [LinearOrder.compare_eq_compareOfLessAndEq, compareOfLessAndEq, @eq_comm Nat m n]

/-- Matches can be numbered by every key so that the numbers compare as the matches do. -/
theorem exists_places
    (hcolumns : ∀ k ∈ keys, PreorderOn Value.compareForSort (ms.map (·.value k.property))) :
    ∃ places : Match → List Int, ∀ a ∈ ms, ∀ b ∈ ms,
      compare keys a b = .ok (Ord.compare (places a) (places b)) := by
  induction keys with
  | nil => exact ⟨fun _ => [], fun _ _ _ _ => rfl⟩
  | cons k keys ih =>
    obtain ⟨hcolumn, hcolumns⟩ := List.forall_mem_cons.1 hcolumns
    obtain ⟨place, hplace⟩ := hcolumn.exists_places
    obtain ⟨places, hplaces⟩ := ih hcolumns
    refine ⟨fun m => signed k (place (m.value k.property)) :: places m, fun a ha b hb => ?_⟩
    have hfirst := hplace _ (List.mem_map_of_mem ha) _ (List.mem_map_of_mem hb)
    rw [compare, hfirst, List.compare_cons_cons, compare_signed]
    cases Ord.compare (place (a.value k.property)) (place (b.value k.property)) with
    | eq => cases hk : k.direction <;> simpa [bind, Except.bind] using hplaces a ha b hb
    | lt => cases hk : k.direction <;> rfl
    | gt => cases hk : k.direction <;> rfl

end Match

/-! ## Sorting -/

/-- Matches that came in one order and in another, both times sorted by the keys of a view: what
stands at the same place ranks the same. -/
structure View.SortedAlike (v : View) (sorted sorted' : List Match) : Prop where
  perm : sorted'.Perm sorted
  inOrder : sorted.Pairwise (NoLater (Match.compare (v.order.getD [])))
  inOrder' : sorted'.Pairwise (NoLater (Match.compare (v.order.getD [])))
  ranks : List.Forall₂ (fun m m' => Match.compare (v.order.getD []) m m' = .ok .eq) sorted sorted'

namespace View

variable {v : View} {ms ms' : List Match} {places : Match → List Int}

/-- Sorting puts the places of the matches in order. -/
theorem exists_arrange_places (hplaces : ∀ a ∈ ms, ∀ b ∈ ms,
      Match.compare (v.order.getD []) a b = .ok (Ord.compare (places a) (places b))) :
    ∃ sorted, v.arrange ms = .ok sorted ∧ sorted.Perm ms ∧
      sorted.Pairwise fun a b => (Ord.compare (places a) (places b)).isLE := by
  rw [arrange]
  generalize v.order.getD [] = keys at hplaces ⊢
  cases keys with
  | nil =>
    refine ⟨ms, rfl, .refl ms, List.pairwise_of_forall_mem_list fun a ha b hb => ?_⟩
    rw [← Except.ok.inj (hplaces a ha b hb)]
    rfl
  | cons k keys =>
    have hless : ∀ a ∈ ms, ∀ b ∈ ms,
        Match.less (k :: keys) a b = .ok (compareOn places a b == .lt) := by
      intro a ha b hb
      rw [Match.less, hplaces a ha b hb]
      rfl
    obtain ⟨sorted, hsorted, hstable⟩ := exists_sort_stable hless
    exact ⟨sorted, hsorted, hstable.perm, hstable.sorted⟩

theorem exists_sortedAlike (hperm : ms'.Perm ms)
    (hcolumns : ∀ k ∈ v.order.getD [],
      PreorderOn Value.compareForSort (ms.map (·.value k.property))) :
    ∃ sorted sorted', v.arrange ms = .ok sorted ∧ v.arrange ms' = .ok sorted' ∧ sorted.Perm ms ∧
      v.SortedAlike sorted sorted' := by
  obtain ⟨places, hplaces⟩ := Match.exists_places hcolumns
  obtain ⟨sorted, hsorted, hkept, hordered⟩ := exists_arrange_places hplaces
  obtain ⟨sorted', hsorted', hkept', hordered'⟩ := @exists_arrange_places v ms' places
    fun a ha b hb => hplaces a (hperm.subset ha) b (hperm.subset hb)
  have hkeptAll : sorted'.Perm sorted := hkept'.trans (hperm.trans hkept.symm)
  have hinOrder {xs : List Match} (hxs : xs.Perm ms)
      (h : xs.Pairwise fun a b => (Ord.compare (places a) (places b)).isLE) :
      xs.Pairwise (NoLater (Match.compare (v.order.getD []))) :=
    h.imp_of_mem fun ha hb hle =>
      ⟨_, hplaces _ (hxs.subset ha) _ (hxs.subset hb), hle⟩
  have hsame := map_eq_of_perm hkeptAll.symm hordered hordered'
  refine ⟨sorted, sorted', hsorted, hsorted', hkept, hkeptAll, hinOrder hkept hordered,
    hinOrder (hkept'.trans hperm) hordered', ?_⟩
  rw [List.forall₂_iff_get]
  refine ⟨hkeptAll.length_eq.symm, fun i hi hi' => ?_⟩
  rw [hplaces _ (hkept.subset (List.get_mem _ _)) _
    ((hkept'.trans hperm).subset (List.get_mem _ _))]
  have hplace : places (sorted.get ⟨i, hi⟩) = places (sorted'.get ⟨i, hi'⟩) := by
    have hget := List.getElem_of_eq hsame (List.length_map places ▸ hi)
    rwa [List.getElem_map, List.getElem_map] at hget
  rw [hplace, ReflOrd.compare_self]

end View

/-! ## Running a view -/

namespace Base

/-- The matches of a view, in the order of the records. -/
def found (b : Base) (v : View) (records : List Record) : List Match :=
  (records.filter fun r => (b.selects v r).toOption == some true).filterMap fun r =>
    (b.compute r).toOption

/-- What a view answers once its matches are sorted. -/
def answer (v : View) (sorted : List Match) : QueryResult :=
  ⟨(v.cut sorted).map (Match.row v), sorted.length, v⟩

variable {b : Base} {v : View} {records : List Record}

theorem exists_compute (heval : ∀ r ∈ records, b.Evaluates v r) {r : Record}
    (hr : r ∈ records.filter fun r => (b.selects v r).toOption == some true) :
    ∃ m, b.compute r = .ok m ∧ ∀ k ∈ v.order.getD [], ∃ t, (m.value k.property).asText = .ok t := by
  obtain ⟨hr, htrue⟩ := List.mem_filter.1 hr
  obtain ⟨chosen, hchosen, h⟩ := heval r hr
  rw [hchosen] at htrue
  exact h (by simpa [Except.toOption] using htrue)

theorem text_of_found (heval : ∀ r ∈ records, b.Evaluates v r) :
    ∀ m ∈ b.found v records, ∀ k ∈ v.order.getD [], ∃ t, (m.value k.property).asText = .ok t := by
  intro m hm
  obtain ⟨r, hr, hcompute⟩ := List.mem_filterMap.1 hm
  obtain ⟨m', hm', htext⟩ := exists_compute heval hr
  cases (eq_ok_of_toOption hcompute).symm.trans hm'
  exact htext

theorem found_perm {records' : List Record} (hperm : records'.Perm records) :
    (b.found v records').Perm (b.found v records) :=
  (hperm.filter _).filterMap _

theorem query_eq {index : Int} {sorted : List Match}
    (heval : ∀ r ∈ records, b.Evaluates (b.view index) r)
    (hsorted : (b.view index).arrange (b.found (b.view index) records) = .ok sorted) :
    b.query index records = .ok (answer (b.view index) sorted) := by
  have hselect : ∀ r ∈ records, ∃ chosen, b.selects (b.view index) r = .ok chosen := by
    intro r hr
    obtain ⟨chosen, hchosen, -⟩ := heval r hr
    exact ⟨chosen, hchosen⟩
  have hcompute := mapM_eq_ok fun r hr =>
    (exists_compute heval (r := r) hr).imp fun _ h => h.1
  simp only [query, filterM_eq_ok hselect, bind, Except.bind, hcompute]
  rw [found] at hsorted
  simp only [hsorted]
  rfl

end Base

/-- Comparing is a total preorder exactly on consistent columns, for all values that front matter
can hold. A view that sorts by such columns answers alike for every order of the records. -/
theorem columns_sort_alike (b : Base) (index : Int) :
    (∀ vs : List Value, (∀ x ∈ vs, x.hasTextKeys) →
      (PreorderOn Value.compareForSort vs ↔ Value.Consistent vs)) ∧
    ∀ records records' : List Record, records'.Perm records →
      (∀ r ∈ records, b.Evaluates (b.view index) r) →
      (∀ k ∈ (b.view index).order.getD [],
        Value.Consistent ((b.found (b.view index) records).map (·.value k.property))) →
      ∃ sorted sorted', sorted.Perm (b.found (b.view index) records) ∧
        b.query index records = .ok (Base.answer (b.view index) sorted) ∧
        b.query index records' = .ok (Base.answer (b.view index) sorted') ∧
        (b.view index).SortedAlike sorted sorted' := by
  constructor
  · intro vs hkeys
    exact Value.preorderOn_iff fun x hx => Value.exists_asText_of_hasTextKeys x (hkeys x hx)
  · intro records records' hperm heval hcolumns
    have heval' : ∀ r ∈ records', b.Evaluates (b.view index) r := fun r hr =>
      heval r (hperm.subset hr)
    have hpreorder : ∀ k ∈ (b.view index).order.getD [], PreorderOn Value.compareForSort
        ((b.found (b.view index) records).map (·.value k.property)) := fun k hk =>
      (Value.preorderOn_iff (List.forall_mem_map.2 fun m hm =>
        Base.text_of_found heval m hm k hk)).2 (hcolumns k hk)
    obtain ⟨sorted, sorted', hsorted, hsorted', hkept, halike⟩ :=
      View.exists_sortedAlike (Base.found_perm hperm) hpreorder
    exact ⟨sorted, sorted', hkept, Base.query_eq heval hsorted, Base.query_eq heval' hsorted',
      halike⟩

/-- A note with a value to sort by. -/
def Record.rated (path : String) (v : Value) : Record :=
  { path := path, name := path, folder := "", extension := "md", size := 0
    created := .zero false, modified := .zero false, tags := [], links := []
    properties := [("rating", v)] }

/-- A view of all notes by their rating. -/
def byRating : Base :=
  { filters := .null
    formulas := none
    properties := none
    views := [{ View.standard with order := some [⟨"rating", .asc⟩] }]
    extra := [] }

/-- The paths of the rows that a view answers with. -/
def Base.rowsFor (b : Base) (records : List Record) : Except ValueFault (List String) :=
  (b.query 0 records).map fun result => result.rows.map (·.path)

/-- The texts of 9 and 10 stand in the other order, but the text "none" behind both. -/
theorem columns_sort_alike_numbers :
    PreorderOn Value.compareForSort [.int 9, .int 10, .text "none"] ∧
    ∃ sorted sorted',
      byRating.query 0 [.rated "x" (.int 10), .rated "y" (.text "none"), .rated "z" (.int 9)] =
        .ok (Base.answer (byRating.view 0) sorted) ∧
      byRating.query 0 [.rated "y" (.text "none"), .rated "z" (.int 9), .rated "x" (.int 10)] =
        .ok (Base.answer (byRating.view 0) sorted') ∧
      (byRating.view 0).SortedAlike sorted sorted' := by
  obtain ⟨hvalues, hviews⟩ := columns_sort_alike byRating 0
  refine ⟨(hvalues _ (by decide)).2 (by decide +kernel), ?_⟩
  obtain ⟨sorted, sorted', -, h⟩ := hviews
    [.rated "x" (.int 10), .rated "y" (.text "none"), .rated "z" (.int 9)]
    [.rated "y" (.text "none"), .rated "z" (.int 9), .rated "x" (.int 10)]
    (@List.perm_append_comm _ [_, _] [_]) (by decide +kernel) (by decide +kernel)
  exact ⟨sorted, sorted', h⟩

/-- NaN does not equal itself. With the text "5", which stands between the texts of 10 and 9, these
numbers stand in a circle, and two listings of three notes come out differently. -/
theorem circle_sorts_apart :
    Value.compareForSort (.float .nan) (.float .nan) = .ok .gt ∧
    Value.compareForSort (.int 9) (.int 10) = .ok .lt ∧
    Value.compareForSort (.int 10) (.text "5") = .ok .lt ∧
    Value.compareForSort (.int 9) (.text "5") = .ok .gt ∧
    byRating.rowsFor [.rated "x" (.int 9), .rated "y" (.int 10), .rated "z" (.text "5")] =
      .ok ["x", "y", "z"] ∧
    byRating.rowsFor [.rated "y" (.int 10), .rated "z" (.text "5"), .rated "x" (.int 9)] =
      .ok ["y", "z", "x"] := by
  refine ⟨rfl, rfl, ?_, ?_, ?_, ?_⟩
  all_goals exact eq_ok_of_toOption (by decide +kernel)

end MarkdownVault
