import Mathlib.Algebra.Order.Ring.Cast
import Mathlib.Algebra.Order.Ring.Rat
import Mathlib.Order.WithBot
import MarkdownVault.Value.Order

/-!
# Ranks of values in a column

A value that is missing ranks first, numbers rank by their exact value and other values by their
texts. As long as a column does not mix numbers with other values and has no NaN, comparing its
values is comparing their ranks.
-/

namespace MarkdownVault

open Std

/-- Exact values of numbers, the infinite ones included. -/
abbrev Magnitude := WithBot (WithTop ℚ)

/-- The exact value of a number, unless it is NaN. -/
def Binary64.magnitude? : Binary64 → Option Magnitude
  | .nan => none
  | .infinite true => some ⊥
  | .infinite false => some ((⊤ : WithTop ℚ) : Magnitude)
  | .finite negative m e => some ((exact negative m e : WithTop ℚ) : Magnitude)

namespace Value

def magnitude? : Value → Option Magnitude
  | .int n => some (((n : ℚ) : WithTop ℚ) : Magnitude)
  | .float x => x.magnitude?
  | _ => none

theorem isSome_magnitude? {v : Value} : v.magnitude?.isSome ↔ v.isNumber ∧ v ≠ .float .nan := by
  cases v with
  | float x => rcases x with _ | ⟨_ | _⟩ | _ <;> simp [magnitude?, isNumber, Binary64.magnitude?]
  | _ => simp [magnitude?, isNumber]

/-! ## Comparing -/

theorem compareRat_eq (x y : ℚ) : Binary64.compareRat x y =
    compare ((x : WithTop ℚ) : Magnitude) ((y : WithTop ℚ) : Magnitude) := by
  simp [Binary64.compareRat, LinearOrder.compare_eq_compareOfLessAndEq, compareOfLessAndEq]

theorem compareExact?_eq {x : Binary64} {m : Magnitude} (hx : x.magnitude? = some m) (y : ℚ) :
    x.compareExact? y = some (compare m ((y : WithTop ℚ) : Magnitude)) := by
  rcases x with _ | ⟨_ | _⟩ | _ <;> cases hx
  · simp [Binary64.compareExact?, LinearOrder.compare_eq_compareOfLessAndEq, compareOfLessAndEq]
  · simp [Binary64.compareExact?, LinearOrder.compare_eq_compareOfLessAndEq, compareOfLessAndEq]
  · rw [Binary64.compareExact?, compareRat_eq]

theorem compare?_eq {x y : Binary64} {m n : Magnitude} (hx : x.magnitude? = some m)
    (hy : y.magnitude? = some n) : x.compare? y = some (compare m n) := by
  rcases y with _ | ⟨_ | _⟩ | ⟨b, k, f⟩ <;> cases hy
  case finite =>
    rw [← compareExact?_eq hx]
    cases x <;> rfl
  all_goals
    rcases x with _ | ⟨_ | _⟩ | _ <;> cases hx <;>
      simp [Binary64.compare?, LinearOrder.compare_eq_compareOfLessAndEq, compareOfLessAndEq]

theorem compareNumbers?_eq {a b : Value} {m n : Magnitude} (ha : a.magnitude? = some m)
    (hb : b.magnitude? = some n) : compareNumbers? a b = some (compare m n) := by
  cases a <;> cases b <;> simp only [magnitude?, reduceCtorEq, Option.some.injEq] at ha hb
  case int.int i j =>
    subst ha hb
    rw [compareNumbers?, ← compareRat_eq]
    simp [Binary64.compareRat, LinearOrder.compare_eq_compareOfLessAndEq, compareOfLessAndEq]
  case int.float i y =>
    subst ha
    rw [compareNumbers?, compareExact?_eq hb, Option.map_some, ← OrientedOrd.eq_swap]
  case float.int x j =>
    subst hb
    exact compareExact?_eq ha j
  case float.float x y => exact compare?_eq ha hb

instance : TransCmp compareFolded :=
  inferInstanceAs (TransCmp (compareLex (compareOn fold) compare))

/-- The place of a value among those of a column. -/
inductive Rank where
  | missing
  | number (x : Magnitude)
  | text (s : String)

namespace Rank

def order : Rank → Rank → Ordering
  | missing, missing => .eq
  | missing, _ => .lt
  | _, missing => .gt
  | number x, number y => compare x y
  | number _, text _ => .lt
  | text _, number _ => .gt
  | text s, text t => compareFolded s t

instance : TransCmp order where
  eq_swap {a b} := by
    cases a <;> cases b <;> simp only [order, Ordering.swap_lt, Ordering.swap_gt, Ordering.swap_eq]
    case number.number => exact OrientedOrd.eq_swap
    case text.text => exact OrientedCmp.eq_swap
  isLE_trans {a b c} hab hbc := by
    cases a <;> cases b <;> cases c <;> simp only [order] at hab hbc ⊢ <;> try contradiction
    case number.number.number => exact TransOrd.isLE_trans hab hbc
    case text.text.text => exact TransCmp.isLE_trans hab hbc
    all_goals rfl

end Rank

/-- The rank of a value; NaN and values without a text are given one, too. -/
def rank (v : Value) : Rank :=
  if v.isNull then .missing
  else match v.magnitude? with
    | some m => .number m
    | none => .text (v.asText.toOption.getD "")

/-- Values that compare with each other: all numbers, or none of them, apart from missing ones. -/
def Uniform (vs : List Value) : Prop :=
  (∀ v ∈ vs, v.isNull ∨ v.isNumber ∧ v ≠ .float .nan) ∨ ∀ v ∈ vs, v.isNull ∨ ¬v.isNumber

theorem exists_compareForSort {a b : Value} (ha : ∃ s, a.asText = .ok s)
    (hb : ∃ s, b.asText = .ok s) : ∃ o, compareForSort a b = .ok o := by
  obtain ⟨s, hs⟩ := ha
  obtain ⟨t, ht⟩ := hb
  rw [compareForSort]
  split
  · exact ⟨_, rfl⟩
  · split
    · exact ⟨_, rfl⟩
    · split
      · exact ⟨_, rfl⟩
      · exact ⟨_, by rw [hs, ht]; rfl⟩

theorem rank_of_isNumber {v : Value} (h : v.isNumber) (hnan : v ≠ .float .nan) :
    ∃ m, v.magnitude? = some m ∧ v.rank = .number m := by
  obtain ⟨m, hm⟩ := Option.isSome_iff_exists.1 (isSome_magnitude?.2 ⟨h, hnan⟩)
  have hnull : ¬v.isNull := by cases v <;> simp_all [isNull, isNumber]
  exact ⟨m, hm, by rw [rank, if_neg hnull, hm]⟩

end Value

end MarkdownVault
