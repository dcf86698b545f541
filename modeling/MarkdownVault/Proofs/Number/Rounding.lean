import Mathlib.Algebra.Order.Field.Power
import Mathlib.Tactic.NormNum
import Mathlib.Tactic.Ring
import MarkdownVault.Proofs.Value.Order

/-!
# Rounding and bounds

A fraction that reaches a natural number of few bits is not rounded below it: with a negative
exponent this number is a multiple of the last place, and with any other the mantissa alone is
greater.
-/

namespace MarkdownVault

theorem div_le_roundDiv (num den : Nat) : num / den ≤ roundDiv num den := by
  simp only [roundDiv]
  split
  · exact Nat.le_refl _
  · split
    · exact Nat.le_succ _
    · exact Nat.le_add_right _ _

namespace Binary64

theorem exact_false (m : Nat) (e : Int) : exact false m e = (m : ℚ) * 2 ^ e := by
  by_cases he : 0 ≤ e
  · obtain ⟨k, rfl⟩ := Int.eq_ofNat_of_zero_le he
    simp [exact, Rat.mkRat_eq_div]
  · obtain ⟨k, rfl⟩ : ∃ k : Nat, e = -(k : Int) := ⟨e.natAbs, by omega⟩
    rw [exact, if_neg he]
    simp [Rat.mkRat_eq_div, div_eq_mul_inv]

theorem exact_not (a : Bool) (m : Nat) (e : Int) : exact (!a) m e = -exact a m e := by
  cases a <;> by_cases he : 0 ≤ e <;> simp [exact, he, Rat.mkRat_eq_div, neg_div]

theorem exact_true (m : Nat) (e : Int) : exact true m e = -((m : ℚ) * 2 ^ e) := by
  rw [← Bool.not_false, exact_not, exact_false]

theorem exponentFor_le (num den : Nat) :
    exponentFor num den ≤ max minExponent (num.log2 - den.log2 - 52) := by
  simp only [exponentFor]
  refine max_le_max le_rfl ?_
  split
  · exact Int.sub_le_self _ (by decide)
  · exact le_rfl

/-- With an exponent that is not negative the mantissa is long. -/
theorem le_mantissa_of_nonneg {num den j : Nat} (hnum : num ≠ 0) (hden : 0 < den)
    (h : exponentFor num den = j) : 2 ^ 51 ≤ num / (den * 2 ^ j) := by
  have hj : j + 51 + (den.log2 + 1) ≤ num.log2 := by
    have hle := exponentFor_le num den
    rw [h, le_max_iff] at hle
    rcases hle with hle | hle
    · exact absurd hle (by simp [minExponent]; omega)
    · omega
  have hlt : den < 2 ^ (den.log2 + 1) := Nat.lt_log2_self
  have hpos : 0 < den * 2 ^ j := Nat.mul_pos hden (Nat.two_pow_pos j)
  rw [Nat.le_div_iff_mul_le hpos]
  calc 2 ^ 51 * (den * 2 ^ j) = 2 ^ (j + 51) * den := by rw [pow_add]; ring
    _ ≤ 2 ^ (j + 51) * 2 ^ (den.log2 + 1) := Nat.mul_le_mul_left _ hlt.le
    _ = 2 ^ (j + 51 + (den.log2 + 1)) := (pow_add ..).symm
    _ ≤ 2 ^ num.log2 := Nat.pow_le_pow_right two_pos hj
    _ ≤ num := Nat.log2_self_le hnum

/-- The quotient of a fraction that is scaled down for the mantissa, times the power of two. -/
theorem le_scaled {k num den : Nat} (hk : k ≤ 2 ^ 51) (hden : 0 < den) (hnum : num ≠ 0)
    (h : k * den ≤ num) {n d : Nat} {e : Int} (he : exponentFor num den = e)
    (hscale : scaleDown num den e = (n, d)) : (k : ℚ) ≤ (n / d : Nat) * 2 ^ e := by
  by_cases hneg : 0 ≤ e
  · obtain ⟨j, rfl⟩ := Int.eq_ofNat_of_zero_le hneg
    rw [scaleDown, if_pos hneg] at hscale
    cases hscale
    have hone : (1 : ℚ) ≤ 2 ^ (j : Int) := one_le_zpow₀ (by norm_num) (by omega)
    -- The mantissa alone reaches the bound.
    calc (k : ℚ) ≤ (num / (den * 2 ^ j) : Nat) :=
          mod_cast hk.trans (le_mantissa_of_nonneg hnum hden he)
      _ ≤ (num / (den * 2 ^ j) : Nat) * 2 ^ (j : Int) :=
          le_mul_of_one_le_right (Nat.cast_nonneg _) hone
  · obtain ⟨j, rfl⟩ : ∃ j : Nat, e = -(j : Int) := ⟨e.natAbs, by omega⟩
    rw [scaleDown, if_neg hneg] at hscale
    cases hscale
    -- The bound is a multiple of the last place, so cutting off below it keeps to it.
    have hmul : k * 2 ^ j ≤ num * 2 ^ j / den := by
      rw [Nat.le_div_iff_mul_le hden]
      calc k * 2 ^ j * den = k * den * 2 ^ j := by ring
        _ ≤ num * 2 ^ j := Nat.mul_le_mul_right _ h
    have hmul : (k : ℚ) * 2 ^ j ≤ (num * 2 ^ j / den : Nat) := mod_cast hmul
    have hpos : (0 : ℚ) < 2 ^ j := by positivity
    simpa [zpow_neg, ← div_eq_mul_inv, le_div_iff₀ hpos] using hmul

/-- A mantissa that is carried into one bit more stands for the same number. -/
theorem exact_carried (e : Int) : exact false (2 ^ 52) (e + 1) = exact false (2 ^ 53) e := by
  rw [exact_false, exact_false, zpow_add_one₀ two_ne_zero]
  push_cast
  ring

/-- A fraction that reaches a number of at most 51 bits still does when it is rounded. -/
theorem le_magnitude_ofFraction {k num den : Nat} (hk : k ≤ 2 ^ 51) (hden : 0 < den)
    (hnum : num ≠ 0) (h : k * den ≤ num) :
    ∃ m, (ofFraction false num den).magnitude? = some m ∧
      (((k : ℚ) : WithTop ℚ) : Magnitude) ≤ m := by
  obtain ⟨n, d, hscale⟩ : ∃ n d, scaleDown num den (exponentFor num den) = (n, d) := ⟨_, _, rfl⟩
  have hk := le_scaled hk hden hnum h rfl hscale
  have hround : (k : ℚ) ≤ exact false (roundDiv n d) (exponentFor num den) := by
    rw [exact_false]
    refine hk.trans (mul_le_mul_of_nonneg_right ?_ (by positivity))
    exact mod_cast div_le_roundDiv n d
  have htop (e : Int) (m : Nat) (hm : (k : ℚ) ≤ exact false m e) :
      ∃ x, (if maxExponent < e then infinite false else finite false m e).magnitude? = some x ∧
        (((k : ℚ) : WithTop ℚ) : Magnitude) ≤ x := by
    split
    · exact ⟨_, rfl, WithBot.coe_le_coe.2 le_top⟩
    · exact ⟨_, rfl, WithBot.coe_le_coe.2 (WithTop.coe_le_coe.2 hm)⟩
  simp only [ofFraction, if_neg hnum, hscale]
  by_cases hcarry : roundDiv n d = Nat.pow 2 53
  · rw [if_pos hcarry]
    rw [hcarry] at hround
    exact htop _ _ (hround.trans_eq (exact_carried _).symm)
  · rw [if_neg hcarry]
    exact htop _ _ hround

theorem lt_iff {x y : Binary64} {m n : Magnitude} (hx : x.magnitude? = some m)
    (hy : y.magnitude? = some n) : x.lt y = true ↔ m < n := by
  rw [lt, Value.compare?_eq hx hy, beq_iff_eq, Option.some.injEq, compare_lt_iff_lt]

/-- What is below a natural number of at most 51 bits when it is rounded was below it before. -/
theorem lt_of_ofRat_lt {k : Nat} (hpos : 0 < k) (hk : k ≤ 2 ^ 51) {bound : Binary64}
    (hbound : bound.magnitude? = some (((k : ℚ) : WithTop ℚ) : Magnitude)) {zeroNegative : Bool}
    {x : ℚ} (h : (ofRat zeroNegative x).lt bound = true) : x < k := by
  by_contra hx
  have hx : (k : ℚ) ≤ x := not_lt.1 hx
  have hxpos : 0 < x := lt_of_lt_of_le (by exact_mod_cast hpos) hx
  have hnum : (x.num.natAbs : ℤ) = x.num := Int.natAbs_of_nonneg (Rat.num_pos.2 hxpos).le
  have hle : k * x.den ≤ x.num.natAbs := by
    have hden : (0 : ℚ) < x.den := by exact_mod_cast x.den_pos
    rw [← Rat.num_div_den x, le_div_iff₀ hden] at hx
    have hint : ((k * x.den : Nat) : ℤ) ≤ x.num := by exact_mod_cast hx
    exact Int.ofNat_le.1 (hint.trans_eq hnum.symm)
  have hne : x.num.natAbs ≠ 0 := by simpa using hxpos.ne'
  obtain ⟨m, hm, hkm⟩ := le_magnitude_ofFraction hk x.den_pos hne hle
  rw [ofRat, if_neg hxpos.ne', decide_eq_false hxpos.not_gt, lt_iff hm hbound] at h
  exact absurd h hkm.not_gt

end Binary64

end MarkdownVault
