import Mathlib.Data.Nat.Cast.Field
import MarkdownVault.Proofs.Number.Range

/-!
# Integers of 53 bits

An integer is rounded to itself exactly if it is a mantissa of 53 bits times a power of two that is
not too great. Every other integer is rounded to one of these or to infinity, since an integer that
has more bits than a mantissa keeps no fraction.
-/

namespace MarkdownVault.Binary64

variable {m num : Nat} {e : Int}

/-- An integer that a finite number equals. -/
def Representable (n : Int) : Prop :=
  ∃ k e : Nat, k < 2 ^ 53 ∧ e ≤ 971 ∧ n.natAbs = k * 2 ^ e

/-! ## Exact roundings -/

/-- A natural number whose last places are zero is its mantissa times a power of two. -/
theorem ofFraction_of_dvd (negative : Bool) (hnum : num ≠ 0) (he : exponentFor num 1 = e)
    (hmax : e ≤ maxExponent) (hdvd : (scaleDown num 1 e).2 ∣ (scaleDown num 1 e).1) :
    ∃ m, ofFraction negative num 1 = .finite negative m e ∧ (m : ℚ) * 2 ^ e = num := by
  obtain ⟨n, d, hscale⟩ : ∃ n d, scaleDown num 1 e = (n, d) := ⟨_, _, rfl⟩
  have hratio := scaleDown_ratio num 1 e
  have hlt := (scaled_lt_iff num Nat.one_pos e (2 ^ 53)).2
    (by rw [← he]; exact_mod_cast scaled_exponentFor_lt num Nat.one_pos)
  have hsnd : 0 < (scaleDown num 1 e).2 := scaleDown_snd_pos Nat.one_pos e
  have hpos : 0 < d := by rwa [hscale] at hsnd
  rw [hscale] at hratio hlt hdvd
  have hround : roundDiv n d = n / d := by
    simp [roundDiv, Nat.mod_eq_zero_of_dvd hdvd, hpos]
  have hcarry : ¬ n / d = Nat.pow 2 53 := hlt.ne
  refine ⟨n / d, ?_, ?_⟩
  · simp only [ofFraction, if_neg hnum, he, hscale, hround, if_neg hcarry, if_neg hmax.not_gt]
  · rw [Nat.cast_div hdvd (by exact_mod_cast hpos.ne'), hratio, Nat.cast_one, div_one,
      div_mul_cancel₀ _ (by positivity)]

/-- A number of 53 bits has zeros behind its mantissa. -/
theorem scaleDown_dvd {k j : Nat} (he : e ≤ j) :
    (scaleDown (k * 2 ^ j) 1 e).2 ∣ (scaleDown (k * 2 ^ j) 1 e).1 := by
  by_cases hneg : 0 ≤ e
  · obtain ⟨i, rfl⟩ := Int.eq_ofNat_of_zero_le hneg
    rw [scaleDown, if_pos hneg, Nat.one_mul]
    exact Dvd.dvd.mul_left (Nat.pow_dvd_pow 2 (Int.ofNat_le.1 he)) k
  · rw [scaleDown, if_neg hneg]
    exact Nat.one_dvd _

/-! ## Integers as numbers -/

theorem exact_decide {n : Int} (h : (m : ℚ) * 2 ^ e = n.natAbs) :
    exact (decide (n < 0)) m e = n := by
  rw [Nat.cast_natAbs, Int.cast_abs] at h
  by_cases hn : n < 0
  · have hcast : (n : ℚ) < 0 := by exact_mod_cast hn
    rw [decide_eq_true hn, exact_true, h, abs_of_neg hcast, neg_neg]
  · have hcast : (0 : ℚ) ≤ n := by exact_mod_cast not_lt.1 hn
    rw [decide_eq_false hn, exact_false, h, abs_of_nonneg hcast]

theorem toInt?_of_representable {n : Int} (h : Representable n) : (ofInt n).toInt? = some n := by
  obtain ⟨k, j, hk, hj, hn⟩ := h
  by_cases hzero : n = 0
  · subst hzero
    exact toInt?_eq_some_iff.2 (exact_decide (by simp))
  · have hnum : n.natAbs ≠ 0 := Int.natAbs_ne_zero.2 hzero
    have hlog : n.natAbs.log2 < 53 + j := by
      rw [Nat.log2_lt hnum, hn, pow_add]
      exact Nat.mul_lt_mul_of_pos_right hk (Nat.two_pow_pos j)
    have hdvd : (n.natAbs.log2 : Int) - 52 ≤ j := by omega
    have hmax : (n.natAbs.log2 : Int) - 52 ≤ maxExponent := by
      simp only [maxExponent]
      omega
    rw [hn] at hdvd
    obtain ⟨m, hfinite, hvalue⟩ := ofFraction_of_dvd (decide (n < 0)) hnum
      (exponentFor_one hnum) hmax (hn ▸ scaleDown_dvd hdvd)
    rw [ofInt, hfinite, toInt?_eq_some_iff, exact_decide hvalue]

theorem representable_of_toInt? {n : Int} (h : (ofInt n).toInt? = some n) : Representable n := by
  cases hfinite : ofInt n with
  | nan => simp [hfinite, toInt?] at h
  | infinite => simp [hfinite, toInt?] at h
  | finite a m e =>
    obtain ⟨hm, he⟩ := bounds_of_ofFraction Nat.one_pos hfinite
    rw [hfinite] at h
    have hvalue := natAbs_of_toInt? h
    by_cases hneg : 0 ≤ e
    · obtain ⟨j, rfl⟩ := Int.eq_ofNat_of_zero_le hneg
      exact ⟨m, j, hm, Int.ofNat_le.1 he, by exact_mod_cast hvalue⟩
    · have hle : n.natAbs ≤ m := by
        have hpower : (2 : ℚ) ^ e ≤ 1 := zpow_le_one_of_nonpos₀ one_le_two (not_le.1 hneg).le
        have hcast : (n.natAbs : ℚ) ≤ m :=
          hvalue.trans_le (mul_le_of_le_one_right (Nat.cast_nonneg m) hpower)
        exact_mod_cast hcast
      exact ⟨n.natAbs, 0, hle.trans_lt hm, Nat.zero_le _, by simp⟩

/-- The integers that are rounded to themselves. -/
theorem toInt?_ofInt_iff {n : Int} : (ofInt n).toInt? = some n ↔ Representable n :=
  ⟨representable_of_toInt?, toInt?_of_representable⟩

instance (n : Int) : Decidable (Representable n) := decidable_of_iff _ toInt?_ofInt_iff

theorem exists_toInt?_of_nonneg (a : Bool) (m : Nat) (he : 0 ≤ e) :
    ∃ n, (finite a m e).toInt? = some n := by
  obtain ⟨j, rfl⟩ := Int.eq_ofNat_of_zero_le he
  refine ⟨if a then -(m * 2 ^ j : Nat) else (m * 2 ^ j : Nat), toInt?_eq_some_iff.2 ?_⟩
  cases a with
  | false => simp [exact_false]
  | true => simp [exact_true]

/-- An integer is rounded to an integer or to infinity: what has more bits than a mantissa has no
place behind the point. -/
theorem ofInt_infinite_or (n : Int) :
    ofInt n = .infinite (decide (n < 0)) ∨ ∃ k, (ofInt n).toInt? = some k := by
  by_cases hsmall : n.natAbs < 2 ^ 53
  · exact .inr ⟨n, toInt?_of_representable ⟨n.natAbs, 0, hsmall, Nat.zero_le _, by simp⟩⟩
  · have hnum : n.natAbs ≠ 0 := by omega
    have hexponent : 0 ≤ exponentFor n.natAbs 1 := by
      have hlog : 53 ≤ n.natAbs.log2 := (Nat.le_log2 hnum).2 (not_lt.1 hsmall)
      rw [exponentFor_one hnum]
      omega
    have hif (m : Nat) {e : Int} (he : 0 ≤ e) {x : Binary64} (hx : (if maxExponent < e
        then infinite (decide (n < 0)) else finite (decide (n < 0)) m e) = x) :
        x = .infinite (decide (n < 0)) ∨ ∃ k, x.toInt? = some k := by
      subst hx
      split
      · exact .inl rfl
      · exact .inr (exists_toInt?_of_nonneg _ m he)
    simp only [ofInt, ofFraction, if_neg hnum]
    split
    · exact hif _ (by omega) rfl
    · exact hif _ hexponent rfl

/-! ## Decimal texts -/

theorem ofInt_of_overflow {n : Int} (h : overflow ≤ n.natAbs) :
    ofInt n = .infinite (decide (n < 0)) := by
  refine (ofInt_infinite_or n).resolve_right ?_
  rintro ⟨k, hk⟩
  have hsome : (ofInt? n).isSome := by
    rw [ofInt?]
    cases hfinite : ofInt n with
    | finite => rfl
    | _ => simp [hfinite, toInt?] at hk
  exact absurd ((isSome_ofInt?_iff n).1 hsome) h.not_gt

/-- The digits of an integer are rounded as the integer is; where there are too many of them to be
read, the integer is beyond the finite numbers. -/
theorem ofDecimal_natAbs (n : Int) : ofDecimal (decide (n < 0)) n.natAbs 0 = ofInt n := by
  have hlarge : overflow ≤ 10 ^ 310 := by decide +kernel
  simp only [ofDecimal]
  split
  · rename_i hzero
    simp [ofInt, ofFraction, hzero]
  · split
    · rename_i hsize
      have hdigits : 10 ^ 310 ≤ n.natAbs := by
        refine not_lt.1 fun hlt => ?_
        have hle := (Nat.length_toDigits_le_iff (by decide) (by decide)).2 hlt
        have hlong : 310 < (Nat.toDigits 10 n.natAbs).length := by simpa using hsize
        exact hle.not_gt hlong
      rw [ofInt_of_overflow (hlarge.trans hdigits)]
    · simp [ofInt]

end MarkdownVault.Binary64
