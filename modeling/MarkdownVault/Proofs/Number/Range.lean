import MarkdownVault.Proofs.Number.Rounding

/-!
# The range of finite numbers

A rounded fraction has a mantissa of 53 bits and an exponent that is not too great, or it is infinite.
So an integer has a finite number near it exactly if it lies below half a last place beyond the
greatest one, and every integer that a finite number equals is one of them.
-/

namespace MarkdownVault.Binary64

/-- The least natural number that is rounded to infinity, half a last place beyond the greatest
finite number. -/
def overflow : Nat := (2 ^ 53 - 1) * 2 ^ 971 + 2 ^ 970

variable {num den : Nat}

/-! ## Mantissas -/

theorem scaleDown_snd_pos (hden : 0 < den) (e : Int) : 0 < (scaleDown num den e).2 := by
  rw [scaleDown]
  split
  · exact Nat.mul_pos hden (Nat.two_pow_pos _)
  · exact hden

/-- Scaling divides a fraction by a power of two. -/
theorem scaleDown_ratio (num den : Nat) (e : Int) :
    ((scaleDown num den e).1 : ℚ) / (scaleDown num den e).2 = num / den / 2 ^ e := by
  by_cases he : 0 ≤ e
  · obtain ⟨k, rfl⟩ := Int.eq_ofNat_of_zero_le he
    rw [scaleDown, if_pos he]
    simp [div_div]
  · obtain ⟨k, rfl⟩ : ∃ k : Nat, e = -(k : Int) := ⟨e.natAbs, by omega⟩
    rw [scaleDown, if_neg he]
    simp [div_eq_mul_inv, mul_right_comm]

theorem scaled_lt_iff (num : Nat) (hden : 0 < den) (e : Int) (k : Nat) :
    (scaleDown num den e).1 / (scaleDown num den e).2 < k ↔ (num / den / 2 ^ e : ℚ) < k := by
  have hpos : (0 : ℚ) < (scaleDown num den e).2 := mod_cast scaleDown_snd_pos hden e
  rw [← scaleDown_ratio num den, Nat.div_lt_iff_lt_mul (scaleDown_snd_pos hden e),
    div_lt_iff₀ hpos]
  exact_mod_cast Iff.rfl

/-- With the exponent that is chosen the quotient has at most 53 bits. -/
theorem scaled_exponentFor_lt (num : Nat) (hden : 0 < den) :
    (num / den / 2 ^ exponentFor num den : ℚ) < 2 ^ 53 := by
  obtain ⟨e, he⟩ : ∃ e : Int, e = num.log2 - den.log2 - 52 := ⟨_, rfl⟩
  have hratio : (num / den : ℚ) < 2 ^ (e + 53) := by
    have hupper : (num : ℚ) < 2 ^ (num.log2 + 1) := mod_cast Nat.lt_log2_self
    have hlower : (2 : ℚ) ^ den.log2 ≤ den := mod_cast Nat.log2_self_le hden.ne'
    have hexponent : (2 : ℚ) ^ (e + 53) = 2 ^ (num.log2 + 1) / 2 ^ den.log2 := by
      rw [he, ← zpow_natCast, ← zpow_natCast, ← zpow_sub₀ two_ne_zero]
      congr 1
      push_cast
      ring
    rw [hexponent]
    exact div_lt_div₀ hupper hlower (by positivity) (by positivity)
  have hquotient {f : Int} (hle : e ≤ f) : (num / den / 2 ^ f : ℚ) < 2 ^ 53 := by
    rw [div_lt_iff₀ (by positivity)]
    refine hratio.trans_le ?_
    rw [zpow_add₀ two_ne_zero, mul_comm]
    exact mul_le_mul_of_nonneg_left (zpow_le_zpow_right₀ one_le_two hle) (by positivity)
  have hlower : (if (scaleDown num den e).1 / (scaleDown num den e).2 < Nat.pow 2 52
      then e - 1 else e) ≤ exponentFor num den := by
    rw [he]
    exact le_max_right _ _
  split at hlower
  · rename_i hsmall
    -- One bit is missing, and the exponent is one less.
    rw [scaled_lt_iff num hden, div_lt_iff₀ (by positivity)] at hsmall
    rw [div_lt_iff₀ (by positivity)]
    calc (num / den : ℚ) < (Nat.pow 2 52 : Nat) * 2 ^ e := hsmall
      _ = 2 ^ 53 * 2 ^ (e - 1) := by
        rw [zpow_sub_one₀ two_ne_zero, Nat.pow_eq]
        push_cast
        ring
      _ ≤ 2 ^ 53 * 2 ^ exponentFor num den :=
        mul_le_mul_of_nonneg_left (zpow_le_zpow_right₀ one_le_two hlower) (by positivity)
  · exact hquotient hlower

theorem roundDiv_le (num den : Nat) : roundDiv num den ≤ num / den + 1 := by
  simp only [roundDiv]
  split
  · omega
  · split <;> omega

/-- The mantissa and the exponent of a rounded fraction. -/
theorem bounds_of_ofFraction {negative a : Bool} {m : Nat} {e : Int} (hden : 0 < den)
    (h : ofFraction negative num den = .finite a m e) : m < 2 ^ 53 ∧ e ≤ maxExponent := by
  obtain ⟨n, d, hscale⟩ : ∃ n d, scaleDown num den (exponentFor num den) = (n, d) := ⟨_, _, rfl⟩
  have hquotient : n / d < 2 ^ 53 := by
    have hscaled := (scaled_lt_iff num hden (exponentFor num den) (2 ^ 53)).2
      (by exact_mod_cast scaled_exponentFor_lt num hden)
    rwa [hscale] at hscaled
  have hround : roundDiv n d ≤ 2 ^ 53 := (roundDiv_le n d).trans hquotient
  have hfinite {k : Nat} {f : Int} (hk : k < 2 ^ 53)
      (h : (if maxExponent < f then infinite negative else finite negative k f) = .finite a m e) :
      m < 2 ^ 53 ∧ e ≤ maxExponent := by
    split at h
    · cases h
    · rename_i hf
      cases h
      exact ⟨hk, not_lt.1 hf⟩
  by_cases hnum : num = 0
  · rw [ofFraction, if_pos hnum] at h
    cases h
    decide
  · simp only [ofFraction, if_neg hnum, hscale] at h
    by_cases hcarry : roundDiv n d = Nat.pow 2 53
    · rw [if_pos hcarry] at h
      exact hfinite (k := Nat.pow 2 52) (by decide) h
    · rw [if_neg hcarry] at h
      exact hfinite (lt_of_le_of_ne hround hcarry) h

theorem bounds_of_ofDecimal {negative a : Bool} {digits m : Nat} {exponent e : Int}
    (h : ofDecimal negative digits exponent = .finite a m e) : m < 2 ^ 53 ∧ e ≤ maxExponent := by
  simp only [ofDecimal] at h
  split at h
  · cases h
    decide
  · split at h
    · cases h
    · split at h
      · cases h
        decide
      · split at h
        · exact bounds_of_ofFraction Nat.one_pos h
        · exact bounds_of_ofFraction (Nat.pow_pos (by decide)) h

/-! ## Integers -/

/-- The mantissa of a natural number has all its 53 bits. -/
theorem exponentFor_one {n : Nat} (hn : n ≠ 0) : exponentFor n 1 = n.log2 - 52 := by
  have hlog : ((1 : Nat).log2 : Int) = 0 := rfl
  have hlarge : ¬(scaleDown n 1 (n.log2 - 52)).1 / (scaleDown n 1 (n.log2 - 52)).2 <
      Nat.pow 2 52 := by
    rw [scaled_lt_iff n Nat.one_pos, Nat.cast_one, div_one, not_lt, le_div_iff₀ (by positivity)]
    have hle : (2 : ℚ) ^ n.log2 ≤ n := mod_cast Nat.log2_self_le hn
    refine le_trans (le_of_eq ?_) hle
    rw [zpow_sub₀ two_ne_zero, zpow_natCast, Nat.pow_eq]
    push_cast
    exact mul_div_cancel₀ _ (by positivity)
  have hexponent : exponentFor n 1 = max minExponent (n.log2 - 52) := by
    simp only [exponentFor]
    rw [show Int.ofNat n.log2 - Int.ofNat (Nat.log2 1) - 52 = (n.log2 : Int) - 52 by simp [hlog],
      if_neg hlarge]
  rw [hexponent]
  exact max_eq_right (by simp [minExponent]; omega)

/-- In the last binade the mantissa is carried from the middle of the last place on. -/
theorem roundDiv_eq_carry_iff {n h : Nat} (hpos : 0 < h) (hn : n < 2 ^ 53 * (2 * h)) :
    roundDiv n (2 * h) = 2 ^ 53 ↔ (2 ^ 53 - 1) * (2 * h) + h ≤ n := by
  obtain ⟨q, r, hq, hr, hsum, hlt⟩ : ∃ q r, n / (2 * h) = q ∧ n % (2 * h) = r ∧
      2 * h * q + r = n ∧ r < 2 * h :=
    ⟨_, _, rfl, rfl, Nat.div_add_mod n (2 * h), Nat.mod_lt _ (by omega)⟩
  have hle : q < 2 ^ 53 := by
    rw [← hq, Nat.div_lt_iff_lt_mul (by omega)]
    exact hn
  simp only [roundDiv, hq, hr]
  by_cases hlast : q = 2 ^ 53 - 1
  · subst hlast
    constructor
    · intro hround
      split at hround <;> omega
    · intro hbound
      have hnot : ¬2 * r < 2 * h := by omega
      rw [if_neg hnot]
      split <;> omega
  · have hsmall : q ≤ 2 ^ 53 - 2 := by omega
    have hbelow : 2 * h * q ≤ 2 * h * (2 ^ 53 - 2) := Nat.mul_le_mul_left _ hsmall
    constructor
    · intro hround
      split at hround
      · omega
      · split at hround <;> omega
    · intro hbound
      omega

/-- A natural number is rounded to a finite number if its exponent is not too great, or one less than
that where the mantissa is carried. -/
theorem exists_finite_iff {negative : Bool} {k : Nat} (hk : k ≠ 0) {e : Int}
    (he : (k.log2 : Int) - 52 = e) {n d : Nat} (hscale : scaleDown k 1 e = (n, d)) :
    (∃ a m f, ofFraction negative k 1 = .finite a m f) ↔
      if roundDiv n d = 2 ^ 53 then e < maxExponent else e ≤ maxExponent := by
  have hexponent : exponentFor k 1 = e := (exponentFor_one hk).trans he
  have hif (m : Nat) (f : Int) : (∃ a m' f', (if maxExponent < f then infinite negative
      else finite negative m f) = .finite a m' f') ↔ f ≤ maxExponent := by
    by_cases hf : maxExponent < f
    · simp [hf, not_le.2 hf]
    · simp [hf, not_lt.1 hf]
  simp only [ofFraction, if_neg hk, hexponent, hscale]
  by_cases hcarry : roundDiv n d = Nat.pow 2 53
  · have hpow : roundDiv n d = 2 ^ 53 := hcarry
    rw [if_pos hcarry, if_pos hpow]
    exact hif _ _
  · have hpow : roundDiv n d ≠ 2 ^ 53 := hcarry
    rw [if_neg hcarry, if_neg hpow]
    exact hif _ _

/-- An integer has a finite number near it exactly if it is not too great. -/
theorem isSome_ofInt?_iff (n : Int) : (ofInt? n).isSome ↔ n.natAbs < overflow := by
  obtain ⟨k, hk⟩ : ∃ k, n.natAbs = k := ⟨_, rfl⟩
  obtain ⟨h, hh⟩ : ∃ h : Nat, 2 ^ 970 = h := ⟨_, rfl⟩
  have hpos : 0 < h := by
    rw [← hh]
    exact pow_pos two_pos 970
  have hlast : 2 ^ 971 = 2 * h := by rw [← hh, ← pow_succ']
  have hover : overflow = (2 ^ 53 - 1) * (2 * h) + h := by rw [overflow, hlast, hh]
  have hsome : (ofInt? n).isSome ↔ ∃ a m f, ofFraction (decide (n < 0)) k 1 = .finite a m f := by
    rw [ofInt?, ofInt, hk]
    cases ofFraction (decide (n < 0)) k 1 <;> simp
  rw [hsome, hk, hover]
  by_cases hzero : k = 0
  · subst hzero
    exact iff_of_true ⟨_, _, _, rfl⟩ (by omega)
  · have hlower := Nat.log2_self_le hzero
    have hupper : k < 2 ^ (k.log2 + 1) := Nat.lt_log2_self
    obtain ⟨num, den, hscale⟩ : ∃ num den, scaleDown k 1 (k.log2 - 52) = (num, den) :=
      ⟨_, _, rfl⟩
    rw [exists_finite_iff hzero rfl hscale]
    rcases lt_trichotomy k.log2 1023 with hlog | hlog | hlog
    · have hbelow : k < 2 ^ 53 * h := by
        have hpow : 2 ^ (k.log2 + 1) ≤ 2 ^ (53 + 970) := pow_le_pow_right₀ one_le_two hlog
        rw [← hh, ← pow_add]
        exact hupper.trans_le hpow
      refine iff_of_true ?_ (by omega)
      split <;> simp only [maxExponent] <;> omega
    · have hbelow : k < 2 ^ 53 * (2 * h) := by
        rw [hlog] at hupper
        refine hupper.trans_eq ?_
        rw [← hlast, ← pow_add]
      obtain ⟨rfl, rfl⟩ : k = num ∧ 2 * h = den := by
        rw [hlog] at hscale
        rw [← hlast]
        simpa [scaleDown] using hscale
      simp only [roundDiv_eq_carry_iff hpos hbelow, hlog, maxExponent]
      split
      · exact iff_of_false (by decide) (by omega)
      · exact iff_of_true (by decide) (by omega)
    · have habove : 2 ^ 53 * (2 * h) ≤ k := by
        have hpow : 2 ^ (53 + 971) ≤ 2 ^ k.log2 := pow_le_pow_right₀ one_le_two hlog
        rw [← hlast, ← pow_add]
        exact hpow.trans hlower
      refine iff_of_false ?_ (by omega)
      split <;> simp only [maxExponent] <;> omega

theorem toInt?_eq_some_iff {a : Bool} {m : Nat} {e n : Int} :
    (finite a m e).toInt? = some n ↔ exact a m e = n := by
  rw [toInt?]
  constructor
  · intro h
    split at h
    · rename_i hden
      rw [← Option.some.inj h]
      exact ((Rat.den_eq_one_iff _).1 hden).symm
    · cases h
  · intro h
    rw [h]
    simp

theorem natAbs_of_toInt? {a : Bool} {m : Nat} {e n : Int} (h : (finite a m e).toInt? = some n) :
    ((n.natAbs : Nat) : ℚ) = m * 2 ^ e := by
  have hnonneg : (0 : ℚ) ≤ m * 2 ^ e := by positivity
  rw [Nat.cast_natAbs, Int.cast_abs, ← toInt?_eq_some_iff.1 h]
  cases a with
  | false => rw [exact_false, abs_of_nonneg hnonneg]
  | true => rw [exact_true, abs_neg, abs_of_nonneg hnonneg]

/-- An integer that a number within the bounds equals has a finite number near it. -/
theorem isSome_ofInt?_of_toInt? {x : Binary64} {n : Int}
    (hx : ∀ a m e, x = .finite a m e → m < 2 ^ 53 ∧ e ≤ maxExponent) (h : x.toInt? = some n) :
    (ofInt? n).isSome := by
  cases x with
  | nan => cases h
  | infinite => cases h
  | finite a m e =>
    obtain ⟨hm, he⟩ := hx a m e rfl
    have hbound : ((n.natAbs : Nat) : ℚ) ≤ ((2 ^ 53 - 1) * 2 ^ 971 : Nat) := by
      rw [natAbs_of_toInt? h]
      have hmantissa : (m : ℚ) ≤ (2 ^ 53 - 1 : Nat) := mod_cast Nat.le_sub_one_of_lt hm
      have hpower : (2 : ℚ) ^ e ≤ 2 ^ 971 := by
        rw [← zpow_natCast]
        exact zpow_le_zpow_right₀ one_le_two he
      rw [Nat.cast_mul, Nat.cast_pow, Nat.cast_two]
      exact mul_le_mul hmantissa hpower (by positivity) (Nat.cast_nonneg _)
    have hlt : n.natAbs ≤ (2 ^ 53 - 1) * 2 ^ 971 := mod_cast hbound
    rw [isSome_ofInt?_iff, overflow]
    exact hlt.trans_lt (Nat.lt_add_of_pos_right (pow_pos two_pos 970))

end MarkdownVault.Binary64
