import MarkdownVault.Proofs.Sorting
import MarkdownVault.Proofs.Value.Order

/-!
# Where the order of values is one

Numbers compare by value and everything else by its text, so two numbers and a text may stand in a
circle: 9 before 10, 10 before "5" and "5" before 9. That takes two numbers whose texts stand in
another order than the numbers do, and another value between the two texts. Without such a value,
and without NaN, which does not even equal itself, comparing is a total preorder.
-/

namespace MarkdownVault.Value

open Std Sorting

/-- The text of a value, empty if it has none. -/
def textOf (v : Value) : String := v.asText.toOption.getD ""

/-- How the texts of two values compare. -/
def compareAsTexts (a b : Value) : Ordering := compareFolded a.textOf b.textOf

instance : TransCmp compareAsTexts where
  eq_swap {a b} := @OrientedCmp.eq_swap _ compareFolded _ a.textOf b.textOf
  isLE_trans {a b c} := @TransCmp.isLE_trans _ compareFolded _ a.textOf b.textOf c.textOf

/-- Two numbers whose texts stand in another order than they do themselves. -/
def Misplaced (x y : Value) : Prop :=
  x.isNumber ∧ y.isNumber ∧ compareNumbers? x y ≠ some (compareAsTexts x y)

/-- A value other than null and numbers with a text between those of two values, or equal to one
of them. -/
def Between (x t y : Value) : Prop :=
  ¬t.isNull ∧ ¬t.isNumber ∧ (compareAsTexts x t).isLE ∧ (compareAsTexts t y).isLE

/-- No value is NaN, and none stands between the texts of numbers that these misplace. -/
structure Consistent (vs : List Value) : Prop where
  ne_nan : ∀ v ∈ vs, v ≠ .float .nan
  not_between : ∀ x ∈ vs, ∀ y ∈ vs, Misplaced x y → ∀ t ∈ vs, ¬Between x t y

instance (x y : Value) : Decidable (Misplaced x y) := inferInstanceAs (Decidable (_ ∧ _ ∧ _))

instance (x t y : Value) : Decidable (Between x t y) :=
  inferInstanceAs (Decidable (_ ∧ _ ∧ _ ∧ _))

instance : (v : Value) → Decidable (v = .float .nan)
  | .float .nan => .isTrue rfl
  | .float (.infinite _) | .float (.finite _ _ _) => .isFalse nofun
  | .null | .bool _ | .int _ | .text _ | .date _ | .moment _ | .bytes _ | .list _ | .map _
  | .set _ | .enclosing _ => .isFalse nofun

instance (vs : List Value) : Decidable (Consistent vs) :=
  decidable_of_iff ((∀ v ∈ vs, v ≠ .float .nan) ∧
    ∀ x ∈ vs, ∀ y ∈ vs, Misplaced x y → ∀ t ∈ vs, ¬Between x t y)
    ⟨fun h => ⟨h.1, h.2⟩, fun h => ⟨h.1, h.2⟩⟩

variable {a b c x y t : Value} {vs : List Value}

/-- Where only numbers or only other values stand, none can come between. -/
theorem Uniform.consistent (h : Uniform vs) (hnan : ∀ v ∈ vs, v ≠ .float .nan) :
    Consistent vs where
  ne_nan := hnan
  not_between := by
    rintro x hx y - ⟨hxnumber, -, -⟩ t ht ⟨hnull, hnumber, -⟩
    rcases h with hnumbers | hothers
    · exact (hnumbers t ht).elim hnull fun h => hnumber h.1
    · rcases hothers x hx with hxnull | hxother
      · cases x <;> simp_all [isNull, isNumber]
      · exact hxother hxnumber

/-! ## One comparison -/

theorem compareForSort_of_isNull (h : a.isNull) :
    compareForSort a b = .ok (if b.isNull then .eq else .lt) := by
  rw [compareForSort, if_pos h]

theorem compareForSort_isNull (ha : ¬a.isNull) (hb : b.isNull) :
    compareForSort a b = .ok .gt := by
  rw [compareForSort, if_neg ha, if_pos hb]

theorem not_isNull_of_isNumber (h : a.isNumber) : ¬a.isNull := by
  cases a with
  | null => cases h
  | _ => simp [isNull]

theorem compareForSort_of_isNumber (ha : a.isNumber) (hb : b.isNumber) :
    compareForSort a b = .ok ((compareNumbers? a b).getD .gt) := by
  rw [compareForSort, if_neg (not_isNull_of_isNumber ha), if_neg (not_isNull_of_isNumber hb),
    if_pos (by rw [ha, hb]; rfl)]

/-- Values that have a text compare by it, unless one is missing or both are numbers. -/
theorem compareForSort_of_texts (ha : ∃ s, a.asText = .ok s) (hb : ∃ t, b.asText = .ok t)
    (hna : ¬a.isNull) (hnb : ¬b.isNull) (hnumbers : ¬(a.isNumber ∧ b.isNumber)) :
    compareForSort a b = .ok (compareAsTexts a b) := by
  obtain ⟨s, hs⟩ := ha
  obtain ⟨t, ht⟩ := hb
  rw [compareForSort, if_neg hna, if_neg hnb, if_neg (by simpa using hnumbers), compareAsTexts,
    textOf, textOf, hs, ht]
  rfl

theorem compareForSort_nan : compareForSort (.float .nan) (.float .nan) = .ok .gt := rfl

/-- Numbers other than NaN compare by their magnitudes. -/
theorem exists_magnitudes (ha : a.isNumber) (hb : b.isNumber) (hna : a ≠ .float .nan)
    (hnb : b ≠ .float .nan) : ∃ m n, a.magnitude? = some m ∧ b.magnitude? = some n ∧
      compareNumbers? a b = some (compare m n) := by
  obtain ⟨m, hm, -⟩ := rank_of_isNumber ha hna
  obtain ⟨n, hn, -⟩ := rank_of_isNumber hb hnb
  exact ⟨m, n, hm, hn, compareNumbers?_eq hm hn⟩

/-! ## From the preorder -/

/-- Orderings of one direction are the same if they can be turned round alike. -/
theorem eq_of_isLE {o o' : Ordering} (h : o.isLE) (h' : o'.isLE)
    (hswap : o.swap.isLE ↔ o'.swap.isLE) : o = o' := by
  cases o <;> cases o' <;> simp_all

/-- What is stated of a comparison that is known. -/
theorem noLater_iff {o : Ordering} (h : compareForSort a b = .ok o) :
    NoLater compareForSort a b ↔ o.isLE := by
  constructor
  · rintro ⟨o', ho, hle⟩
    cases h.symm.trans ho
    exact hle
  · exact fun hle => ⟨o, h, hle⟩

section Values

variable (htext : ∀ v ∈ vs, ∃ s, v.asText = .ok s)
include htext

/-- Texts decide between values unless these are numbers that they misplace. -/
theorem noLater_iff_asTexts (ha : a ∈ vs) (hb : b ∈ vs) (hna : ¬a.isNull) (hnb : ¬b.isNull)
    (h : ¬Misplaced a b) : NoLater compareForSort a b ↔ (compareAsTexts a b).isLE := by
  by_cases hnumbers : a.isNumber ∧ b.isNumber
  · have hcompare : compareNumbers? a b = some (compareAsTexts a b) := by
      by_contra hne
      exact h ⟨hnumbers.1, hnumbers.2, hne⟩
    exact noLater_iff (by
      rw [compareForSort_of_isNumber hnumbers.1 hnumbers.2, hcompare, Option.getD_some])
  · exact noLater_iff (compareForSort_of_texts (htext a ha) (htext b hb) hna hnb hnumbers)

theorem not_between_of_preorderOn (h : PreorderOn compareForSort vs) (hx : x ∈ vs) (hy : y ∈ vs)
    (hmisplaced : Misplaced x y) (ht : t ∈ vs) : ¬Between x t y := by
  rintro ⟨hnull, hnumber, hxt, hty⟩
  obtain ⟨hnx, hny, hne⟩ := hmisplaced
  have hleft {v : Value} (hv : v ∈ vs) (hn : v.isNumber) :
      NoLater compareForSort v t ↔ (compareAsTexts v t).isLE :=
    noLater_iff_asTexts htext hv ht (not_isNull_of_isNumber hn) hnull fun h => hnumber h.2.1
  have hright {v : Value} (hv : v ∈ vs) (hn : v.isNumber) :
      NoLater compareForSort t v ↔ (compareAsTexts t v).isLE :=
    noLater_iff_asTexts htext ht hv hnull (not_isNull_of_isNumber hn) fun h => hnumber h.1
  -- The way over the other value leads from one number to the other.
  have hxy : NoLater compareForSort x y :=
    h.trans x hx t ht y hy ((hleft hx hnx).2 hxt) ((hright hy hny).2 hty)
  have htexts : (compareAsTexts x y).isLE := TransCmp.isLE_trans hxt hty
  -- It leads back as well if either the numbers or their texts are equal.
  have hback : NoLater compareForSort y x ↔ (compareAsTexts y x).isLE := by
    constructor
    · intro hyx
      have hyt := (hleft hy hny).1 (h.trans y hy x hx t ht hyx ((hleft hx hnx).2 hxt))
      have htx := (hright hx hnx).1 (h.trans t ht y hy x hx ((hright hy hny).2 hty) hyx)
      exact TransCmp.isLE_trans hyt htx
    · intro hyx
      have hyt : (compareAsTexts y t).isLE := TransCmp.isLE_trans hyx hxt
      have htx : (compareAsTexts t x).isLE := TransCmp.isLE_trans hty hyx
      exact h.trans y hy t ht x hx ((hleft hy hny).2 hyt) ((hright hx hnx).2 htx)
  have hnan : ∀ v ∈ vs, v ≠ .float .nan := by
    rintro v hv rfl
    cases (h.refl _ hv).symm.trans compareForSort_nan
  obtain ⟨m, n, hm, hn, hcompare⟩ := exists_magnitudes hnx hny (hnan x hx) (hnan y hy)
  have hforth : compareForSort x y = .ok (compare m n) := by
    rw [compareForSort_of_isNumber hnx hny, hcompare, Option.getD_some]
  have hreturn : compareForSort y x = .ok (compare n m) := by
    rw [compareForSort_of_isNumber hny hnx, compareNumbers?_eq hn hm, Option.getD_some]
  rw [noLater_iff hforth] at hxy
  rw [noLater_iff hreturn, @OrientedOrd.eq_swap _ _ _ n, @OrientedCmp.eq_swap _ compareAsTexts _ y]
    at hback
  exact hne (hcompare.trans (congrArg some (eq_of_isLE hxy htexts hback)))

/-! ## To the preorder -/

omit htext in
theorem Misplaced.symm (h : Misplaced x y) (hx : x ≠ .float .nan) (hy : y ≠ .float .nan) :
    Misplaced y x := by
  obtain ⟨hnx, hny, hne⟩ := h
  obtain ⟨m, n, hm, hn, hcompare⟩ := exists_magnitudes hnx hny hx hy
  refine ⟨hny, hnx, fun heq => hne ?_⟩
  rw [compareNumbers?_eq hn hm, Option.some_inj] at heq
  rw [hcompare, OrientedOrd.eq_swap, heq, ← OrientedCmp.eq_swap]

omit htext in
theorem isLE_asTexts_of_not (h : ¬(compareAsTexts a b).isLE) : (compareAsTexts b a).isLE := by
  rw [@OrientedCmp.eq_swap _ compareAsTexts]
  cases hab : compareAsTexts a b <;> simp_all

omit htext in
theorem isNull_of_noLater (h : NoLater compareForSort a b) (hb : b.isNull) : a.isNull := by
  by_contra ha
  obtain ⟨o, ho, hle⟩ := h
  cases ho.symm.trans (compareForSort_isNull ha hb)
  cases hle

omit htext in
theorem noLater_of_isNull (h : a.isNull) : NoLater compareForSort a b := by
  refine ⟨_, compareForSort_of_isNull h, ?_⟩
  split <;> rfl

namespace Consistent

variable (h : Consistent vs)
include h

omit htext in
theorem noLater_numbers_trans (ha : a ∈ vs) (hb : b ∈ vs) (hc : c ∈ vs) (hna : a.isNumber)
    (hnb : b.isNumber) (hnc : c.isNumber) (hab : NoLater compareForSort a b)
    (hbc : NoLater compareForSort b c) : NoLater compareForSort a c := by
  obtain ⟨l, m, hl, hm, hlm⟩ := exists_magnitudes hna hnb (h.ne_nan a ha) (h.ne_nan b hb)
  obtain ⟨n, -, hn, -⟩ := exists_magnitudes hnc hnc (h.ne_nan c hc) (h.ne_nan c hc)
  have hcompare {x y : Value} {i j : Magnitude} (hx : x.isNumber) (hy : y.isNumber)
      (hi : x.magnitude? = some i) (hj : y.magnitude? = some j) :
      NoLater compareForSort x y ↔ (compare i j).isLE :=
    noLater_iff (by
      rw [compareForSort_of_isNumber hx hy, compareNumbers?_eq hi hj, Option.getD_some])
  rw [hcompare hna hnb hl hm] at hab
  rw [hcompare hnb hnc hm hn] at hbc
  exact (hcompare hna hnc hl hn).2 (TransOrd.isLE_trans hab hbc)

theorem noLater_trans (ha : a ∈ vs) (hb : b ∈ vs) (hc : c ∈ vs)
    (hab : NoLater compareForSort a b) (hbc : NoLater compareForSort b c) :
    NoLater compareForSort a c := by
  by_cases hna : a.isNull
  · exact noLater_of_isNull hna
  have hnb : ¬b.isNull := fun hb => hna (isNull_of_noLater hab hb)
  have hnc : ¬c.isNull := fun hc => hnb (isNull_of_noLater hbc hc)
  have htexts {x y : Value} (hx : x ∈ vs) (hy : y ∈ vs) := noLater_iff_asTexts htext hx hy
  by_cases hall : a.isNumber ∧ b.isNumber ∧ c.isNumber
  · exact h.noLater_numbers_trans ha hb hc hall.1 hall.2.1 hall.2.2 hab hbc
  -- One of the three is no number, and not between the other two if these are misplaced.
  by_cases hmab : Misplaced a b
  · have hother : ¬c.isNumber := fun hc => hall ⟨hmab.1, hmab.2.1, hc⟩
    have hbc := (htexts hb hc hnb hnc fun hm => hother hm.2.1).1 hbc
    refine (htexts ha hc hna hnc fun hm => hother hm.2.1).2 ?_
    by_contra hac
    exact h.not_between b hb a ha (hmab.symm (h.ne_nan a ha) (h.ne_nan b hb)) c hc
      ⟨hnc, hother, hbc, isLE_asTexts_of_not hac⟩
  rw [htexts ha hb hna hnb hmab] at hab
  by_cases hmbc : Misplaced b c
  · have hother : ¬a.isNumber := fun ha => hall ⟨ha, hmbc.1, hmbc.2.1⟩
    refine (htexts ha hc hna hnc fun hm => hother hm.1).2 ?_
    by_contra hac
    exact h.not_between c hc b hb (hmbc.symm (h.ne_nan b hb) (h.ne_nan c hc)) a ha
      ⟨hna, hother, isLE_asTexts_of_not hac, hab⟩
  rw [htexts hb hc hnb hnc hmbc] at hbc
  by_cases hmac : Misplaced a c
  · have hother : ¬b.isNumber := fun hb => hall ⟨hmac.1, hb, hmac.2.1⟩
    exact absurd ⟨hnb, hother, hab, hbc⟩ (h.not_between a ha c hc hmac b hb)
  · exact (htexts ha hc hna hnc hmac).2 (TransCmp.isLE_trans hab hbc)

theorem preorderOn : PreorderOn compareForSort vs where
  refl a ha := by
    by_cases hnull : a.isNull
    · rw [compareForSort_of_isNull hnull, if_pos hnull]
    by_cases hnumber : a.isNumber
    · obtain ⟨m, n, hm, hn, hcompare⟩ :=
        exists_magnitudes hnumber hnumber (h.ne_nan a ha) (h.ne_nan a ha)
      cases hm.symm.trans hn
      rw [compareForSort_of_isNumber hnumber hnumber, hcompare, @ReflCmp.compare_self _ compare]
      rfl
    · rw [compareForSort_of_texts (htext a ha) (htext a ha) hnull hnull fun hboth =>
        hnumber hboth.1, @ReflCmp.compare_self _ compareAsTexts]
  swap a ha b hb := by
    by_cases hna : a.isNull
    · refine ⟨_, compareForSort_of_isNull hna, ?_⟩
      by_cases hnb : b.isNull
      · rw [compareForSort_of_isNull hnb, if_pos hna, if_pos hnb, Ordering.swap_eq]
      · rw [compareForSort_isNull hnb hna, if_neg hnb, Ordering.swap_lt]
    by_cases hnb : b.isNull
    · exact ⟨.gt, compareForSort_isNull hna hnb, by rw [compareForSort_of_isNull hnb, if_neg hna]; rfl⟩
    by_cases hnumbers : a.isNumber ∧ b.isNumber
    · obtain ⟨m, n, hm, hn, hcompare⟩ :=
        exists_magnitudes hnumbers.1 hnumbers.2 (h.ne_nan a ha) (h.ne_nan b hb)
      refine ⟨compare m n, ?_, ?_⟩
      · rw [compareForSort_of_isNumber hnumbers.1 hnumbers.2, hcompare]
        rfl
      · rw [compareForSort_of_isNumber hnumbers.2 hnumbers.1, compareNumbers?_eq hn hm,
          OrientedOrd.eq_swap]
        rfl
    · refine ⟨_, compareForSort_of_texts (htext a ha) (htext b hb) hna hnb hnumbers, ?_⟩
      rw [compareForSort_of_texts (htext b hb) (htext a ha) hnb hna fun hboth => hnumbers hboth.symm,
        @OrientedCmp.eq_swap _ compareAsTexts]
  trans a ha b hb c hc := h.noLater_trans htext ha hb hc

end Consistent

/-- Comparing the values of a column is a total preorder exactly if the column is consistent. -/
theorem preorderOn_iff : PreorderOn compareForSort vs ↔ Consistent vs := by
  constructor
  · intro h
    constructor
    · rintro v hv rfl
      cases (h.refl _ hv).symm.trans compareForSort_nan
    · exact fun x hx y hy hmisplaced t ht => not_between_of_preorderOn htext h hx hy hmisplaced ht
  · exact fun h => h.preorderOn htext

end Values

end MarkdownVault.Value
