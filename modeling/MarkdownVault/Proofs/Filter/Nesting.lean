import MarkdownVault.Filter.Expression

/-!
# Nested parentheses

Each part of the parser counts its own nesting. A row of tokens with balanced parentheses brings
every one of these counts back to where it was, so what follows the row is read as if it stood
alone.
-/

namespace MarkdownVault.Filter

variable {kind : TokenKind} {t : Token} {ts us : List Token}

/-- A token that is no parenthesis. -/
def Token.IsPlain (t : Token) : Prop := t.kind ≠ .lparen ∧ t.kind ≠ .rparen

/-- Rows of tokens in which every parenthesis has its partner. -/
inductive Balanced : List Token → Prop
  | nil : Balanced []
  | plain {t : Token} {ts : List Token} (ht : t.IsPlain) (hts : Balanced ts) : Balanced (t :: ts)
  | paren {l r : Token} {ts us : List Token} (hl : l.kind = .lparen) (hts : Balanced ts)
      (hr : r.kind = .rparen) (hus : Balanced us) : Balanced (l :: (ts ++ r :: us))

namespace Balanced

theorem append (hts : Balanced ts) (hus : Balanced us) : Balanced (ts ++ us) := by
  induction hts with
  | nil => exact hus
  | plain ht _ ih => exact .plain ht ih
  | paren hl hts hr _ _ ih =>
    rw [List.cons_append, List.append_assoc, List.cons_append]
    exact .paren hl hts hr ih

theorem tail (h : Balanced (t :: ts)) (ht : t.IsPlain) : Balanced ts := by
  cases h with
  | plain _ h => exact h
  | paren hl => exact absurd hl ht.1

end Balanced

/-! ## The check -/

theorem checkBalanced_plain (ht : t.IsPlain) (depth : Nat) (ts : List Token) :
    checkBalanced depth (t :: ts) = checkBalanced depth ts := by
  rcases t with ⟨kind, _, _, _⟩
  cases kind <;> simp_all [Token.IsPlain, checkBalanced]

theorem checkBalanced_lparen (ht : t.kind = .lparen) (depth : Nat) (ts : List Token) :
    checkBalanced depth (t :: ts) = checkBalanced (depth + 1) ts := by
  simp [checkBalanced, ht]

theorem checkBalanced_rparen (ht : t.kind = .rparen) (depth : Nat) (ts : List Token) :
    checkBalanced (depth + 1) (t :: ts) = checkBalanced depth ts := by
  simp [checkBalanced, ht]

theorem checkBalanced_append (h : Balanced ts) (depth : Nat) (us : List Token) :
    checkBalanced depth (ts ++ us) = checkBalanced depth us := by
  induction h generalizing depth us with
  | nil => rfl
  | plain ht _ ih => rw [List.cons_append, checkBalanced_plain ht, ih]
  | paren hl _ hr _ ihts ihus =>
    rw [List.cons_append, checkBalanced_lparen hl, List.append_assoc, ihts, List.cons_append,
      checkBalanced_rparen hr, ihus]

/-- A balanced row with some closing parentheses in front of whose partners it starts. -/
def Closes : Nat → List Token → Prop
  | 0, ts => Balanced ts
  | depth + 1, ts =>
    ∃ us r vs, ts = us ++ r :: vs ∧ Balanced us ∧ r.kind = .rparen ∧ Closes depth vs

theorem Closes.append (hts : Balanced ts) {depth : Nat} (hus : Closes depth us) :
    Closes depth (ts ++ us) := by
  cases depth with
  | zero => exact hts.append hus
  | succ depth =>
    obtain ⟨vs, r, ws, rfl, hvs, hr, hws⟩ := hus
    exact ⟨ts ++ vs, r, ws, (List.append_assoc ..).symm, hts.append hvs, hr, hws⟩

theorem closes_of_checkBalanced {depth : Nat} (h : checkBalanced depth ts = .ok ()) :
    Closes depth ts := by
  induction ts generalizing depth with
  | nil =>
    cases depth with
    | zero => exact .nil
    | succ depth => simp [checkBalanced] at h
  | cons t ts ih =>
    by_cases hl : t.kind = .lparen
    · rw [checkBalanced_lparen hl] at h
      obtain ⟨us, r, vs, rfl, hus, hr, hvs⟩ := ih h
      have hgroup : Balanced (t :: (us ++ [r])) := .paren hl hus hr .nil
      simpa using Closes.append hgroup hvs
    · by_cases hr : t.kind = .rparen
      · cases depth with
        | zero => simp [checkBalanced, hr] at h
        | succ depth =>
          rw [checkBalanced_rparen hr] at h
          exact ⟨[], t, ts, rfl, .nil, hr, ih h⟩
      · rw [checkBalanced_plain ⟨hl, hr⟩] at h
        exact Closes.append (.plain ⟨hl, hr⟩ .nil) (ih h)

theorem checkBalanced_iff : checkBalanced 0 ts = .ok () ↔ Balanced ts := by
  refine ⟨closes_of_checkBalanced, fun h => ?_⟩
  simpa [checkBalanced] using checkBalanced_append h 0 []

/-! ## Cuts -/

theorem depthAfter_plain (ht : t.IsPlain) (depth : Int) : t.depthAfter depth = depth := by
  rcases t with ⟨kind, _, _, _⟩
  cases kind <;> simp_all [Token.IsPlain, Token.depthAfter]

theorem depthAfter_lparen (ht : t.kind = .lparen) (depth : Int) :
    t.depthAfter depth = depth + 1 := by rw [Token.depthAfter, ht]

theorem depthAfter_rparen (ht : t.kind = .rparen) (depth : Int) :
    t.depthAfter (depth + 1) = depth := by
  simp [Token.depthAfter, ht]

theorem cuts_plain (ht : t.IsPlain) (hkind : t.kind ≠ kind) (ts : List Token) :
    cuts kind 0 (t :: ts) = cuts kind 0 ts := by
  rw [cuts, if_neg (by simp [hkind]), depthAfter_plain ht]

/-- Inside parentheses nothing is cut. -/
theorem cuts_inside (h : Balanced ts) {depth : Int} (hdepth : 0 < depth) (us : List Token) :
    cuts kind depth (ts ++ us) = cuts kind depth us := by
  induction h generalizing depth us with
  | nil => rfl
  | plain ht _ ih =>
    rw [List.cons_append, cuts, if_neg (by omega), depthAfter_plain ht, ih hdepth]
  | paren hl _ hr _ ihts ihus =>
    rw [List.cons_append, cuts, if_neg (by omega), depthAfter_lparen hl, List.append_assoc,
      ihts (by omega), List.cons_append, cuts, if_neg (by omega), depthAfter_rparen hr,
      ihus hdepth]

theorem cuts_paren (hkind : kind ≠ .lparen) {l r : Token} (hl : l.kind = .lparen)
    (hts : Balanced ts) (hr : r.kind = .rparen) (us : List Token) :
    cuts kind 0 (l :: (ts ++ r :: us)) = cuts kind 0 us := by
  rw [cuts, if_neg (by simp [hl, hkind.symm]), depthAfter_lparen hl, cuts_inside hts (by omega),
    cuts, if_neg (by omega), depthAfter_rparen hr]

theorem cuts_append (hkind : kind ≠ .lparen) (h : Balanced ts) (us : List Token) :
    cuts kind 0 (ts ++ us) = cuts kind 0 ts ++ cuts kind 0 us := by
  induction h with
  | nil => rfl
  | plain ht _ ih =>
    rw [List.cons_append, cuts, cuts, depthAfter_plain ht, ih]
    split <;> rfl
  | paren hl hts hr _ _ ih =>
    rw [List.cons_append, List.append_assoc, List.cons_append, cuts_paren hkind hl hts hr,
      cuts_paren hkind hl hts hr, ih]

theorem length_splitTokens (kind : TokenKind) (depth : Int) (ts : List Token) :
    (splitTokens kind depth ts).length = (cuts kind depth ts).length + 1 := by
  induction ts generalizing depth with
  | nil => rfl
  | cons t ts ih =>
    rw [splitTokens, cuts]
    split <;> simp [ih]

theorem splitTokens_ne_nil (kind : TokenKind) (depth : Int) (ts : List Token) :
    splitTokens kind depth ts ≠ [] := by
  rw [← List.length_pos_iff, length_splitTokens]
  omega

theorem one_lt_length_splitTokens : 1 < (splitTokens kind 0 ts).length ↔ cuts kind 0 ts ≠ [] := by
  rw [length_splitTokens, ← List.length_pos_iff]
  omega

theorem splitTokens_inside (h : Balanced ts) {depth : Int} (hdepth : 0 < depth)
    (us : List Token) :
    splitTokens kind depth (ts ++ us) = (splitTokens kind depth us).modifyHead (ts ++ ·) := by
  induction h generalizing depth us with
  | nil => exact (congrFun List.modifyHead_id _).symm
  | plain ht _ ih =>
    rw [List.cons_append, splitTokens, if_neg (by omega), depthAfter_plain ht, ih hdepth,
      List.modifyHead_modifyHead]
    rfl
  | paren hl _ hr _ ihts ihus =>
    rw [List.cons_append, splitTokens, if_neg (by omega), depthAfter_lparen hl, List.append_assoc,
      ihts (by omega), List.cons_append, splitTokens, if_neg (by omega), depthAfter_rparen hr,
      ihus hdepth]
    cases splitTokens kind depth us <;> simp

/-- A balanced row without cuts goes into the first part. -/
theorem splitTokens_append (hkind : kind ≠ .lparen) (h : Balanced ts) (hcuts : cuts kind 0 ts = [])
    (us : List Token) :
    splitTokens kind 0 (ts ++ us) = (splitTokens kind 0 us).modifyHead (ts ++ ·) := by
  induction h with
  | nil => exact (congrFun List.modifyHead_id _).symm
  | plain ht _ ih =>
    rw [cuts, depthAfter_plain ht] at hcuts
    split at hcuts
    case isTrue => cases hcuts
    case isFalse hne =>
      rw [List.cons_append, splitTokens, if_neg hne, depthAfter_plain ht, ih hcuts,
        List.modifyHead_modifyHead]
      rfl
  | paren hl hts hr _ _ ih =>
    rw [cuts_paren hkind hl hts hr] at hcuts
    rw [List.cons_append, splitTokens, if_neg (by simp [hl, hkind.symm]), depthAfter_lparen hl,
      List.append_assoc, splitTokens_inside hts (by omega), List.cons_append, splitTokens,
      if_neg (by omega), depthAfter_rparen hr, ih hcuts]
    cases splitTokens kind 0 us <;> simp

theorem splitTokens_uncut (hkind : kind ≠ .lparen) (h : Balanced ts) (hcuts : cuts kind 0 ts = []) :
    splitTokens kind 0 ts = [ts] := by
  simpa [splitTokens] using splitTokens_append hkind h hcuts []

theorem splitTokens_cut (hkind : kind ≠ .lparen) (h : Balanced ts) (hcuts : cuts kind 0 ts = [])
    (ht : t.kind = kind) (us : List Token) :
    splitTokens kind 0 (ts ++ t :: us) = ts :: splitTokens kind 0 us := by
  rw [splitTokens_append hkind h hcuts, splitTokens, if_pos ⟨ht, rfl⟩, List.modifyHead_cons,
    List.append_nil]

/-- The first cut leaves balanced rows on both sides. -/
theorem exists_first_cut (hkind : kind ≠ .lparen) (h : Balanced ts) (hcuts : cuts kind 0 ts ≠ []) :
    ∃ first t rest, ts = first ++ t :: rest ∧ t.kind = kind ∧ Balanced first ∧
      cuts kind 0 first = [] ∧ Balanced rest := by
  induction h with
  | nil => exact absurd rfl hcuts
  | @plain t ts ht hts ih =>
    by_cases hk : t.kind = kind
    · exact ⟨[], t, ts, rfl, hk, .nil, rfl, hts⟩
    · rw [cuts_plain ht hk] at hcuts
      obtain ⟨first, c, rest, rfl, hc, hbalanced, huncut, hrest⟩ := ih hcuts
      exact ⟨t :: first, c, rest, rfl, hc, .plain ht hbalanced, by rw [cuts_plain ht hk, huncut],
        hrest⟩
  | @paren l r ts us hl hts hr _ _ ih =>
    rw [cuts_paren hkind hl hts hr] at hcuts
    obtain ⟨first, c, rest, rfl, hc, hbalanced, huncut, hrest⟩ := ih hcuts
    exact ⟨l :: (ts ++ r :: first), c, rest, by simp, hc, .paren hl hts hr hbalanced,
      by rw [cuts_paren hkind hl hts hr, huncut], hrest⟩

/-! ## Groups -/

theorem closing?_append (h : Balanced ts) {depth : Nat} (hdepth : 0 < depth) (us : List Token) :
    closing? depth (ts ++ us) = closing? depth us := by
  induction h generalizing depth us with
  | nil => rfl
  | @plain t ts ht _ ih =>
    rw [List.cons_append, closing?, ih hdepth]
    rcases t with ⟨kind, _, _, _⟩
    cases kind <;> simp_all [Token.IsPlain]
  | paren hl _ hr _ ihts ihus =>
    rw [List.cons_append, closing?, hl, List.append_assoc]
    dsimp only
    rw [ihts (by omega), List.cons_append, closing?, hr]
    dsimp only
    rw [if_neg (by omega), Nat.add_sub_cancel, ihus hdepth]

theorem isGroup_paren {l r : Token} (hl : l.kind = .lparen) (h : Balanced ts)
    (hr : r.kind = .rparen) : isGroup (l :: (ts ++ [r])) = true := by
  simp [isGroup, hl, closing?_append h Nat.one_pos, closing?, hr]

theorem not_isGroup (ht : t.kind ≠ .lparen) (ts : List Token) : isGroup (t :: ts) = false := by
  simp [isGroup, ht]

theorem exists_group (h : Balanced ts) (hgroup : isGroup ts = true) :
    ∃ l inner r, ts = l :: (inner ++ [r]) ∧ l.kind = .lparen ∧ Balanced inner ∧
      r.kind = .rparen := by
  cases h with
  | nil => simp [isGroup] at hgroup
  | plain ht => simp [isGroup, ht.1] at hgroup
  | @paren l r inner us hl hinner hr _ =>
    have hus : us = [] := by
      simpa [isGroup, hl, closing?_append hinner Nat.one_pos, closing?, hr] using hgroup
    exact ⟨l, inner, r, by rw [hus], hl, hinner, hr⟩

end MarkdownVault.Filter
