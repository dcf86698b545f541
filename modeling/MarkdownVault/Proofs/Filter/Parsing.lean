import MarkdownVault.Proofs.Filter.Grammar
import MarkdownVault.Proofs.Result

/-!
# The parser and the grammar

The parser cuts a row of tokens again and again, wherever its count of parentheses is zero. It
accepts what the grammar derives, and its expressions are those of the derivations.
-/

namespace MarkdownVault.Filter

variable {n : Nonterminal} {c : Connective} {t : Token} {ts : List Token}

/-! ## The parser level by level -/

/-- No connective that binds weaker cuts the row. -/
def Uncut (n : Nonterminal) (ts : List Token) : Prop :=
  ∀ c, n.Below c → cuts c.kind 0 ts = []

theorem Derivation.uncut_yield (d : Derivation n) : Uncut n d.yield := by
  intro c h
  exact d.cuts_yield h

theorem ofTokens_cons (t : Token) (rest : List Token) :
    ofTokens (t :: rest) =
      if cuts .and 0 (t :: rest) ≠ [] then
        Expression.all <$> (splitTokens .and 0 (t :: rest)).mapM ofTokens
      else if cuts .or 0 (t :: rest) ≠ [] then
        Expression.any <$> (splitTokens .or 0 (t :: rest)).mapM ofTokens
      else if t.kind = .not then Expression.negate <$> ofTokens rest
      else if isGroup (t :: rest) then ofTokens rest.dropLast
      else simpleExpression (t :: rest) := by
  rw [ofTokens]
  simp only [← one_lt_length_splitTokens, List.mapM_subtype, List.unattach_attach, map_eq_pure_bind]
  rfl

theorem ofTokens_row (hn : Uncut (.row c) ts) (hc : cuts c.kind 0 ts ≠ []) :
    ofTokens ts = c.expression <$> (splitTokens c.kind 0 ts).mapM ofTokens := by
  cases ts with
  | nil => exact absurd rfl hc
  | cons t rest =>
    cases c with
    | and =>
      rw [ofTokens_cons]
      exact if_pos hc
    | or =>
      have hand : cuts .and 0 (t :: rest) = [] := hn .and rfl
      rw [ofTokens_cons, if_neg (by simp [hand])]
      exact if_pos hc

theorem ofTokens_unary {rest : List Token} (hn : Uncut .unary (t :: rest)) :
    ofTokens (t :: rest) =
      if t.kind = .not then Expression.negate <$> ofTokens rest
      else if isGroup (t :: rest) then ofTokens rest.dropLast
      else simpleExpression (t :: rest) := by
  have hand : cuts .and 0 (t :: rest) = [] := hn .and trivial
  have hor : cuts .or 0 (t :: rest) = [] := hn .or trivial
  rw [ofTokens_cons, if_neg (by simp [hand]), if_neg (by simp [hor])]

theorem simpleExpression_cons (t : Token) (rest : List Token) :
    simpleExpression (t :: rest) =
      if t.kind = .word ∧ isGroup rest then
        if (rest.drop 1).dropLast = [] then .ok (.call t.text [])
        else Expression.call t.text <$> (splitTokens .comma 0 (rest.drop 1).dropLast).mapM operand
      else simpleExpression.unnamed (t :: rest) := by
  rcases t with ⟨kind, text, start, stop⟩
  by_cases hk : kind = .word
  · subst hk
    simp [simpleExpression]
  · simp [simpleExpression, hk]

theorem operand_singleton (h : t.IsValue) : operand [t] = .ok t.operand := by
  rcases h with h | h <;> simp [operand, Token.operand, h]

theorem isValue_of_operand {x : Operand} (h : operand ts = .ok x) :
    ∃ t, ts = [t] ∧ t.IsValue ∧ t.operand = x := by
  rcases ts with _ | ⟨t, _ | ⟨_, _⟩⟩
  · cases h
  · refine ⟨t, rfl, ?_⟩
    rw [operand] at h
    split at h <;> simp_all [Token.IsValue, Token.operand]
  · cases h

/-! ## Derivations are parsed -/

theorem mapM_operand_values (vs : Values) :
    (splitTokens .comma 0 vs.yield).mapM operand = .ok vs.operands := by
  induction vs with
  | last v =>
    have hv : v.1.kind ≠ .comma := v.2.kind_ne (by decide)
    rw [Values.yield, splitTokens_uncut (by decide) (.plain v.2.isPlain .nil)
      (by simp [cuts, hv])]
    exact mapM_cons_eq_ok_iff.2 ⟨_, [], operand_singleton v.2, rfl, rfl⟩
  | more v comma rest ih =>
    have hv : v.1.kind ≠ .comma := v.2.kind_ne (by decide)
    rw [Values.yield, ← List.singleton_append, splitTokens_cut (by decide)
      (.plain v.2.isPlain .nil) (by simp [cuts, hv]) comma.2]
    exact mapM_cons_eq_ok_iff.2 ⟨_, _, operand_singleton v.2, ih, rfl⟩

theorem simpleExpression_call (name : TokenOf .word) (l : TokenOf .lparen) (args : Arguments)
    (r : TokenOf .rparen) :
    simpleExpression (Derivation.call name l args r).yield =
      .ok (.call name.1.text args.operands) := by
  have hgroup := isGroup_paren l.2 args.balanced_yield r.2
  rw [Derivation.yield, simpleExpression_cons, if_pos ⟨name.2, hgroup⟩, List.drop_one,
    List.tail_cons, List.dropLast_concat]
  cases args with
  | none => rfl
  | some vs =>
    rw [Arguments.yield, Option.elim_some, if_neg vs.yield_ne_nil]
    exact map_eq_ok_iff.2 ⟨_, mapM_operand_values vs, rfl⟩

theorem splitComparison?_value {t : Token} (ht : t.IsValue) (ts : List Token) :
    splitComparison? 0 (t :: ts) =
      (splitComparison? 0 ts).map fun parts => (t :: parts.1, parts.2) := by
  have hop : t.kind ≠ .op := ht.kind_ne (by decide)
  rw [splitComparison?, if_neg (by simp [hop]), depthAfter_plain ht.isPlain]

theorem simpleExpression_compare (left : ValueToken) (op : TokenOf .op) (right : ValueToken) :
    simpleExpression [left.1, op.1, right.1] =
      .ok (.compare left.1.operand (.ofSymbol op.1.text) right.1.operand) := by
  rw [simpleExpression_cons, if_neg (by simp [not_isGroup, op.2]), simpleExpression.unnamed,
    splitComparison?_value left.2, splitComparison?, if_pos ⟨op.2, rfl⟩]
  simp only [Option.map_some, operand_singleton left.2, operand_singleton right.2]
  rfl

theorem simpleExpression_value (v : ValueToken) :
    simpleExpression [v.1] = .ok (.truthy v.1.operand) := by
  rw [simpleExpression_cons, if_neg (by simp [isGroup]), simpleExpression.unnamed,
    splitComparison?_value v.2]
  simp only [splitComparison?, Option.map_none, operand_singleton v.2]
  rfl

/-- The parser answers the yield of a derivation with its tree, and the operands of a row with
their trees. -/
theorem ofTokens_yield (d : Derivation n) :
    ofTokens d.yield = .ok d.tree ∧
      ∀ c, n = .row c → (splitTokens c.kind 0 d.yield).mapM ofTokens = .ok d.trees := by
  induction d with
  | @single c d ih =>
    refine ⟨ih.1, ?_⟩
    intro c' hc
    cases hc
    rw [Derivation.yield, Derivation.splitTokens_operand]
    exact mapM_cons_eq_ok_iff.2 ⟨_, [], ih.1, rfl, rfl⟩
  | @join c d t rest ih ihrest =>
    have hparts : (splitTokens c.kind 0 (Derivation.join d t rest).yield).mapM ofTokens =
        .ok (d.tree :: rest.trees) := by
      rw [Derivation.splitTokens_join]
      exact mapM_cons_eq_ok_iff.2 ⟨_, _, ih.1, ihrest.2 c rfl, rfl⟩
    have hcuts : cuts c.kind 0 (Derivation.join d t rest).yield ≠ [] := by
      have hrest := List.length_pos_iff.2 (splitTokens_ne_nil c.kind 0 rest.yield)
      rw [← one_lt_length_splitTokens, Derivation.splitTokens_join, List.length_cons]
      omega
    constructor
    · rw [ofTokens_row (Derivation.join d t rest).uncut_yield hcuts, hparts]
      rfl
    · intro c' hc
      cases hc
      exact hparts
  | negate t d ih =>
    have h := ofTokens_unary (Derivation.negate t d).uncut_yield
    refine ⟨?_, fun c hc => by cases hc⟩
    rw [Derivation.yield, h, if_pos t.2, ih.1]
    rfl
  | group l d r ih =>
    have h := ofTokens_unary (Derivation.group l d r).uncut_yield
    have hgroup := isGroup_paren l.2 d.balanced_yield r.2
    refine ⟨?_, fun c hc => by cases hc⟩
    rw [Derivation.yield, h, if_neg (by simp [l.2]), if_pos hgroup, List.dropLast_concat, ih.1,
      Derivation.tree]
  | call name l args r =>
    have h := ofTokens_unary (Derivation.call name l args r).uncut_yield
    refine ⟨?_, fun c hc => by cases hc⟩
    rw [Derivation.yield, h, if_neg (by simp [name.2]), not_isGroup (by simp [name.2])]
    exact simpleExpression_call name l args r
  | compare left op right =>
    have h := ofTokens_unary (Derivation.compare left op right).uncut_yield
    refine ⟨?_, fun c hc => by cases hc⟩
    rw [Derivation.yield, h, if_neg (left.2.kind_ne (by decide)), not_isGroup left.2.isPlain.1]
    exact simpleExpression_compare left op right
  | value v =>
    have h := ofTokens_unary (Derivation.value v).uncut_yield
    refine ⟨?_, fun c hc => by cases hc⟩
    rw [Derivation.yield, h, if_neg (v.2.kind_ne (by decide)), not_isGroup v.2.isPlain.1]
    exact simpleExpression_value v

/-! ## What is parsed has a derivation -/

theorem splitComparison?_eq_some {depth : Int} {left right : List Token} {op : Token}
    (h : splitComparison? depth ts = some (left, op, right)) :
    ts = left ++ op :: right ∧ op.kind = .op := by
  induction ts generalizing depth left with
  | nil => cases h
  | cons t ts ih =>
    rw [splitComparison?] at h
    split at h
    case isTrue hop =>
      cases h
      exact ⟨rfl, hop.1⟩
    case isFalse =>
      obtain ⟨⟨left', op', right'⟩, hrest, hparts⟩ := Option.map_eq_some_iff.1 h
      cases hparts
      obtain ⟨rfl, hop⟩ := ih hrest
      exact ⟨rfl, hop⟩

/-- A first part without tokens ends where the row ends, or at a cut. -/
theorem splitTokens_eq_nil_cons {kind : TokenKind} {parts : List (List Token)}
    (h : splitTokens kind 0 ts = [] :: parts) :
    ts = [] ∧ parts = [] ∨
      ∃ t rest, ts = t :: rest ∧ t.kind = kind ∧ parts = splitTokens kind 0 rest := by
  cases ts with
  | nil => exact .inl ⟨rfl, (List.cons.inj h).2.symm⟩
  | cons t rest =>
    rw [splitTokens] at h
    split at h
    case isTrue ht => exact .inr ⟨t, rest, rfl, ht.1, (List.cons.inj h).2.symm⟩
    case isFalse => cases hs : splitTokens kind (t.depthAfter 0) rest <;> simp [hs] at h

theorem exists_values {xs : List Operand} (h : (splitTokens .comma 0 ts).mapM operand = .ok xs) :
    ∃ vs : Values, vs.yield = ts ∧ vs.operands = xs := by
  induction hlength : ts.length using Nat.strongRecOn generalizing ts xs with
  | _ length ih =>
    have hnil (parts : List (List Token)) : ¬([] :: parts).mapM operand = .ok xs := by
      intro h
      obtain ⟨_, _, hfirst, -⟩ := mapM_cons_eq_ok_iff.1 h
      cases hfirst
    cases ts with
    | nil => exact absurd h (hnil [])
    | cons t ts =>
      by_cases ht : t.kind = .comma
      · rw [splitTokens, if_pos ⟨ht, rfl⟩] at h
        exact absurd h (hnil _)
      · rw [splitTokens, if_neg (by simp [ht])] at h
        obtain ⟨first, parts, hsplit⟩ := List.exists_cons_of_ne_nil
          (splitTokens_ne_nil .comma (t.depthAfter 0) ts)
        rw [hsplit, List.modifyHead_cons] at h
        obtain ⟨x, rest, hx, hrest, rfl⟩ := mapM_cons_eq_ok_iff.1 h
        -- The first part is one value, so the row ends behind it or goes on with a comma.
        obtain ⟨v, hfirst, hv, rfl⟩ := isValue_of_operand hx
        obtain ⟨rfl, rfl⟩ := List.cons.inj hfirst
        rw [depthAfter_plain hv.isPlain] at hsplit
        rcases splitTokens_eq_nil_cons hsplit with ⟨rfl, rfl⟩ | ⟨comma, us, rfl, hcomma, rfl⟩
        · cases hrest
          exact ⟨.last ⟨t, hv⟩, rfl, rfl⟩
        · have hshorter : us.length < length := by
            simp only [List.length_cons] at hlength
            omega
          obtain ⟨vs, rfl, rfl⟩ := ih us.length hshorter hrest rfl
          exact ⟨.more ⟨t, hv⟩ ⟨comma, hcomma⟩ vs, rfl, rfl⟩

theorem exists_unnamed {e : Expression} (h : simpleExpression.unnamed ts = .ok e) :
    ∃ d : Derivation .unary, d.yield = ts ∧ d.tree = e := by
  rw [simpleExpression.unnamed] at h
  split at h
  case h_1 left op right hsplit =>
    obtain ⟨rfl, hop⟩ := splitComparison?_eq_some hsplit
    obtain ⟨_, hl, h⟩ := bind_eq_ok_iff.1 h
    obtain ⟨_, hr, h⟩ := bind_eq_ok_iff.1 h
    obtain ⟨l, rfl, hlv, rfl⟩ := isValue_of_operand hl
    obtain ⟨r, rfl, hrv, rfl⟩ := isValue_of_operand hr
    exact ⟨.compare ⟨l, hlv⟩ ⟨op, hop⟩ ⟨r, hrv⟩, rfl, Except.ok.inj h⟩
  case h_2 =>
    obtain ⟨_, hv, h⟩ := bind_eq_ok_iff.1 h
    obtain ⟨v, rfl, hvalue, rfl⟩ := isValue_of_operand hv
    exact ⟨.value ⟨v, hvalue⟩, rfl, Except.ok.inj h⟩

theorem exists_simple {rest : List Token} (hbalanced : Balanced (t :: rest)) {e : Expression}
    (h : simpleExpression (t :: rest) = .ok e) :
    ∃ d : Derivation .unary, d.yield = t :: rest ∧ d.tree = e := by
  rw [simpleExpression_cons] at h
  split at h
  case isFalse => exact exists_unnamed h
  case isTrue hcall =>
    have hrest : Balanced rest := hbalanced.tail (Token.isPlain_of_kind hcall.1 (by decide))
    obtain ⟨l, inner, r, rfl, hl, -, hr⟩ := exists_group hrest hcall.2
    rw [List.drop_one, List.tail_cons, List.dropLast_concat] at h
    split at h
    case isTrue hinner =>
      subst hinner
      exact ⟨.call ⟨t, hcall.1⟩ ⟨l, hl⟩ none ⟨r, hr⟩, rfl, Except.ok.inj h⟩
    case isFalse =>
      obtain ⟨xs, hxs, rfl⟩ := map_eq_ok_iff.1 h
      obtain ⟨vs, rfl, rfl⟩ := exists_values hxs
      exact ⟨.call ⟨t, hcall.1⟩ ⟨l, hl⟩ (some vs) ⟨r, hr⟩, rfl, rfl⟩

theorem uncut_operand (hn : Uncut (.row c) ts) (hcuts : cuts c.kind 0 ts = []) :
    Uncut c.operand ts := by
  intro c' h
  cases c with
  | and =>
    obtain rfl : c' = .and := h
    exact hcuts
  | or => cases c' with
    | and => exact hn .and rfl
    | or => exact hcuts

/-- The part of a row before the first cut, and the rest of the row, are no more cut by other
connectives than the row. -/
theorem uncut_parts {first rest : List Token} (hn : Uncut (.row c) (first ++ t :: rest))
    (ht : t.kind = c.kind) (hfirst : Balanced first) (huncut : cuts c.kind 0 first = []) :
    Uncut c.operand first ∧ Uncut (.row c) rest := by
  have hcut (c' : Connective) (h : Nonterminal.Below (.row c) c') :
      cuts c'.kind 0 first = [] ∧ cuts c'.kind 0 rest = [] := by
    have hne : t.kind ≠ c'.kind := by
      cases c with
      | and => cases h
      | or =>
        obtain rfl : c' = .and := h
        simp [ht, Connective.kind]
    have happend := cuts_append c'.kind_ne_lparen hfirst (t :: rest)
    rwa [hn c' h, cuts_plain (Connective.isPlain_of_kind ht) hne, eq_comm,
      List.append_eq_nil_iff] at happend
  exact ⟨uncut_operand (fun c' h => (hcut c' h).1) huncut, fun c' h => (hcut c' h).2⟩

/-- If every part has a derivation, so has the row. -/
theorem exists_row {es : List Expression} (hbalanced : Balanced ts) (hn : Uncut (.row c) ts)
    (hparts : ∀ part ∈ splitTokens c.kind 0 ts, ∀ e, Balanced part → Uncut c.operand part →
      ofTokens part = .ok e → ∃ d : Derivation c.operand, d.yield = part ∧ d.tree = e)
    (h : (splitTokens c.kind 0 ts).mapM ofTokens = .ok es) :
    ∃ d : Derivation (.row c), d.yield = ts ∧ d.trees = es := by
  induction hlength : ts.length using Nat.strongRecOn generalizing ts es with
  | _ length ih =>
    by_cases hcuts : cuts c.kind 0 ts = []
    · rw [splitTokens_uncut c.kind_ne_lparen hbalanced hcuts] at h hparts
      obtain ⟨e, _, he, hnil, rfl⟩ := mapM_cons_eq_ok_iff.1 h
      cases hnil
      obtain ⟨d, rfl, rfl⟩ := hparts ts (List.mem_singleton_self ts) e hbalanced
        (uncut_operand hn hcuts) he
      exact ⟨.single d, rfl, rfl⟩
    · obtain ⟨first, t, rest, rfl, ht, hfirst, huncut, hrest⟩ :=
        exists_first_cut c.kind_ne_lparen hbalanced hcuts
      have hshorter : rest.length < length := by
        simp only [List.length_append, List.length_cons] at hlength
        omega
      rw [splitTokens_cut c.kind_ne_lparen hfirst huncut ht] at h hparts
      obtain ⟨e, _, he, hes, rfl⟩ := mapM_cons_eq_ok_iff.1 h
      obtain ⟨hfirstUncut, hrestUncut⟩ := uncut_parts hn ht hfirst huncut
      obtain ⟨d, rfl, rfl⟩ := hparts first List.mem_cons_self e hfirst hfirstUncut he
      obtain ⟨drest, rfl, rfl⟩ := ih _ hshorter hrest hrestUncut
        (fun part hpart => hparts part (List.mem_cons_of_mem _ hpart)) hes rfl
      exact ⟨.join d ⟨t, ht⟩ drest, rfl, rfl⟩

/-- A row that no connective cuts is derived as one operand. -/
theorem exists_operand (d : Derivation (.row c)) (h : cuts c.kind 0 d.yield = []) :
    ∃ d' : Derivation c.operand, d'.yield = d.yield ∧ d'.tree = d.tree := by
  cases d with
  | single d => exact ⟨d, rfl, rfl⟩
  | join d t rest =>
    have hsplit := splitTokens_uncut c.kind_ne_lparen (Derivation.join d t rest).balanced_yield h
    rw [Derivation.splitTokens_join, List.cons.injEq] at hsplit
    exact absurd hsplit.2 (splitTokens_ne_nil _ _ _)

theorem exists_uncut (d : Derivation (.row .and)) (h : Uncut n d.yield) :
    ∃ d' : Derivation n, d'.yield = d.yield ∧ d'.tree = d.tree := by
  rcases n with (_ | _) | _
  · exact ⟨d, rfl, rfl⟩
  · exact exists_operand d (h .and rfl)
  · obtain ⟨d', hyield, htree⟩ := exists_operand d (h .and trivial)
    obtain ⟨d'', hyield', htree'⟩ := exists_operand (c := .or) d' (hyield ▸ h .or trivial)
    exact ⟨d'', hyield'.trans hyield, htree'.trans htree⟩

/-- What the parser makes of a cut row, given derivations of all shorter rows. -/
theorem exists_cut {e : Expression} (hbalanced : Balanced ts) (hn : Uncut (.row c) ts)
    (hcuts : cuts c.kind 0 ts ≠ [])
    (ih : ∀ part e, part.length < ts.length → Balanced part → ofTokens part = .ok e →
      ∃ d : Derivation (.row .and), d.yield = part ∧ d.tree = e)
    (h : ofTokens ts = .ok e) : ∃ d : Derivation (.row c), d.yield = ts ∧ d.tree = e := by
  rw [ofTokens_row hn hcuts] at h
  obtain ⟨es, hes, rfl⟩ := map_eq_ok_iff.1 h
  have hparts : ∀ part ∈ splitTokens c.kind 0 ts, ∀ e, Balanced part → Uncut c.operand part →
      ofTokens part = .ok e → ∃ d : Derivation c.operand, d.yield = part ∧ d.tree = e := by
    intro part hpart e hbalanced huncut he
    have hlength := length_add_length_splitTokens_le 0 hpart
    have hmany := one_lt_length_splitTokens.2 hcuts
    obtain ⟨d, rfl, rfl⟩ := ih part e (by omega) hbalanced he
    exact exists_uncut d huncut
  obtain ⟨d, rfl, rfl⟩ := exists_row hbalanced hn hparts hes
  cases d with
  | single d => exact absurd (d.cuts_yield c.below_operand) hcuts
  | join d t rest => exact ⟨.join d t rest, rfl, rfl⟩

theorem exists_unary {rest : List Token} {e : Expression} (hbalanced : Balanced (t :: rest))
    (hn : Uncut .unary (t :: rest))
    (ih : ∀ part e, part.length < (t :: rest).length → Balanced part → ofTokens part = .ok e →
      ∃ d : Derivation (.row .and), d.yield = part ∧ d.tree = e)
    (h : ofTokens (t :: rest) = .ok e) :
    ∃ d : Derivation .unary, d.yield = t :: rest ∧ d.tree = e := by
  rw [ofTokens_unary hn] at h
  split at h
  case isTrue hnot =>
    obtain ⟨e, he, rfl⟩ := map_eq_ok_iff.1 h
    have hrest : Balanced rest := hbalanced.tail (Token.isPlain_of_kind hnot (by decide))
    obtain ⟨d, rfl, rfl⟩ := ih rest e (by simp) hrest he
    have huncut : Uncut .unary d.yield := fun c h =>
      (c.cuts_of_kind hnot (by decide) _).symm.trans (hn c h)
    obtain ⟨d', hyield, htree⟩ := exists_uncut d huncut
    exact ⟨.negate ⟨t, hnot⟩ d', by rw [Derivation.yield, hyield], by rw [Derivation.tree, htree]⟩
  case isFalse =>
    split at h
    case isTrue hgroup =>
      obtain ⟨l, inner, r, hparts, hl, hinner, hr⟩ := exists_group hbalanced hgroup
      obtain ⟨rfl, rfl⟩ := List.cons.inj hparts
      rw [List.dropLast_concat] at h
      have hshorter : inner.length < (t :: (inner ++ [r])).length := by
        simp only [List.length_cons, List.length_append]
        omega
      obtain ⟨d, rfl, rfl⟩ := ih inner e hshorter hinner h
      exact ⟨.group ⟨t, hl⟩ d ⟨r, hr⟩, rfl, rfl⟩
    case isFalse => exact exists_simple hbalanced h

theorem exists_derivation {e : Expression} (hbalanced : Balanced ts) (h : ofTokens ts = .ok e) :
    ∃ d : Derivation (.row .and), d.yield = ts ∧ d.tree = e := by
  induction hlength : ts.length using Nat.strongRecOn generalizing ts e with
  | _ length ih =>
    subst hlength
    have hshorter part e (hlength : part.length < ts.length) (hpart : Balanced part)
        (he : ofTokens part = .ok e) := ih part.length hlength hpart he rfl
    have hrow : Uncut (.row .and) ts := fun _ h => h.elim
    by_cases hand : cuts (Connective.kind .and) 0 ts = []
    case neg => exact exists_cut hbalanced hrow hand hshorter h
    have hdisjunction : Uncut (.row .or) ts := uncut_operand hrow hand
    by_cases hor : cuts (Connective.kind .or) 0 ts = []
    case neg =>
      obtain ⟨d, hd⟩ := exists_cut hbalanced hdisjunction hor hshorter h
      exact ⟨.single (c := .and) d, hd⟩
    have hunary : Uncut .unary ts := uncut_operand hdisjunction hor
    obtain ⟨d, hd⟩ : ∃ d : Derivation .unary, d.yield = ts ∧ d.tree = e := by
      cases ts with
      | nil =>
        rw [ofTokens] at h
        cases h
      | cons t rest => exact exists_unary hbalanced hunary hshorter h
    exact ⟨.single (c := .and) (.single (c := .or) d), hd⟩

/-! ## Texts -/

theorem parse_eq_ok_iff {text : String} {e : Expression} :
    parse text = .ok e ↔ ∃ ts, tokenize text = .ok ts ∧
      ∃ d : Derivation (.row .and), d.yield = ts ∧ d.tree = e := by
  constructor
  · intro h
    obtain ⟨ts, hts, h⟩ := bind_eq_ok_iff.1 h
    obtain ⟨⟨⟩, hcheck, h⟩ := bind_eq_ok_iff.1 h
    exact ⟨ts, hts, exists_derivation (checkBalanced_iff.1 hcheck) h⟩
  · rintro ⟨ts, hts, d, rfl, rfl⟩
    refine bind_eq_ok_iff.2 ⟨_, hts, bind_eq_ok_iff.2 ⟨(), ?_, (ofTokens_yield d).1⟩⟩
    exact checkBalanced_iff.2 d.balanced_yield

/-- The parser answers a text with an expression exactly if the grammar derives the tokens of the
text, and then with the tree of the derivation. There is one derivation at most, where the tokens
stand in the text is of no matter, and a text without a derivation has a fault. -/
theorem parse_grammar :
    (∀ text e, parse text = .ok e ↔ ∃ ts, tokenize text = .ok ts ∧
      ∃ d : Derivation (.row .and), d.yield = ts ∧ d.tree = e) ∧
    (∀ ts (d d' : Derivation (.row .and)), d.yield = ts → d'.yield = ts → d = d') ∧
    (∀ text text' ts ts', tokenize text = .ok ts → tokenize text' = .ok ts' →
      ts.map Token.lexeme = ts'.map Token.lexeme → ∀ e, parse text = .ok e → parse text' = .ok e) ∧
    ∀ text, (∀ ts, tokenize text = .ok ts → ∀ d : Derivation (.row .and), d.yield ≠ ts) →
      ∃ fault : SyntaxFault, parse text = .error fault := by
  refine ⟨fun text e => parse_eq_ok_iff, ?unambiguous, ?positions, ?faults⟩
  case unambiguous =>
    intro ts d d' hd hd'
    exact Derivation.yield_injective (hd.trans hd'.symm)
  case positions =>
    intro text text' ts ts' hts hts' hlexemes e h
    obtain ⟨_, hyield, d, rfl, rfl⟩ := parse_eq_ok_iff.1 h
    obtain rfl := Except.ok.inj (hts.symm.trans hyield)
    obtain ⟨d', rfl, htree, -⟩ := d.exists_relabelled hlexemes.symm
    exact parse_eq_ok_iff.2 ⟨_, hts', d', rfl, htree⟩
  case faults =>
    intro text hnone
    cases h : parse text with
    | error fault => exact ⟨fault, rfl⟩
    | ok e =>
      obtain ⟨ts, hts, d, hd, -⟩ := parse_eq_ok_iff.1 h
      exact absurd hd (hnone ts hts d)

def spacedTokens : List Token :=
  [⟨.word, "a", 0, 1⟩, ⟨.and, "&&", 2, 4⟩, ⟨.word, "b", 5, 6⟩]

def tightTokens : List Token :=
  [⟨.word, "a", 0, 1⟩, ⟨.and, "&&", 1, 3⟩, ⟨.word, "b", 3, 4⟩]

/-- A conjunction with and without blanks, its only derivation, and an open parenthesis. -/
theorem parse_grammar_conjunction :
    parse "a && b" = .ok (.all [.truthy (.property "a"), .truthy (.property "b")]) ∧
      parse "a&&b" = .ok (.all [.truthy (.property "a"), .truthy (.property "b")]) ∧
      (∃ d : Derivation (.row .and), d.yield = spacedTokens ∧
        ∀ d' : Derivation (.row .and), d'.yield = spacedTokens → d' = d) ∧
      ∃ fault : SyntaxFault, parse "(a" = .error fault := by
  obtain ⟨hparse, hunique, hpositions, hfaults⟩ := parse_grammar
  have hspaced : tokenize "a && b" = .ok spacedTokens := eq_ok_of_toOption (by decide +kernel)
  have htight : tokenize "a&&b" = .ok tightTokens := eq_ok_of_toOption (by decide +kernel)
  let d : Derivation (.row .and) :=
    .join (.single (.value ⟨⟨.word, "a", 0, 1⟩, .inr rfl⟩)) ⟨⟨.and, "&&", 2, 4⟩, rfl⟩
      (.single (.single (.value ⟨⟨.word, "b", 5, 6⟩, .inr rfl⟩)))
  have htree : parse "a && b" = .ok (.all [.truthy (.property "a"), .truthy (.property "b")]) :=
    (hparse _ _).2 ⟨spacedTokens, hspaced, d, rfl, rfl⟩
  refine ⟨htree, ?_, ⟨d, rfl, ?_⟩, ?_⟩
  · exact hpositions "a && b" "a&&b" spacedTokens tightTokens hspaced htight rfl _ htree
  · intro d' hd'
    exact hunique spacedTokens d' d hd' rfl
  · apply hfaults "(a"
    intro ts hts d hd
    have hopen : tokenize "(a" = .ok [⟨.lparen, "(", 0, 1⟩, ⟨.word, "a", 1, 2⟩] :=
      eq_ok_of_toOption (by decide +kernel)
    obtain rfl := Except.ok.inj (hopen.symm.trans hts)
    have hbalanced := checkBalanced_iff.2 d.balanced_yield
    rw [hd] at hbalanced
    cases hbalanced

end MarkdownVault.Filter
