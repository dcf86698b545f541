import MarkdownVault.Proofs.Filter.Nesting

/-!
# The grammar of filters

```
conjunction ::= disjunction ('&&' disjunction)*
disjunction ::= unary ('||' unary)*
unary       ::= '!' unary | '(' conjunction ')' | word '(' [value (',' value)*] ')'
              | value comparison value | value
value       ::= literal | word
```

A derivation keeps the tokens at its leaves. No row of tokens is the yield of two derivations.
-/

namespace MarkdownVault.Filter

abbrev TokenOf (kind : TokenKind) := { t : Token // t.kind = kind }

def Token.IsValue (t : Token) : Prop := t.kind = .literal ∨ t.kind = .word

abbrev ValueToken := { t : Token // t.IsValue }

/-- The operand that a literal or a word stands for. -/
def Token.operand (t : Token) : Operand :=
  if t.kind = .literal then .constant (.text (unquote t.text)) t.text else wordOperand t.text

namespace Token

theorem isPlain_of_kind {t : Token} {kind : TokenKind} (h : t.kind = kind)
    (hkind : kind ≠ .lparen ∧ kind ≠ .rparen) : t.IsPlain := by
  rwa [IsPlain, h]

theorem IsValue.isPlain {t : Token} (h : t.IsValue) : t.IsPlain := by
  rcases h with h | h <;> exact isPlain_of_kind h (by decide)

theorem IsValue.kind_ne {t : Token} (h : t.IsValue) {kind : TokenKind}
    (hkind : kind ≠ .literal ∧ kind ≠ .word) : t.kind ≠ kind := by
  rcases h with h | h
  · exact h ▸ hkind.1.symm
  · exact h ▸ hkind.2.symm

/-- A token without its place in the text. -/
def lexeme (t : Token) : TokenKind × String := (t.kind, t.text)

variable {t t' : Token}

theorem kind_of_lexeme (h : t'.lexeme = t.lexeme) {kind : TokenKind} (ht : t.kind = kind) :
    t'.kind = kind :=
  (congrArg Prod.fst h).trans ht

theorem text_of_lexeme (h : t'.lexeme = t.lexeme) : t'.text = t.text := congrArg Prod.snd h

theorem IsValue.of_lexeme (ht : t.IsValue) (h : t'.lexeme = t.lexeme) : t'.IsValue :=
  ht.imp (kind_of_lexeme h) (kind_of_lexeme h)

theorem operand_of_lexeme (h : t'.lexeme = t.lexeme) : t'.operand = t.operand := by
  rw [operand, operand, kind_of_lexeme h rfl, text_of_lexeme h]

end Token

/-- Values with commas between them. -/
inductive Values where
  | last (v : ValueToken)
  | more (v : ValueToken) (comma : TokenOf .comma) (rest : Values)

namespace Values

def yield : Values → List Token
  | last v => [v.1]
  | more v comma rest => v.1 :: comma.1 :: rest.yield

def operands : Values → List Operand
  | last v => [v.1.operand]
  | more v _ rest => v.1.operand :: rest.operands

theorem yield_ne_nil (vs : Values) : vs.yield ≠ [] := by cases vs <;> simp [yield]

theorem balanced_yield (vs : Values) : Balanced vs.yield := by
  induction vs with
  | last v => exact .plain v.2.isPlain .nil
  | more v comma rest ih =>
    apply Balanced.plain v.2.isPlain
    exact .plain (Token.isPlain_of_kind comma.2 (by decide)) ih

theorem yield_injective {vs vs' : Values} (h : vs.yield = vs'.yield) : vs = vs' := by
  induction vs generalizing vs' with
  | last v => cases vs' <;> simp_all [yield, Subtype.ext_iff]
  | more v comma rest ih =>
    cases vs' with
    | last => simp [yield] at h
    | more v' comma' rest' =>
      simp only [yield, List.cons.injEq] at h
      rw [Subtype.ext h.1, Subtype.ext h.2.1, ih h.2.2]

theorem exists_relabelled (vs : Values) {ts : List Token}
    (h : ts.map Token.lexeme = vs.yield.map Token.lexeme) :
    ∃ vs' : Values, vs'.yield = ts ∧ vs'.operands = vs.operands := by
  induction vs generalizing ts with
  | last v =>
    obtain ⟨v', _, rfl, hv, h⟩ := List.map_eq_cons_iff.1 h
    obtain rfl := List.map_eq_nil_iff.1 h
    refine ⟨.last ⟨v', v.2.of_lexeme hv⟩, rfl, ?_⟩
    rw [operands, operands, Token.operand_of_lexeme hv]
  | more v comma rest ih =>
    obtain ⟨v', _, rfl, hv, h⟩ := List.map_eq_cons_iff.1 h
    obtain ⟨comma', _, rfl, hcomma, h⟩ := List.map_eq_cons_iff.1 h
    obtain ⟨rest', rfl, hrest⟩ := ih h
    have hcomma' := Token.kind_of_lexeme hcomma comma.2
    refine ⟨.more ⟨v', v.2.of_lexeme hv⟩ ⟨comma', hcomma'⟩ rest', rfl, ?_⟩
    rw [operands, operands, Token.operand_of_lexeme hv, hrest]

end Values

abbrev Arguments := Option Values

namespace Arguments

def yield (args : Arguments) : List Token := args.elim [] Values.yield

def operands (args : Arguments) : List Operand := args.elim [] Values.operands

theorem balanced_yield (args : Arguments) : Balanced args.yield := by
  cases args with
  | none => exact .nil
  | some vs => exact vs.balanced_yield

theorem yield_injective {args args' : Arguments} (h : args.yield = args'.yield) :
    args = args' := by
  rcases args with _ | vs <;> rcases args' with _ | vs'
  · rfl
  · exact absurd h.symm vs'.yield_ne_nil
  · exact absurd h vs.yield_ne_nil
  · exact congrArg some (Values.yield_injective h)

theorem exists_relabelled (args : Arguments) {ts : List Token}
    (h : ts.map Token.lexeme = args.yield.map Token.lexeme) :
    ∃ args' : Arguments, args'.yield = ts ∧ args'.operands = args.operands := by
  cases args with
  | none => exact ⟨none, (List.map_eq_nil_iff.1 h).symm, rfl⟩
  | some vs =>
    obtain ⟨vs', hyield, hoperands⟩ := vs.exists_relabelled h
    exact ⟨some vs', hyield, hoperands⟩

end Arguments

inductive Connective where
  | and
  | or

inductive Nonterminal where
  | row (c : Connective)
  | unary

namespace Connective

def kind : Connective → TokenKind
  | and => .and
  | or => .or

/-- What stands on both sides of a connective. -/
def operand : Connective → Nonterminal
  | and => .row or
  | or => .unary

def expression : Connective → List Expression → Expression
  | and => .all
  | or => .any

theorem kind_ne_lparen (c : Connective) : c.kind ≠ .lparen := by cases c <;> decide

theorem isPlain_of_kind {c : Connective} {t : Token} (h : t.kind = c.kind) : t.IsPlain :=
  Token.isPlain_of_kind h (by cases c <;> decide)

theorem cuts_of_kind {t : Token} {kind : TokenKind} (h : t.kind = kind)
    (hkind : kind ∉ [.lparen, .rparen, .and, .or]) (c : Connective) (ts : List Token) :
    cuts c.kind 0 (t :: ts) = cuts c.kind 0 ts := by
  refine cuts_plain (Token.isPlain_of_kind h ?_) ?_ ts
  · simp_all
  · cases c <;> simp_all [Connective.kind]

theorem cuts_of_isValue {t : Token} (h : t.IsValue) (c : Connective) (ts : List Token) :
    cuts c.kind 0 (t :: ts) = cuts c.kind 0 ts := by
  rcases h with h | h <;> exact cuts_of_kind h (by decide) c ts

end Connective

/-- The nonterminals that stand as one operand beside a connective. -/
def Nonterminal.Below : Nonterminal → Connective → Prop
  | row .and, _ => False
  | row .or, c => c = .and
  | unary, _ => True

theorem Connective.below_operand (c : Connective) : c.operand.Below c := by cases c <;> trivial

/-- Derivation trees. A row of a connective has one operand or more. -/
inductive Derivation : Nonterminal → Type
  | single {c : Connective} (d : Derivation c.operand) : Derivation (.row c)
  | join {c : Connective} (d : Derivation c.operand) (t : TokenOf c.kind)
      (rest : Derivation (.row c)) : Derivation (.row c)
  | negate (t : TokenOf .not) (d : Derivation .unary) : Derivation .unary
  | group (l : TokenOf .lparen) (d : Derivation (.row .and)) (r : TokenOf .rparen) :
      Derivation .unary
  | call (name : TokenOf .word) (l : TokenOf .lparen) (args : Arguments)
      (r : TokenOf .rparen) : Derivation .unary
  | compare (left : ValueToken) (op : TokenOf .op) (right : ValueToken) : Derivation .unary
  | value (v : ValueToken) : Derivation .unary

namespace Derivation

variable {n : Nonterminal} {c : Connective}

/-- The tokens at the leaves, from left to right. -/
def yield {n : Nonterminal} : Derivation n → List Token
  | single d => d.yield
  | join d t rest => d.yield ++ t.1 :: rest.yield
  | negate t d => t.1 :: d.yield
  | group l d r => l.1 :: (d.yield ++ [r.1])
  | call name l args r => name.1 :: l.1 :: (args.yield ++ [r.1])
  | compare left op right => [left.1, op.1, right.1]
  | value v => [v.1]

mutual

/-- The expression that a derivation stands for. A row of one operand and a group leave no node. -/
def tree {n : Nonterminal} : Derivation n → Expression
  | single d => d.tree
  | @join c d _ rest => c.expression (d.tree :: rest.trees)
  | negate _ d => .negate d.tree
  | group _ d _ => d.tree
  | call name _ args _ => .call name.1.text args.operands
  | compare left op right => .compare left.1.operand (.ofSymbol op.1.text) right.1.operand
  | value v => .truthy v.1.operand

/-- The expressions of the operands of a row. -/
def trees {n : Nonterminal} : Derivation n → List Expression
  | single d => [d.tree]
  | join d _ rest => d.tree :: rest.trees
  | negate .. | group .. | call .. | compare .. | value .. => []

end

/-! ## Yields -/

theorem balanced_yield (d : Derivation n) : Balanced d.yield := by
  induction d with
  | single d ih => exact ih
  | join d t rest ih ihrest =>
    apply ih.append
    exact .plain (Connective.isPlain_of_kind t.2) ihrest
  | negate t d ih => exact .plain (Token.isPlain_of_kind t.2 (by decide)) ih
  | group l d r ih => exact .paren l.2 ih r.2 .nil
  | call name l args r =>
    apply Balanced.plain (Token.isPlain_of_kind name.2 (by decide))
    exact .paren l.2 args.balanced_yield r.2 .nil
  | compare left op right =>
    apply Balanced.plain left.2.isPlain
    apply Balanced.plain (Token.isPlain_of_kind op.2 (by decide))
    exact .plain right.2.isPlain .nil
  | value v => exact .plain v.2.isPlain .nil

theorem cuts_yield (d : Derivation n) (h : n.Below c) : cuts c.kind 0 d.yield = [] := by
  induction d with
  | @single c' d ih =>
    refine ih ?_
    cases c' <;> simp_all [Nonterminal.Below, Connective.operand]
  | @join c' d t rest ih ihrest =>
    cases c' with
    | and => cases h
    | or =>
      -- Only `&&` binds weaker than the connective of this row.
      obtain rfl : c = .and := h
      have ht : t.1.kind ≠ Connective.kind .and := by simp [t.2, Connective.kind]
      rw [yield, cuts_append (Connective.kind_ne_lparen _) d.balanced_yield, ih trivial,
        cuts_plain (Connective.isPlain_of_kind t.2) ht, ihrest rfl]
      rfl
  | negate t d ih => rw [yield, c.cuts_of_kind t.2 (by decide), ih trivial]
  | group l d r => exact cuts_paren c.kind_ne_lparen l.2 d.balanced_yield r.2 []
  | call name l args r =>
    rw [yield, c.cuts_of_kind name.2 (by decide),
      cuts_paren c.kind_ne_lparen l.2 args.balanced_yield r.2, cuts]
  | compare left op right =>
    rw [yield, c.cuts_of_isValue left.2, c.cuts_of_kind op.2 (by decide),
      c.cuts_of_isValue right.2, cuts]
  | value v => exact c.cuts_of_isValue v.2 []

theorem splitTokens_operand (d : Derivation c.operand) :
    splitTokens c.kind 0 d.yield = [d.yield] :=
  splitTokens_uncut c.kind_ne_lparen d.balanced_yield (d.cuts_yield c.below_operand)

theorem splitTokens_join (d : Derivation c.operand) (t : TokenOf c.kind)
    (rest : Derivation (.row c)) :
    splitTokens c.kind 0 (join d t rest).yield = d.yield :: splitTokens c.kind 0 rest.yield :=
  splitTokens_cut c.kind_ne_lparen d.balanced_yield (d.cuts_yield c.below_operand) t.2 _

/-! ## Unambiguity -/

/-- One operand is no longer row. -/
theorem yield_ne_yield_join (d d' : Derivation c.operand) (t : TokenOf c.kind)
    (rest : Derivation (.row c)) : d.yield ≠ (join d' t rest).yield := by
  intro h
  have hsplit := splitTokens_operand d
  rw [h, splitTokens_join, List.cons.injEq] at hsplit
  exact splitTokens_ne_nil _ _ _ hsplit.2

theorem yield_injective {d d' : Derivation n} (h : d.yield = d'.yield) : d = d' := by
  induction d with
  | @single c d ih =>
    cases d' with
    | single d' => rw [ih h]
    | join d' t rest => exact absurd h (yield_ne_yield_join d d' t rest)
  | @join c d t rest ih ihrest =>
    cases d' with
    | single d' => exact absurd h.symm (yield_ne_yield_join d' d t rest)
    | join d' t' rest' =>
      have hd : d.yield = d'.yield := by
        have hsplit := splitTokens_join d t rest
        rw [h, splitTokens_join, List.cons.injEq] at hsplit
        exact hsplit.1.symm
      rw [yield, yield, hd, List.append_cancel_left_eq, List.cons.injEq] at h
      rw [ih hd, Subtype.ext h.1, ihrest h.2]
  | negate t d ih =>
    cases d' with
    | negate t' d' =>
      simp only [yield, List.cons.injEq] at h
      rw [Subtype.ext h.1, ih h.2]
    | _ => grind [yield, Token.IsValue]
  | group l d r ih =>
    cases d' with
    | group l' d' r' =>
      simp only [yield, List.cons.injEq] at h
      obtain ⟨hd, hr⟩ := List.append_inj' h.2 rfl
      rw [Subtype.ext h.1, ih hd, Subtype.ext (List.cons.inj hr).1]
    | _ => grind [yield, Token.IsValue]
  | call name l args r =>
    cases d' with
    | call name' l' args' r' =>
      simp only [yield, List.cons.injEq] at h
      obtain ⟨hargs, hr⟩ := List.append_inj' h.2.2 rfl
      rw [Subtype.ext h.1, Subtype.ext h.2.1, Arguments.yield_injective hargs,
        Subtype.ext (List.cons.inj hr).1]
    | _ => grind [yield, Token.IsValue]
  | compare left op right =>
    cases d' with
    | compare left' op' right' => simp_all [yield, Subtype.ext_iff]
    | _ => grind [yield, Token.IsValue]
  | value v =>
    cases d' with
    | value v' => simp_all [yield, Subtype.ext_iff]
    | _ => grind [yield, Token.IsValue]

/-! ## Positions -/

/-- Tokens with other positions have the derivations of the tokens, with the same trees. -/
theorem exists_relabelled (d : Derivation n) {ts : List Token}
    (h : ts.map Token.lexeme = d.yield.map Token.lexeme) :
    ∃ d' : Derivation n, d'.yield = ts ∧ d'.tree = d.tree ∧ d'.trees = d.trees := by
  induction d generalizing ts with
  | single d ih =>
    obtain ⟨d', rfl, htree, -⟩ := ih h
    refine ⟨.single d', rfl, htree, ?_⟩
    rw [trees, trees, htree]
  | join d t rest ih ihrest =>
    rw [yield, List.map_append, List.map_cons, List.map_eq_append_iff] at h
    obtain ⟨us, _, rfl, hus, h⟩ := h
    obtain ⟨t', vs, rfl, ht, hvs⟩ := List.map_eq_cons_iff.1 h
    obtain ⟨d', rfl, htree, -⟩ := ih hus
    obtain ⟨rest', rfl, -, htrees⟩ := ihrest hvs
    refine ⟨.join d' ⟨t', Token.kind_of_lexeme ht t.2⟩ rest', rfl, ?_, ?_⟩
    · rw [tree, tree, htree, htrees]
    · rw [trees, trees, htree, htrees]
  | negate t d ih =>
    obtain ⟨t', us, rfl, ht, hus⟩ := List.map_eq_cons_iff.1 h
    obtain ⟨d', rfl, htree, -⟩ := ih hus
    refine ⟨.negate ⟨t', Token.kind_of_lexeme ht t.2⟩ d', rfl, ?_, rfl⟩
    rw [tree, tree, htree]
  | group l d r ih =>
    obtain ⟨l', _, rfl, hl, h⟩ := List.map_eq_cons_iff.1 h
    rw [List.map_append, List.map_eq_append_iff] at h
    obtain ⟨us, _, rfl, hus, h⟩ := h
    obtain ⟨r', _, rfl, hr, h⟩ := List.map_eq_cons_iff.1 h
    obtain rfl := List.map_eq_nil_iff.1 h
    obtain ⟨d', rfl, htree, -⟩ := ih hus
    have hl' := Token.kind_of_lexeme hl l.2
    have hr' := Token.kind_of_lexeme hr r.2
    exact ⟨.group ⟨l', hl'⟩ d' ⟨r', hr'⟩, rfl, htree, rfl⟩
  | call name l args r =>
    obtain ⟨name', _, rfl, hname, h⟩ := List.map_eq_cons_iff.1 h
    obtain ⟨l', _, rfl, hl, h⟩ := List.map_eq_cons_iff.1 h
    rw [List.map_append, List.map_eq_append_iff] at h
    obtain ⟨us, _, rfl, hus, h⟩ := h
    obtain ⟨r', _, rfl, hr, h⟩ := List.map_eq_cons_iff.1 h
    obtain rfl := List.map_eq_nil_iff.1 h
    obtain ⟨args', rfl, hoperands⟩ := args.exists_relabelled hus
    have hname' := Token.kind_of_lexeme hname name.2
    have hl' := Token.kind_of_lexeme hl l.2
    have hr' := Token.kind_of_lexeme hr r.2
    refine ⟨.call ⟨name', hname'⟩ ⟨l', hl'⟩ args' ⟨r', hr'⟩, rfl, ?_, rfl⟩
    rw [tree, tree, hoperands, Token.text_of_lexeme hname]
  | compare left op right =>
    obtain ⟨left', _, rfl, hleft, h⟩ := List.map_eq_cons_iff.1 h
    obtain ⟨op', _, rfl, hop, h⟩ := List.map_eq_cons_iff.1 h
    obtain ⟨right', _, rfl, hright, h⟩ := List.map_eq_cons_iff.1 h
    obtain rfl := List.map_eq_nil_iff.1 h
    have hleft' := left.2.of_lexeme hleft
    have hop' := Token.kind_of_lexeme hop op.2
    have hright' := right.2.of_lexeme hright
    refine ⟨.compare ⟨left', hleft'⟩ ⟨op', hop'⟩ ⟨right', hright'⟩, rfl, ?_, rfl⟩
    rw [tree, tree, Token.operand_of_lexeme hleft, Token.operand_of_lexeme hright,
      Token.text_of_lexeme hop]
  | value v =>
    obtain ⟨v', _, rfl, hv, h⟩ := List.map_eq_cons_iff.1 h
    obtain rfl := List.map_eq_nil_iff.1 h
    refine ⟨.value ⟨v', v.2.of_lexeme hv⟩, rfl, ?_, rfl⟩
    rw [tree, tree, Token.operand_of_lexeme hv]

end Derivation

end MarkdownVault.Filter
