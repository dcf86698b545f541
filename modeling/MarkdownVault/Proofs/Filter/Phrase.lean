import Mathlib.Data.List.TakeWhile
import MarkdownVault.Proofs.Filter.Compilation

/-!
# Phrases of the filter language

The texts that filters are put together from: words, comparisons of a word with a value, and calls
with one argument. Each of them has the derivation that one expects, whatever the value is written
as, as long as it is one lexeme.
-/

namespace MarkdownVault.Filter

variable {left name : String}

/-! ## Words -/

/-- A text that is one word. -/
def IsWord (s : String) : Prop := s ≠ "" ∧ ∀ c ∈ s.toList, isWordPart c

instance (s : String) : Decidable (IsWord s) :=
  decidable_of_iff (s ≠ "" ∧ s.toList.all isWordPart) (by rw [IsWord, List.all_eq_true])

theorem lexeme?_of_isWordPart {c : Char} (hc : isWordPart c) (cs : List Char) :
    lexeme? (c :: cs) = some (some .word, (cs.takeWhile isWordPart).length + 1) := by
  have hparts := hc
  simp only [isWordPart, Bool.and_eq_true, Bool.not_eq_true', List.contains_eq_mem,
    decide_eq_false_iff_not, List.mem_cons, List.not_mem_nil, or_false, not_or] at hparts
  rw [lexeme?_cons]
  simp [hparts, hc]

theorem lexemes?_word {s : String} (h : IsWord s) : lexemes? s.toList = some [(.word, s)] := by
  obtain ⟨hne, hparts⟩ := h
  cases hcs : s.toList with
  | nil => exact absurd (String.toList_eq_nil_iff.1 hcs) hne
  | cons c cs =>
    rw [hcs, List.forall_mem_cons] at hparts
    have htake : cs.takeWhile isWordPart = cs := List.takeWhile_eq_self_iff.2 hparts.2
    rw [lexemes?_of_lexeme (lexeme?_of_isWordPart hparts.1 cs), htake, List.drop_succ_cons,
      List.drop_length, List.take_succ_cons, List.take_length, ← hcs, String.ofList_toList,
      lexemes?_nil, Option.map_some]

/-! ## Values -/

/-- A word or a literal as a token; its place is of no matter. -/
def wordToken (s : String) : ValueToken := ⟨⟨.word, s, 0, 0⟩, .inr rfl⟩

def literalToken (s : String) : ValueToken := ⟨⟨.literal, s, 0, 0⟩, .inl rfl⟩

@[simp] theorem operand_wordToken (s : String) : (wordToken s).1.operand = wordOperand s := rfl

@[simp] theorem operand_literalToken (s : String) :
    (literalToken s).1.operand = .constant (.text (unquote s)) s := rfl

/-- The text of a value is no more and no less than its lexeme. -/
def ValueToken.Written (v : ValueToken) : Prop := lexemes? v.1.text.toList = some [v.1.lexeme]

theorem written_wordToken {s : String} (h : IsWord s) : (wordToken s).Written := lexemes?_word h

/-! ## Comparisons and calls -/

theorem lexemes?_symbol (op : Comparison) :
    lexemes? op.symbol.toList = some [(.op, op.symbol)] := by
  have hlexeme : lexeme? op.symbol.toList = some (some .op, op.symbol.length) := by cases op <;> rfl
  rw [lexemes?_of_lexeme hlexeme, ← String.length_toList, List.drop_length, List.take_length,
    String.ofList_toList, lexemes?_nil, Option.map_some]

namespace Writes

theorem alone {text : String} {d : Derivation .unary} (h : Writes text d) :
    Writes text d.alone := h

theorem compare {right : ValueToken} (hleft : IsWord left) (op : Comparison)
    (hright : right.Written) :
    Writes (left ++ " " ++ op.symbol ++ " " ++ right.1.text)
      (.compare (wordToken left) ⟨⟨.op, op.symbol, 0, 0⟩, rfl⟩ right) := by
  have htoList : (left ++ " " ++ op.symbol ++ " " ++ right.1.text).toList =
      left.toList ++ ' ' :: (op.symbol.toList ++ ' ' :: right.1.text.toList) := by simp
  rw [Writes, htoList, lexemes?_spaced (lexemes?_word hleft), lexemes?_spaced (lexemes?_symbol op),
    hright]
  rfl

theorem call {arg : ValueToken} (hname : IsWord name) (harg : arg.Written) :
    Writes (name ++ "(" ++ arg.1.text ++ ")") (.call ⟨⟨.word, name, 0, 0⟩, rfl⟩
      ⟨⟨.lparen, "(", 0, 0⟩, rfl⟩ (some (.last arg)) ⟨⟨.rparen, ")", 0, 0⟩, rfl⟩) := by
  have htoList : (name ++ "(" ++ arg.1.text ++ ")").toList =
      name.toList ++ '(' :: (arg.1.text.toList ++ [')']) := by simp
  have hbreak : ∀ e ∈ ('(' :: (arg.1.text.toList ++ [')'])).head?, IsBreak e := by
    rintro e ⟨⟩
    decide
  rw [Writes, htoList, lexemes?_append (lexemes?_word hname) hbreak, lexemes?_enclosed harg]
  rfl

end Writes

/-! ## Connectives -/

/-- A lexeme that is a connective is its symbol. -/
theorem prefix_of_lexeme? {cs : List Char} {c : Connective} {n : Nat}
    (h : lexeme? cs = some (some c.kind, n)) : c.symbol.toList <+: cs := by
  unfold lexeme? at h
  split at h
  case h_2 rest =>
    cases c with
    | and => exact ⟨rest, rfl⟩
    | or => cases h
  case h_3 rest =>
    cases c with
    | and => cases h
    | or => exact ⟨rest, rfl⟩
  case h_14 | h_15 =>
    obtain ⟨k, -, hk⟩ := Option.map_eq_some_iff.1 h
    cases c <;> cases hk
  case h_16 =>
    split at h
    case isTrue => cases c <;> cases h
    case isFalse => split at h <;> cases c <;> cases h
  all_goals cases c <;> cases h

theorem infix_of_mem_lexemes? {cs : List Char} {ls : List (TokenKind × String)} {c : Connective}
    {s : String} (h : lexemes? cs = some ls) (hmem : (c.kind, s) ∈ ls) :
    c.symbol.toList <:+: cs := by
  induction cs using lexeme_induction generalizing ls with
  | nil =>
    rw [lexemes?_nil] at h
    cases h
    cases hmem
  | blank a cs ha ih =>
    rw [lexemes?_of_isBlank ha] at h
    exact (ih h hmem).trans (List.suffix_cons a cs).isInfix
  | lexeme a cs kind n hlexeme ih =>
    rw [lexemes?_of_lexeme hlexeme] at h
    obtain ⟨ms, hms, rfl⟩ := Option.map_eq_some_iff.1 h
    rcases List.mem_cons.1 hmem with heq | hmem
    · obtain rfl : c.kind = kind := congrArg Prod.fst heq
      exact (prefix_of_lexeme? hlexeme).isInfix
    · exact (ih hms hmem).trans (List.drop_suffix n _).isInfix
  | fault a cs hfault =>
    rw [lexemes?_of_none hfault] at h
    cases h

/-- Without connectives a comparison is the whole of an expression that begins like it. -/
theorem eq_compare_of_yield {d : Derivation (.row .and)} {a b : String}
    {ls : List (TokenKind × String)}
    (hyield : d.yield.map Token.lexeme = (.word, a) :: (.op, b) :: ls)
    (hplain : ∀ c : Connective, ∀ s, (c.kind, s) ∉ ls) :
    ∃ left op right, d = (Derivation.compare left op right).alone := by
  have hnone (c : Connective) (t : TokenOf c.kind) : t.1 ∉ d.yield := by
    intro hmem
    have hlexeme := List.mem_map_of_mem (f := Token.lexeme) hmem
    rw [hyield, Token.lexeme, t.2] at hlexeme
    simp only [List.mem_cons, Prod.mk.injEq] at hlexeme
    rcases hlexeme with ⟨hkind, -⟩ | ⟨hkind, -⟩ | hmem
    · cases c <;> cases hkind
    · cases c <;> cases hkind
    · exact hplain c _ hmem
  cases d with
  | join _ t _ => exact absurd (by simp [Derivation.yield]) (hnone .and t)
  | single d => cases d with
    | join _ t _ => exact absurd (by simp [Derivation.yield]) (hnone .or t)
    | single d => cases d with
      | compare left op right => exact ⟨left, op, right, rfl⟩
      | negate t d =>
        have hkind := (Prod.mk.inj (List.cons.inj hyield).1).1
        cases t.2.symm.trans hkind
      | group l d r =>
        have hkind := (Prod.mk.inj (List.cons.inj hyield).1).1
        cases l.2.symm.trans hkind
      | call name l args r =>
        have hkind := (Prod.mk.inj (List.cons.inj (List.cons.inj hyield).2).1).1
        cases l.2.symm.trans hkind
      | value v => cases (List.cons.inj hyield).2

/-! ## Filters -/

theorem evalValue_text {text : String} (h : isBlankText text = false) (r : Record) :
    evalValue r (.text text) = evalText r text := by
  rw [evalValue, Condition.ofValue?, if_neg (by simp [h]), holds, Condition.eval]

/-- A text with a derivation is not blank, so as a filter it is evaluated. -/
theorem evalValue_of_writes {text : String} {d : Derivation (.row .and)} (h : Writes text d)
    (r : Record) : evalValue r (.text text) = d.tree.eval r := by
  have hparse : parse text = .ok d.tree := parse_eq_ok_iff_lexemes.2 ⟨d, h, rfl⟩
  have hblank : isBlankText text = false := by
    rw [← Bool.not_eq_true, isBlankText, List.all_eq_true]
    intro hblank
    have hnil : lexemes? text.toList = some [] := by
      rw [← List.nil_append text.toList, lexemes?_append_isBlank hblank, lexemes?_nil]
    have hyield : d.yield = [] := List.map_eq_nil_iff.1 (Option.some.inj (h.symm.trans hnil))
    have hempty := (ofTokens_yield d).1
    rw [hyield, ofTokens] at hempty
    cases hempty
  rw [evalValue_text hblank, evalText, parse_trim.2 hparse]

/-- A text has a derivation that gives the answers of a test. -/
def Means (n : Nonterminal) (text : String) (test : Record → Except ValueFault Bool) : Prop :=
  ∃ d : Derivation n, Writes text d ∧ ∀ r, d.tree.eval r = test r

namespace Means

variable {text other : String} {test rest : Record → Except ValueFault Bool}

theorem evalValue (h : Means (.row .and) text test) (r : Record) :
    evalValue r (.text text) = test r := by
  obtain ⟨d, hwrites, htest⟩ := h
  rw [evalValue_of_writes hwrites, htest]

theorem alone (h : Means .unary text test) : Means (.row .and) text test := by
  obtain ⟨d, hwrites, htest⟩ := h
  exact ⟨d.alone, hwrites.alone, htest⟩

/-- A comparison of a word with a value compares what both stand for. -/
theorem compare (op : Comparison) {sign : String} (hsign : sign = " " ++ op.symbol ++ " ")
    {right : ValueToken} (hleft : IsWord left) (hright : right.Written) :
    Means .unary (left ++ sign ++ right.1.text) fun r =>
      op.compare ((wordOperand left).value r) (right.1.operand.value r) := by
  have htext : left ++ sign ++ right.1.text =
      left ++ " " ++ op.symbol ++ " " ++ right.1.text := by
    rw [hsign, ← String.append_assoc, ← String.append_assoc]
  rw [htext]
  refine ⟨_, Writes.compare hleft op hright, fun r => ?_⟩
  exact congrArg (Comparison.compare · _ _) (Comparison.ofSymbol_symbol op)

theorem equal {right : ValueToken} (hleft : IsWord left) (hright : right.Written) :
    Means .unary (left ++ " == " ++ right.1.text) fun r =>
      Comparison.eq.compare ((wordOperand left).value r) (right.1.operand.value r) :=
  compare .eq rfl hleft hright

theorem unequal {right : ValueToken} (hleft : IsWord left) (hright : right.Written) :
    Means .unary (left ++ " != " ++ right.1.text) fun r =>
      Comparison.ne.compare ((wordOperand left).value r) (right.1.operand.value r) :=
  compare .ne rfl hleft hright

theorem call {arg : ValueToken} (hname : IsWord name) (harg : arg.Written) :
    Means .unary (name ++ "(" ++ arg.1.text ++ ")") fun r =>
      Filter.call r name [arg.1.operand] :=
  ⟨_, Writes.call hname harg, fun _ => rfl⟩

/-- Of two conditions the second one is looked at if the first one does not hold. -/
theorem either (h : Means .unary text test) (hother : Means .unary other rest) :
    Means (.row .and) (text ++ " || " ++ other)
      (fun r => do if ← test r then return true else rest r) := by
  obtain ⟨d, hwrites, htest⟩ := h
  obtain ⟨d', hwrites', hrest⟩ := hother
  have hsingle : Writes other (Derivation.single (c := .or) d') := hwrites'
  refine ⟨.single (c := .and) (.join (c := .or) d ⟨⟨.or, "||", 0, 2⟩, rfl⟩ (.single d')),
    Writes.join (c := .or) hwrites hsingle, fun r => ?_⟩
  have hlast : evalAny r [d'.tree] = rest r :=
    (Connective.evalParts_singleton .or d'.tree).trans (hrest r)
  change evalAny r [d.tree, d'.tree] = _
  rw [evalAny, htest, hlast]

/-- Others are looked at only if the condition in front of them holds, if there is one. -/
theorem guarded {guard : Option String} {texts : List String} (hne : texts ≠ [])
    (h : Means (.row .and) (joinWith " && " texts) rest)
    (hsome : ∀ text ∈ guard, Means .unary text test)
    (hnone : guard = none → ∀ r, test r = .ok true) :
    Means (.row .and) (joinWith " && " (guard.toList ++ texts))
      (fun r => do if ← test r then rest r else return false) := by
  obtain ⟨drest, hwritesRest, hrest⟩ := h
  cases guard with
  | none =>
    refine ⟨drest, hwritesRest, fun r => ?_⟩
    simp only [hnone rfl, hrest]
    rfl
  | some first =>
    obtain ⟨d, hwrites, htest⟩ := hsome first rfl
    obtain ⟨second, texts, rfl⟩ := List.exists_cons_of_ne_nil hne
    have hlift : Writes first (Connective.and.lift d) := by
      rwa [Writes, Connective.yield_lift]
    refine ⟨.join (Connective.and.lift d) ⟨⟨.and, "&&", 0, 2⟩, rfl⟩ drest, ?_, fun r => ?_⟩
    · rw [Option.toList_some, List.singleton_append, joinWith_cons_cons]
      exact hlift.join hwritesRest
    · have hall : evalAll r drest.trees = rest r := (drest.eval_tree_row r).symm.trans (hrest r)
      change evalAll r ((Connective.and.lift d).tree :: drest.trees) = _
      rw [evalAll, Connective.tree_lift, htest, hall]

end Means

/-- Comparing with a value that has a text compares texts. -/
theorem compare_equal {right : Value} {s : String} (h : right.asText = .ok s) (left : Value) :
    Comparison.eq.compare left right = left.asText.map (fun text => text == s) := by
  rw [Comparison.compare, h]
  cases left.asText <;> rfl

theorem compare_unequal {right : Value} {s : String} (h : right.asText = .ok s) (left : Value) :
    Comparison.ne.compare left right = left.asText.map (fun text => text != s) := by
  rw [Comparison.compare, h]
  cases left.asText <;> rfl

/-! ## Properties -/

/-- A word that names a property of the front matter: no number, no constant and nothing of the
file. -/
structure IsPropertyWord (s : String) : Prop where
  isWord : IsWord s
  notNumeral : readNumeral? s.toList = none
  notConstant : s ∉ ["true", "false", "null"]
  notFile : startsWith s "file." = false

theorem IsPropertyWord.wordOperand_eq {s : String} (h : IsPropertyWord s) :
    wordOperand s = .property s := by
  have hconstant := h.notConstant
  simp only [List.mem_cons, List.not_mem_nil, or_false, not_or] at hconstant
  simp [wordOperand, h.notNumeral, hconstant, h.notFile]

end MarkdownVault.Filter
