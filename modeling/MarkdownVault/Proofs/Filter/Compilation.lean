import MarkdownVault.Proofs.Filter.Lexing
import MarkdownVault.Filter.Evaluation

/-!
# Conditions as texts

A condition that is put together from texts can be written as one text: each text and each row of
items gets parentheses of its own. The two evaluators agree on it, whatever the texts contain.
-/

namespace MarkdownVault.Filter

variable {n : Nonterminal} {c : Connective}

/-! ## Writing conditions -/

namespace Connective

def symbol : Connective → String
  | and => "&&"
  | or => "||"

/-- What is written between two operands. -/
def separator (c : Connective) : String := " " ++ c.symbol ++ " "

/-- What a row without operands comes to. -/
def neutral : Connective → Bool
  | and => true
  | or => false

/-- A row of operands in parentheses, or the word for a row without operands. -/
def written (c : Connective) (texts : List String) : String :=
  if texts.isEmpty then (if c.neutral then "true" else "false")
  else "(" ++ joinWith c.separator texts ++ ")"

end Connective

mutual

/-- A condition as one text. -/
def Condition.compiled : Condition → String
  | .literal text => "(" ++ text ++ ")"
  | .all items => Connective.and.written (compiledItems items)
  | .any items => Connective.or.written (compiledItems items)
  | .none items => "!(" ++ Connective.or.written (compiledItems items) ++ ")"

def compiledItems : List Condition → List String
  | [] => []
  | c :: cs => c.compiled :: compiledItems cs

end

mutual

/-- The texts at the leaves of a condition. -/
def Condition.literals : Condition → List String
  | .literal text => [text]
  | .all items | .any items | .none items => literalsAmong items

def literalsAmong : List Condition → List String
  | [] => []
  | c :: cs => c.literals ++ literalsAmong cs

end

/-! ## Texts of derivations -/

/-- A text has the lexemes of a derivation. -/
def Writes (text : String) (d : Derivation n) : Prop :=
  lexemes? text.toList = some (d.yield.map Token.lexeme)

namespace Derivation

/-- A derivation in parentheses. -/
def parenthesized (d : Derivation (.row .and)) : Derivation .unary :=
  .group ⟨⟨.lparen, "(", 0, 1⟩, rfl⟩ d ⟨⟨.rparen, ")", 0, 1⟩, rfl⟩

/-- An operand as the only one of a row. -/
def alone (d : Derivation .unary) : Derivation (.row .and) :=
  .single (c := .and) (.single (c := .or) d)

/-- A derivation in parentheses behind an exclamation mark. -/
def denied (d : Derivation (.row .and)) : Derivation .unary :=
  .negate ⟨⟨.not, "!", 0, 1⟩, rfl⟩ d.parenthesized

end Derivation

namespace Writes

theorem parenthesized {text : String} {d : Derivation (.row .and)} (h : Writes text d) :
    Writes ("(" ++ text ++ ")") d.parenthesized := by
  have htoList : ("(" ++ text ++ ")").toList = '(' :: (text.toList ++ [')']) := by simp
  rw [Writes, htoList, lexemes?_enclosed h]
  simp [Derivation.parenthesized, Derivation.yield, Token.lexeme]

theorem denied {text : String} {d : Derivation (.row .and)} (h : Writes text d) :
    Writes ("!(" ++ text ++ ")") d.denied := by
  have hnot : lexeme? ('!' :: '(' :: (text.toList ++ [')'])) = some (some .not, 1) := rfl
  have htoList : ("!(" ++ text ++ ")").toList = '!' :: ("(" ++ text ++ ")").toList := by simp
  have hgroup := h.parenthesized
  rw [Writes] at hgroup
  rw [Writes, htoList, lexemes?_of_lexeme (by simpa using hnot), List.drop_one, List.tail_cons,
    hgroup]
  rfl

theorem join {first rest : String} {d : Derivation c.operand} {drest : Derivation (.row c)}
    (hfirst : Writes first d) (hrest : Writes rest drest) :
    Writes (first ++ c.separator ++ rest) (.join d ⟨⟨c.kind, c.symbol, 0, 2⟩, rfl⟩ drest) := by
  have hsymbol : lexemes? c.symbol.toList = some [(c.kind, c.symbol)] := by
    have hlexeme : lexeme? c.symbol.toList = some (some c.kind, 2) := by cases c <;> rfl
    rw [lexemes?_of_lexeme hlexeme]
    cases c <;> exact congrArg _ lexemes?_nil
  have htoList : (first ++ c.separator ++ rest).toList =
      first.toList ++ ' ' :: (c.symbol.toList ++ ' ' :: rest.toList) := by
    simp [Connective.separator]
  rw [Writes, htoList, lexemes?_spaced hfirst, lexemes?_spaced hsymbol, hrest]
  simp [Derivation.yield, Token.lexeme]

end Writes

/-! ## Rows -/

namespace Connective

/-- How the expressions of a row are evaluated. -/
def evalParts (r : Record) : Connective → List Expression → Except ValueFault Bool
  | and => evalAll r
  | or => evalAny r

/-- How the items of a condition are evaluated. -/
def holdItems (r : Record) : Connective → List Condition → Except ValueFault Bool
  | and => holdAll r
  | or => holdAny r

variable {r : Record}

theorem eval_expression (c : Connective) (es : List Expression) :
    (c.expression es).eval r = c.evalParts r es := by cases c <;> rfl

theorem evalParts_singleton (c : Connective) (e : Expression) :
    c.evalParts r [e] = e.eval r := by
  cases c <;> exact bind_ite_true (e.eval r)

/-- Both evaluators go through a row in the same way. -/
theorem evalParts_cons {c : Connective} {e : Expression} {es : List Expression} {item : Condition}
    {items : List Condition} (he : e.eval r = item.eval r)
    (hes : c.evalParts r es = c.holdItems r items) :
    c.evalParts r (e :: es) = c.holdItems r (item :: items) := by
  cases c with
  | and =>
    rw [evalParts, holdItems] at hes ⊢
    rw [evalAll, holdAll, he, hes]
  | or =>
    rw [evalParts, holdItems] at hes ⊢
    rw [evalAny, holdAny, he, hes]

/-- An operand of a row. -/
def lift : (c : Connective) → Derivation .unary → Derivation c.operand
  | and, d => .single (c := .or) d
  | or, d => d

theorem yield_lift (c : Connective) (d : Derivation .unary) : (c.lift d).yield = d.yield := by
  cases c <;> rfl

theorem tree_lift (c : Connective) (d : Derivation .unary) : (c.lift d).tree = d.tree := by
  cases c <;> rfl

/-- A row as the only thing in a pair of parentheses. -/
def enclose : (c : Connective) → Derivation (.row c) → Derivation (.row .and)
  | and, d => d
  | or, d => .single (c := .and) d

theorem yield_enclose (c : Connective) (d : Derivation (.row c)) :
    (c.enclose d).yield = d.yield := by cases c <;> rfl

theorem tree_enclose (c : Connective) (d : Derivation (.row c)) : (c.enclose d).tree = d.tree := by
  cases c <;> rfl

end Connective

theorem Derivation.eval_tree_row (d : Derivation (.row c)) (r : Record) :
    d.tree.eval r = c.evalParts r d.trees := by
  cases d with
  | single d => exact (c.evalParts_singleton d.tree).symm
  | join d t rest => exact c.eval_expression _

/-! ## Agreement -/

/-- The text of a condition is derived with a tree that evaluates like the condition. -/
def Condition.Agrees (item : Condition) : Prop :=
  ∃ d : Derivation .unary, Writes item.compiled d ∧ ∀ r, d.tree.eval r = item.eval r

/-- Items that agree make a row that agrees. -/
theorem exists_row_of_agrees (c : Connective) {items : List Condition} (hne : items ≠ [])
    (h : ∀ item ∈ items, item.Agrees) :
    ∃ d : Derivation (.row c), Writes (joinWith c.separator (compiledItems items)) d ∧
      ∀ r, c.evalParts r d.trees = c.holdItems r items := by
  induction items with
  | nil => exact absurd rfl hne
  | cons item items ih =>
    obtain ⟨⟨d, hwrites, heval⟩, hitems⟩ := List.forall_mem_cons.1 h
    have hlift : Writes item.compiled (c.lift d) := by rwa [Writes, c.yield_lift]
    have htree (r : Record) : (c.lift d).tree.eval r = item.eval r := by rw [c.tree_lift, heval]
    cases items with
    | nil =>
      refine ⟨.single (c.lift d), ?_, fun r => ?_⟩
      · simpa [compiledItems, joinWith, Writes, Derivation.yield] using hlift
      · have hnil : c.evalParts r [] = c.holdItems r [] := by cases c <;> rfl
        exact Connective.evalParts_cons (htree r) hnil
    | cons second items =>
      obtain ⟨drest, hrest, hevalRest⟩ := ih (by simp) hitems
      refine ⟨.join (c.lift d) ⟨⟨c.kind, c.symbol, 0, 2⟩, rfl⟩ drest, ?_, fun r => ?_⟩
      · rw [compiledItems, compiledItems, joinWith_cons_cons]
        exact hlift.join hrest
      · exact Connective.evalParts_cons (htree r) (hevalRest r)

/-- The word for a row without operands. -/
theorem exists_neutral (c : Connective) : ∃ d : Derivation .unary,
    Writes (c.written []) d ∧ ∀ r, d.tree.eval r = c.holdItems r [] := by
  cases c with
  | and =>
    have hword : lexeme? "true".toList = some (some .word, 4) := rfl
    have hrest : lexemes? ("true".toList.drop 4) = some [] := lexemes?_nil
    refine ⟨.value ⟨⟨.word, "true", 0, 4⟩, .inr rfl⟩, ?_, fun r => rfl⟩
    refine (lexemes?_of_lexeme hword).trans ?_
    rw [hrest]
    rfl
  | or =>
    have hword : lexeme? "false".toList = some (some .word, 5) := rfl
    have hrest : lexemes? ("false".toList.drop 5) = some [] := lexemes?_nil
    refine ⟨.value ⟨⟨.word, "false", 0, 5⟩, .inr rfl⟩, ?_, fun r => rfl⟩
    refine (lexemes?_of_lexeme hword).trans ?_
    rw [hrest]
    rfl

theorem exists_written (c : Connective) {items : List Condition}
    (h : ∀ item ∈ items, item.Agrees) :
    ∃ d : Derivation .unary, Writes (c.written (compiledItems items)) d ∧
      ∀ r, d.tree.eval r = c.holdItems r items := by
  cases items with
  | nil => exact exists_neutral c
  | cons item items =>
    obtain ⟨d, hwrites, heval⟩ := exists_row_of_agrees c (List.cons_ne_nil item items) h
    have henclose : Writes (joinWith c.separator (compiledItems (item :: items))) (c.enclose d) := by
      rwa [Writes, c.yield_enclose]
    refine ⟨(c.enclose d).parenthesized, henclose.parenthesized, fun r => ?_⟩
    rw [Derivation.parenthesized, Derivation.tree, c.tree_enclose, d.eval_tree_row, heval]

theorem agrees_literal {text : String} (h : ∃ e, parse text = .ok e) :
    (Condition.literal text).Agrees := by
  obtain ⟨e, he⟩ := h
  obtain ⟨d, hlexemes, rfl⟩ := parse_eq_ok_iff_lexemes.1 he
  refine ⟨d.parenthesized, ?_, fun r => ?_⟩
  · rw [Condition.compiled]
    exact Writes.parenthesized hlexemes
  · rw [Condition.eval, evalText, parse_trim.2 he]
    rfl

theorem eval_denied (d : Derivation (.row .and)) (r : Record) :
    d.denied.tree.eval r = do return !(← d.tree.eval r) := rfl

mutual

theorem Condition.agrees : (item : Condition) →
    (∀ text ∈ item.literals, ∃ e, parse text = .ok e) → item.Agrees
  | .literal text, h => agrees_literal (h text (by simp [Condition.literals]))
  | .all items, h => exists_written .and (agrees_among items h)
  | .any items, h => exists_written .or (agrees_among items h)
  | .none items, h => by
    obtain ⟨d, hwrites, heval⟩ := exists_written .or (agrees_among items h)
    refine ⟨d.alone.denied, Writes.denied (d := d.alone) hwrites, fun r => ?_⟩
    have htree : d.alone.tree.eval r = holdAny r items := heval r
    rw [eval_denied, Condition.eval, htree]

theorem agrees_among : (items : List Condition) →
    (∀ text ∈ literalsAmong items, ∃ e, parse text = .ok e) → ∀ item ∈ items, item.Agrees
  | [], _ => by simp
  | first :: rest, h => by
    rw [literalsAmong, List.forall_mem_append] at h
    exact List.forall_mem_cons.2 ⟨first.agrees h.1, agrees_among rest h.2⟩

end

theorem evalText_of_writes {text : String} {d : Derivation .unary} (h : Writes text d)
    (r : Record) : evalText r text = d.tree.eval r := by
  have hparse : parse text = .ok d.tree :=
    parse_eq_ok_iff_lexemes.2 ⟨d.alone, h, rfl⟩
  rw [evalText, parse_trim.2 hparse]

/-- Evaluating a condition is evaluating its text, faults included. The negation of two items is the
negation of their disjunction. -/
theorem eval_compiled :
    (∀ item : Condition, (∀ text ∈ item.literals, ∃ e, parse text = .ok e) →
      ∀ r, item.eval r = evalText r item.compiled) ∧
    ∀ a b : Condition, (∀ text ∈ a.literals ++ b.literals, ∃ e, parse text = .ok e) →
      ∀ r, (Condition.none [a, b]).eval r =
        evalText r ("!(" ++ a.compiled ++ " || " ++ b.compiled ++ ")") := by
  constructor
  · intro item h r
    obtain ⟨d, hwrites, heval⟩ := item.agrees h
    rw [evalText_of_writes hwrites, heval]
  · intro a b h r
    obtain ⟨ha, hb⟩ := List.forall_mem_append.1 h
    obtain ⟨d, hwrites, heval⟩ := exists_row_of_agrees .or (List.cons_ne_nil a [b])
      (by simpa using ⟨a.agrees ha, b.agrees hb⟩)
    have hrow : joinWith Connective.or.separator (compiledItems [a, b]) =
        a.compiled ++ " || " ++ b.compiled := by
      rw [compiledItems, compiledItems, compiledItems, joinWith_cons_cons]
      simp [joinWith, Connective.separator, Connective.symbol]
    have htext : "!(" ++ a.compiled ++ " || " ++ b.compiled ++ ")" =
        "!(" ++ (a.compiled ++ " || " ++ b.compiled) ++ ")" := by simp [String.append_assoc]
    have henclose : Writes (a.compiled ++ " || " ++ b.compiled) (Connective.or.enclose d) := by
      rwa [Writes, Connective.yield_enclose, ← hrow]
    rw [htext, evalText_of_writes henclose.denied, eval_denied, Connective.tree_enclose,
      d.eval_tree_row, heval, Condition.eval]
    rfl

/-- A quoted text with operators and parentheses inside, and rows without items. -/
def quotedOperators : Condition :=
  .none [.all [.literal "t == \"a) && (b\"", .any []], .literal " !x || y"]

theorem eval_compiled_quotedOperators :
    (∀ r, quotedOperators.eval r =
      evalText r "!((((t == \"a) && (b\") && false) || ( !x || y)))") ∧
    ∀ r, (Condition.none [quotedOperators, .literal "x"]).eval r =
      evalText r "!(!((((t == \"a) && (b\") && false) || ( !x || y))) || (x))" := by
  obtain ⟨hagree, hnone⟩ := eval_compiled
  have hquoted : ∀ text ∈ quotedOperators.literals, ∃ e, parse text = .ok e := by
    intro text htext
    exact toBool_iff.1 (List.all_eq_true.1 (by decide +kernel :
      quotedOperators.literals.all fun text => (parse text).toBool) text htext)
  have hword : ∃ e, parse "x" = .ok e := toBool_iff.1 (by decide +kernel)
  refine ⟨fun r => ?_, fun r => ?_⟩
  · exact hagree quotedOperators hquoted r
  · refine hnone quotedOperators (.literal "x") ?_ r
    exact List.forall_mem_append.2 ⟨hquoted, by simpa [Condition.literals] using hword⟩

end MarkdownVault.Filter
