import MarkdownVault.Note.FrontMatter
import MarkdownVault.Proofs.Filter.Compilation
import MarkdownVault.Proofs.Value.Comparable
import MarkdownVault.Proofs.Yaml.Document

/-!
# Filters always have an answer

On a record whose values can be compared every filter holds or does not, whatever it is written as:
the constants of an expression are in range, so no operand is without a text or a number. A text
that is no expression counts as false wherever it stands.

A property that holds itself has no text, and a filter that compares it fails. A filter that holds
itself has no end and is left out.
-/

namespace MarkdownVault.Filter

variable {r : Record}

/-! ## Operands -/

/-- A constant that can be compared, or a name. -/
def Operand.IsComparable : Operand → Prop
  | .constant v _ => v.isComparable
  | _ => True

/-- A numeral without a fraction is an integer that some number equals. -/
theorem isComparable_of_readNumeral? {cs : List Char} {v : Value}
    (h : readNumeral? cs = some v) : v.isComparable := by
  unfold readNumeral? at h
  split at h
  rename_i negative rest _
  cases hwhole : (rest.span Text.isDecimalDigit).1 with
  | nil =>
    simp only [hwhole, List.isEmpty_nil, if_true] at h
    cases h
  | cons d ds =>
    simp only [hwhole, List.isEmpty_cons, Bool.false_eq_true, if_false] at h
    split at h
    · split at h
      · rename_i n hn
        cases h
        exact Binary64.isSome_ofInt?_of_toInt? (fun _ _ _ => Binary64.bounds_of_ofDecimal) hn
      · cases h
        rfl
    · split at h
      · cases h
      · cases h
        rfl
    · cases h

theorem isComparable_wordOperand (word : String) : (wordOperand word).IsComparable := by
  rw [wordOperand]
  split
  case h_1 v hv => exact isComparable_of_readNumeral? hv
  case h_2 =>
    -- The other words are constants without numbers, or names.
    split_ifs <;> first | exact rfl | trivial

theorem Token.isComparable_operand (t : Token) : t.operand.IsComparable := by
  rw [Token.operand]
  split
  · exact rfl
  · exact isComparable_wordOperand t.text

namespace Operand.IsComparable

variable {o : Operand}

theorem value (ho : o.IsComparable) (hr : r.IsComparable) : (o.value r).isComparable := by
  cases o with
  | constant v text => exact ho
  | fileProperty name text => exact hr.fileProperty name
  | property name => exact hr.noteProperty name

theorem exists_argument (ho : o.IsComparable) : ∃ s, o.argument = .ok s := by
  cases o with
  | constant v text => exact Value.exists_asText v ho
  | fileProperty name text => exact ⟨text, rfl⟩
  | property name => exact ⟨name, rfl⟩

end Operand.IsComparable

theorem isComparable_operands (vs : Values) : ∀ o ∈ vs.operands, o.IsComparable := by
  induction vs with
  | last v => simpa [Values.operands] using v.1.isComparable_operand
  | more v comma rest ih => exact List.forall_mem_cons.2 ⟨v.1.isComparable_operand, ih⟩

/-! ## Expressions -/

theorem exists_compare (op : Comparison) {left right : Value} (hl : left.isComparable)
    (hr : right.isComparable) : ∃ b, op.compare left right = .ok b := by
  obtain ⟨s, hs⟩ := Value.exists_asText left hl
  obtain ⟨t, ht⟩ := Value.exists_asText right hr
  obtain ⟨x, hx⟩ := Value.exists_asNumber hl
  obtain ⟨y, hy⟩ := Value.exists_asNumber hr
  cases op <;> simp [Comparison.compare, hs, ht, hx, hy, bind, Except.bind, pure, Except.pure]

theorem exists_textArguments (hr : r.IsComparable) {args : List Operand}
    (h : ∀ o ∈ args, o.IsComparable) : ∃ found, textArguments r args = .ok found := by
  match args, h with
  | [], _ => exact ⟨none, rfl⟩
  | [_], _ => exact ⟨none, rfl⟩
  | a :: b :: rest, h =>
    obtain ⟨s, hs⟩ := Value.exists_asText _ ((h a (by simp)).value hr)
    obtain ⟨t, ht⟩ := (h b (by simp)).exists_argument
    exact ⟨some (s, t), by rw [textArguments, hs, ht]; rfl⟩

theorem exists_call (hr : r.IsComparable) (name : String) {args : List Operand}
    (h : ∀ o ∈ args, o.IsComparable) : ∃ b, call r name args = .ok b := by
  have hany (test : String → Bool) :
      ∃ b, args.anyM (fun a => do return test (← a.argument)) = .ok b := by
    refine exists_anyM fun a ha => ?_
    obtain ⟨s, hs⟩ := (h a ha).exists_argument
    exact ⟨test s, by rw [hs]; rfl⟩
  obtain ⟨found, hfound⟩ := exists_textArguments hr h
  unfold call
  split
  case h_1 => exact hany fun s => r.tags.contains (Note.bareTag s)
  case h_2 => exact hany r.links.contains
  case h_3 =>
    cases args with
    | nil => exact ⟨false, rfl⟩
    | cons a rest =>
      obtain ⟨s, hs⟩ := (h a (by simp)).exists_argument
      exact ⟨inFolder r.folder s, by simp only [hs]; rfl⟩
  case h_7 => exact ⟨false, rfl⟩
  all_goals
    rw [hfound]
    cases found <;> exact ⟨_, rfl⟩

theorem exists_evalParts (c : Connective) {es : List Expression}
    (h : ∀ e ∈ es, ∃ b, e.eval r = .ok b) : ∃ b, c.evalParts r es = .ok b := by
  induction es with
  | nil => cases c <;> exact ⟨_, rfl⟩
  | cons e es ih =>
    obtain ⟨⟨b, hb⟩, hes⟩ := List.forall_mem_cons.1 h
    obtain ⟨rest, hrest⟩ := ih hes
    cases c <;> cases b <;>
      simp_all [Connective.evalParts, evalAll, evalAny, bind, Except.bind, pure, Except.pure]

/-- The tree of a derivation and the operands of its row have a truth value. -/
theorem Derivation.exists_eval (hr : r.IsComparable) {n : Nonterminal} (d : Derivation n) :
    (∃ b, d.tree.eval r = .ok b) ∧ ∀ e ∈ d.trees, ∃ b, e.eval r = .ok b := by
  induction d with
  | single d ih => exact ⟨ih.1, by simpa [trees] using ih.1⟩
  | @join c d t rest ih ihrest =>
    have htrees : ∀ e ∈ d.tree :: rest.trees, ∃ b, e.eval r = .ok b :=
      List.forall_mem_cons.2 ⟨ih.1, ihrest.2⟩
    refine ⟨?_, htrees⟩
    rw [tree, c.eval_expression]
    exact exists_evalParts c htrees
  | negate t d ih =>
    obtain ⟨⟨b, hb⟩, -⟩ := ih
    exact ⟨⟨!b, by rw [tree, Expression.eval, hb]; rfl⟩, by simp [trees]⟩
  | group l d r' ih => exact ⟨ih.1, by simp [trees]⟩
  | call name l args r' =>
    refine ⟨exists_call hr name.1.text ?_, by simp [trees]⟩
    cases args with
    | none => simp [Arguments.operands]
    | some vs => exact isComparable_operands vs
  | compare left op right =>
    refine ⟨?_, by simp [trees]⟩
    exact exists_compare _ (left.1.isComparable_operand.value hr)
      (right.1.isComparable_operand.value hr)
  | value v =>
    exact ⟨Value.exists_holds (v.1.isComparable_operand.value hr), by simp [trees]⟩

theorem exists_evalText (hr : r.IsComparable) (text : String) :
    ∃ b, evalText r text = .ok b := by
  rw [evalText]
  cases hparse : parse (trim text) with
  | error fault => exact ⟨false, rfl⟩
  | ok e =>
    obtain ⟨_, _, d, _, rfl⟩ := parse_eq_ok_iff.1 hparse
    exact (d.exists_eval hr).1

/-! ## Conditions -/

mutual

theorem Condition.exists_eval (hr : r.IsComparable) : (c : Condition) → ∃ b, c.eval r = .ok b
  | .literal text => exists_evalText hr text
  | .all items => (exists_hold hr items).1
  | .any items => (exists_hold hr items).2
  | .none items => by
    obtain ⟨b, hb⟩ := (exists_hold hr items).2
    exact ⟨!b, by rw [Condition.eval, hb]; rfl⟩

theorem exists_hold (hr : r.IsComparable) : (cs : List Condition) →
    (∃ b, holdAll r cs = .ok b) ∧ ∃ b, holdAny r cs = .ok b
  | [] => ⟨⟨true, rfl⟩, ⟨false, rfl⟩⟩
  | c :: cs => by
    obtain ⟨b, hb⟩ := c.exists_eval hr
    obtain ⟨⟨every, hevery⟩, ⟨some, hsome⟩⟩ := exists_hold hr cs
    rw [holdAll, holdAny, hb, hevery, hsome]
    cases b <;> exact ⟨⟨_, rfl⟩, ⟨_, rfl⟩⟩

end

theorem exists_evalValue (hr : r.IsComparable) (filter : Value) :
    ∃ b, evalValue r filter = .ok b := by
  rw [evalValue]
  cases Condition.ofValue? filter with
  | none => exact ⟨true, rfl⟩
  | some c => exact c.exists_eval hr

/-! ## Texts that are no expressions -/

/-- A text that is refused as an expression. A blank one is no filter at all and does not count. -/
def IsMalformed (text : String) : Prop :=
  ¬isBlankText text ∧ ∃ fault, parse text = .error fault

/-- The filter that never holds. -/
def never : Value := .map [(.text "or", .list [])]

mutual

/-- The second filter is the first with `never` in the place of some malformed texts, alone or as
items of lists and mappings at any depth. -/
inductive Struck : Value → Value → Prop
  | refl (v : Value) : Struck v v
  | text {s : String} (h : IsMalformed s) : Struck (.text s) never
  | list {vs ws : List Value} (h : StruckItems vs ws) : Struck (.list vs) (.list ws)
  | map {es fs : List (Value × Value)} (h : StruckEntries es fs) : Struck (.map es) (.map fs)

inductive StruckItems : List Value → List Value → Prop
  | nil : StruckItems [] []
  | cons {v w : Value} {vs ws : List Value} (h : Struck v w) (rest : StruckItems vs ws) :
      StruckItems (v :: vs) (w :: ws)

inductive StruckEntries : List (Value × Value) → List (Value × Value) → Prop
  | nil : StruckEntries [] []
  | cons {k v w : Value} {es fs : List (Value × Value)} (h : Struck v w)
      (rest : StruckEntries es fs) : StruckEntries ((k, v) :: es) ((k, w) :: fs)

end

theorem evalText_of_isMalformed (r : Record) {text : String} (h : IsMalformed text) :
    evalText r text = .ok false := by
  obtain ⟨-, fault, hfault⟩ := h
  rw [evalText]
  cases hparse : parse (trim text) with
  | error fault => rfl
  | ok e =>
    rw [parse_trim, hfault] at hparse
    cases hparse

/-- Conditions that evaluate alike make lists that hold alike. -/
theorem hold_congr {cs ds : List Condition}
    (h : cs.map (Condition.eval r) = ds.map (Condition.eval r)) :
    holdAll r cs = holdAll r ds ∧ holdAny r cs = holdAny r ds := by
  induction cs generalizing ds with
  | nil =>
    obtain rfl := List.map_eq_nil_iff.1 h.symm
    exact ⟨rfl, rfl⟩
  | cons c cs ih =>
    obtain ⟨d, ds, rfl, hd, hds⟩ := List.map_eq_cons_iff.1 h.symm
    obtain ⟨hall, hany⟩ := ih hds.symm
    rw [holdAll, holdAll, holdAny, holdAny, hd, hall, hany]
    exact ⟨rfl, rfl⟩

/-- The conditions in the value of a key. -/
def itemsIn : Value → List Condition
  | .list items => Condition.ofValues items
  | v => (Condition.ofValue? v).toList

theorem itemsIn_of_not_list {v : Value} (h : ∀ items, v ≠ .list items) :
    itemsIn v = (Condition.ofValue? v).toList := by
  cases v with
  | list items => exact absurd rfl (h items)
  | _ => rfl

theorem itemsUnder?_cons (key : String) (k v : Value) (es : List (Value × Value)) :
    Condition.itemsUnder? key ((k, v) :: es) =
      if k.text? = some key then some (itemsIn v) else Condition.itemsUnder? key es := by
  cases k with
  | text s => cases v <;> simp [Condition.itemsUnder?, itemsIn, Value.text?]
  | _ => simp [Condition.itemsUnder?, Value.text?]

theorem ofValue?_map_congr {es fs : List (Value × Value)}
    (h : ∀ key, (Condition.itemsUnder? key es).map (List.map (Condition.eval r)) =
      (Condition.itemsUnder? key fs).map (List.map (Condition.eval r))) :
    (Condition.ofValue? (.map es)).map (Condition.eval r) =
      (Condition.ofValue? (.map fs)).map (Condition.eval r) := by
  have hkey (key : String) : (Condition.itemsUnder? key es = none ∧
      Condition.itemsUnder? key fs = none) ∨ ∃ cs ds, Condition.itemsUnder? key es = some cs ∧
        Condition.itemsUnder? key fs = some ds ∧ holdAll r cs = holdAll r ds ∧
          holdAny r cs = holdAny r ds := by
    have h := h key
    cases hes : Condition.itemsUnder? key es <;> cases hfs : Condition.itemsUnder? key fs <;>
      simp only [hes, hfs, Option.map_some, Option.map_none, reduceCtorEq, Option.some.injEq] at h
    · exact .inl ⟨rfl, rfl⟩
    · exact .inr ⟨_, _, rfl, rfl, hold_congr h⟩
  rw [Condition.ofValue?, Condition.ofValue?]
  rcases hkey "and" with ⟨he, hf⟩ | ⟨cs, ds, he, hf, hall, -⟩
  · rcases hkey "or" with ⟨he', hf'⟩ | ⟨cs, ds, he', hf', -, hany⟩
    · rcases hkey "not" with ⟨he'', hf''⟩ | ⟨cs, ds, he'', hf'', -, hany⟩
      · simp only [he, hf, he', hf', he'', hf'']
      · simp only [he, hf, he', hf', he'', hf'', Option.map_some, Condition.eval, hany]
    · simp only [he, hf, he', hf', Option.map_some, Condition.eval, hany]
  · simp only [he, hf, Option.map_some, Condition.eval, hall]

mutual

/-- Striking out changes neither a filter nor the items that it is as the value of a key. -/
theorem Struck.eval_eq (r : Record) : {v w : Value} → Struck v w →
    (Condition.ofValue? v).map (Condition.eval r) = (Condition.ofValue? w).map (Condition.eval r) ∧
      (itemsIn v).map (Condition.eval r) = (itemsIn w).map (Condition.eval r)
  | _, _, .refl v => ⟨rfl, rfl⟩
  | _, _, .text (s := s) h => by
    have hread : (Condition.ofValue? (.text s)).map (Condition.eval r) = some (.ok false) := by
      have hblank : isBlankText s = false := by simpa using h.1
      simp [Condition.ofValue?, hblank, Condition.eval, evalText_of_isMalformed r h]
    refine ⟨hread, ?_⟩
    rw [itemsIn, ← Option.toList_map, hread]
    · rfl
    · simp
  | _, _, .list h => by
    refine ⟨?_, h.eval_eq r⟩
    rw [Condition.ofValue?, Condition.ofValue?, Option.map_some, Option.map_some, Condition.eval,
      Condition.eval, (hold_congr (h.eval_eq r)).1]
  | _, _, .map h => by
    have hmap := ofValue?_map_congr (h.eval_eq r)
    refine ⟨hmap, ?_⟩
    rw [itemsIn_of_not_list (by simp), itemsIn_of_not_list (by simp), ← Option.toList_map, hmap,
      Option.toList_map]

theorem StruckItems.eval_eq (r : Record) : {vs ws : List Value} → StruckItems vs ws →
    (Condition.ofValues vs).map (Condition.eval r) = (Condition.ofValues ws).map (Condition.eval r)
  | _, _, .nil => rfl
  | _, _, .cons h rest => by
    rw [Condition.ofValues, Condition.ofValues, List.map_append, List.map_append, rest.eval_eq r,
      ← Option.toList_map, ← Option.toList_map, (h.eval_eq r).1]

theorem StruckEntries.eval_eq (r : Record) : {es fs : List (Value × Value)} →
    StruckEntries es fs → ∀ key,
    (Condition.itemsUnder? key es).map (List.map (Condition.eval r)) =
      (Condition.itemsUnder? key fs).map (List.map (Condition.eval r))
  | _, _, .nil, key => rfl
  | _, _, .cons h rest, key => by
    rw [itemsUnder?_cons, itemsUnder?_cons]
    split
    · rw [Option.map_some, Option.map_some, (h.eval_eq r).2]
    · exact rest.eval_eq r key

end

/-- Every filter holds or does not, on a record whose values can be compared. On any record a
malformed text does not hold, and it may be replaced by the filter that never holds wherever it
stands. -/
theorem evalValue_answers (r : Record) :
    (r.IsComparable → ∀ filter : Value, filter.isFinite → ∃ b, evalValue r filter = .ok b) ∧
    (∀ text : String, IsMalformed text → evalValue r (.text text) = .ok false) ∧
    evalValue r never = .ok false ∧
    ∀ filter filter' : Value, Struck filter filter' →
      evalValue r filter = evalValue r filter' := by
  have hstruck {filter filter' : Value} (h : Struck filter filter') :
      evalValue r filter = evalValue r filter' := by
    have heval := (h.eval_eq r).1
    rw [evalValue, evalValue]
    cases hv : Condition.ofValue? filter <;> cases hw : Condition.ofValue? filter' <;>
      simp_all [holds]
  refine ⟨fun hr filter _ => exists_evalValue hr filter, fun text h => ?_, rfl,
    fun _ _ => hstruck⟩
  rw [hstruck (.text h)]
  rfl

/-- A record with a nested property. -/
def nestedRecord : Record :=
  { path := "a.md", name := "a", folder := "", extension := ".md", size := 5, created := .ofNat 0,
    modified := .ofNat 0, tags := [], links := [],
    properties := [("m", .map [(.text "k", .list [.int 1, .text "x"])])] }

/-- An operand is missing in one text, and in another a quotation mark. -/
theorem evalValue_answers_unfinished :
    (∃ b, evalValue nestedRecord (.list [.text "m == 1", .map [(.text "not", .text "m <")]]) =
      .ok b) ∧
      evalValue nestedRecord (.text "a &&") = .ok false ∧
      evalValue nestedRecord (.map [(.text "not", .list [.text "a &&", .list [.text "m == 'x"]])]) =
        evalValue nestedRecord (.map [(.text "not", .list [never, .list [never]])]) := by
  obtain ⟨htotal, halone, -, hstruck⟩ := evalValue_answers nestedRecord
  have hcomparable : nestedRecord.IsComparable := ⟨by decide +kernel, by decide +kernel⟩
  have hand : IsMalformed "a &&" :=
    ⟨by decide, toBool_eq_false_iff.1 (by decide +kernel)⟩
  have hquote : IsMalformed "m == 'x" :=
    ⟨by decide, toBool_eq_false_iff.1 (by decide +kernel)⟩
  refine ⟨htotal hcomparable _ (by decide), halone _ hand, hstruck _ _ ?_⟩
  have hitems := StruckItems.cons (.text hand) (.cons (.list (.cons (.text hquote) .nil)) .nil)
  exact .map (.cons (.list hitems) .nil)

/-! ### A property that holds itself -/

/-- Metadata with a mapping that has itself as a value. -/
def anchoredText : String := "---\na: &x \x7bb: *x\x7d\n---\n"

def anchored : Properties := [("a", .map [(.text "b", .enclosing 0)])]

theorem valueOf_anchored : Yaml.valueOf .lenient "\na: &x \x7bb: *x\x7d\n" =
    .ok (.map [(.text "a", .map [(.text "b", .enclosing 0)])]) := by
  have htokens : Yaml.Token.ofText .lenient "\na: &x \x7bb: *x\x7d\n".toList =
      .ok [.blockMappingStart, .key, .scalar "a" true, .value, .anchor "x", .flowMappingStart, .key,
        .scalar "b" true, .value, .alias "x", .flowMappingEnd, .blockEnd] :=
    Yaml.tokens_of_chars rfl (by decide +kernel)
  have hvalue : (Yaml.Node.mapping .map [(.scalar .text "a",
      .mapping .map [(.scalar .text "b", .enclosing 0)])]).value =
      .ok (.map [(.text "a", .map [(.text "b", .enclosing 0)])]) := by
    simp only [Yaml.Node.value, Yaml.valueAt, Yaml.entriesAt, Yaml.merged, Yaml.ownEntries,
      Yaml.scalarOf]
    rfl
  exact (Yaml.valueOf_of_tokens htokens rfl).trans hvalue

theorem frontMatterOf_anchored : Note.frontMatterOf anchoredText = .ok (anchored, "") := by
  have hcut : Note.cutFrontMatter? (Text.trim (Note.plainBreaks anchoredText.toList)) =
      some ("\na: &x \x7bb: *x\x7d\n".toList, []) := by decide +kernel
  rw [Note.frontMatterOf, hcut]
  simp only [String.ofList_toList, valueOf_anchored]
  rfl

/-- A mapping that holds itself is no text to compare with, although all of its keys are texts and
it has no integers. -/
theorem evalValue_anchored :
    Note.frontMatterOf anchoredText = .ok (anchored, "") ∧
      evalValue { nestedRecord with properties := anchored } (.text "a == \"x\"") =
        .error .circular :=
  ⟨frontMatterOf_anchored, by decide +kernel⟩

end MarkdownVault.Filter
