import MarkdownVault.Proofs.Filter.Phrase

/-!
# Texts as literals

Between quotation marks of one kind, with a backslash before every such mark and every backslash,
any text can be written as one lexeme, and that lexeme stands for the text. So a property can be
compared with any text, whatever the text would mean as a filter.
-/

namespace MarkdownVault.Filter

variable {quote : Char} {cs : List Char}

/-! ## Escapes -/

/-- A text with a backslash before every quotation mark of its literal and every backslash. -/
def escape (quote : Char) : List Char → List Char
  | [] => []
  | c :: cs => if c = quote ∨ c = '\\' then '\\' :: c :: escape quote cs else c :: escape quote cs

/-- The literal for a text. -/
def literal (quote : Char) (s : String) : String :=
  String.ofList (quote :: (escape quote s.toList ++ [quote]))

theorem escape_of_notMem (hquote : quote ∉ cs) (hback : '\\' ∉ cs) : escape quote cs = cs := by
  induction cs with
  | nil => rfl
  | cons c cs ih =>
    obtain ⟨hc, hcs⟩ := List.ne_and_not_mem_of_not_mem_cons hquote
    obtain ⟨hc', hcs'⟩ := List.ne_and_not_mem_of_not_mem_cons hback
    rw [escape, if_neg (by simp [hc.symm, hc'.symm]), ih hcs hcs']

/-- A text without marks and backslashes only gets its quotation marks. -/
theorem literal_of_notMem {s : String} (hquote : quote ∉ s.toList) (hback : '\\' ∉ s.toList) :
    literal quote s = String.ofList [quote] ++ s ++ String.ofList [quote] := by
  rw [literal, escape_of_notMem hquote hback, ← String.toList_inj]
  simp

theorem unescape_cons_of_ne {c : Char} (h : c ≠ '\\') (cs : List Char) :
    unescape (c :: cs) = c :: unescape cs := by
  cases cs <;> simp [unescape, h]

theorem literalLength?_cons_of_ne {c : Char} (h : c ≠ '\\') (quote : Char) (cs : List Char) :
    literalLength? quote (c :: cs) =
      if c = quote then some 1 else (literalLength? quote cs).map (· + 1) := by
  cases cs <;> simp [literalLength?, h]

section

variable (hquote : quote ∈ ['"', '\''])
include hquote

theorem ne_break_of_escaped {c : Char} (hc : c = quote ∨ c = '\\') : c ≠ '\n' := by
  rintro rfl
  simp only [List.mem_cons, List.not_mem_nil, or_false] at hquote
  rcases hquote with rfl | rfl <;> exact absurd hc (by decide)

/-- What is escaped never ends a line, so every backslash stands for the character behind it. -/
theorem unescape_escape (cs : List Char) : unescape (escape quote cs) = cs := by
  induction cs with
  | nil => rfl
  | cons c cs ih =>
    rw [escape]
    split
    case isTrue hc =>
      rw [unescape, if_neg (ne_break_of_escaped hquote hc), ih]
    case isFalse hc => rw [unescape_cons_of_ne (fun h => hc (.inr h)), ih]

/-- The first mark that is not escaped is the last one. -/
theorem literalLength?_escape (cs : List Char) :
    literalLength? quote (escape quote cs ++ [quote]) = some ((escape quote cs).length + 1) := by
  induction cs with
  | nil => simp [escape, literalLength?]
  | cons c cs ih =>
    rw [escape]
    split
    case isTrue hc =>
      simp [literalLength?, ne_break_of_escaped hquote hc, ih]
    case isFalse hc =>
      obtain ⟨hc, hc'⟩ := not_or.1 hc
      simp [literalLength?, hc, hc', ih]

end

/-! ## Texts without escapes -/

/-- A text that is its own escape between double quotes. -/
def IsVerbatim (s : String) : Prop := '"' ∉ s.toList ∧ '\\' ∉ s.toList

instance (s : String) : Decidable (IsVerbatim s) := inferInstanceAs (Decidable (_ ∧ _))

theorem literal_of_isVerbatim {s : String} (h : IsVerbatim s) :
    literal '"' s = "\"" ++ s ++ "\"" := literal_of_notMem h.1 h.2

theorem length_unescape_le (cs : List Char) : (unescape cs).length ≤ cs.length := by
  fun_induction unescape cs with
  | case1 cs ih => simpa using ih
  | case2 c cs hc ih =>
    simp only [List.length_cons]
    omega
  | case3 c cs _ ih => simpa using ih
  | case4 => exact Nat.le_refl _

/-- Between quotation marks only a text without such marks and backslashes stands for itself. -/
theorem notMem_of_unescape (hquote : quote ∈ ['"', '\''])
    (hlength : literalLength? quote (cs ++ [quote]) = some (cs.length + 1))
    (h : unescape cs = cs) : quote ∉ cs ∧ '\\' ∉ cs := by
  fun_induction unescape cs with
  | case1 cs ih => simp [literalLength?] at hlength
  | case2 c cs hc ih =>
    -- An escape is shorter than it is written.
    have hle := length_unescape_le cs
    have hsame := congrArg List.length h
    simp only [List.length_cons] at hsame
    omega
  | case3 c cs hescape ih =>
    have hline : quote ≠ '\n' := by
      rintro rfl
      simp at hquote
    have hc : c ≠ '\\' := by
      rintro rfl
      cases cs with
      | nil => simp [literalLength?, hline] at hlength
      | cons d cs => exact hescape d cs rfl rfl
    rw [List.cons_append, literalLength?_cons_of_ne hc] at hlength
    split at hlength
    case isTrue => simp at hlength
    case isFalse hne =>
      obtain ⟨k, hk, hsucc⟩ := Option.map_eq_some_iff.1 hlength
      obtain ⟨hrest, hrest'⟩ := ih (hk.trans (congrArg some (Nat.succ.inj hsucc)))
        (List.cons.inj h).2
      exact ⟨List.not_mem_cons_of_ne_of_not_mem (Ne.symm hne) hrest,
        List.not_mem_cons_of_ne_of_not_mem hc.symm hrest'⟩
  | case4 => simp

/-! ## Literals as lexemes -/

theorem lexeme?_quote (hquote : quote ∈ ['"', '\'']) (cs : List Char) :
    lexeme? (quote :: cs) = (literalLength? quote cs).map fun n => (some .literal, n + 1) := by
  simp only [List.mem_cons, List.not_mem_nil, or_false] at hquote
  rcases hquote with rfl | rfl <;> rfl

theorem unquote_quoted (quote : Char) (cs : List Char) :
    unquote (String.ofList (quote :: (cs ++ [quote]))) = String.ofList (unescape cs) := by
  rw [unquote, mapChars, String.toList_ofList, List.drop_one, List.tail_cons, List.dropLast_concat]

theorem unquote_literal (hquote : quote ∈ ['"', '\'']) (s : String) :
    unquote (literal quote s) = s := by
  rw [literal, unquote_quoted, unescape_escape hquote, String.ofList_toList]

theorem lexeme?_literal (hquote : quote ∈ ['"', '\'']) (s : String) :
    lexeme? (literal quote s).toList = some (some .literal, (literal quote s).length) := by
  have hlength : (literal quote s).length = (escape quote s.toList).length + 1 + 1 := by
    simp [literal, Nat.add_comm]
  rw [hlength, literal, String.toList_ofList, lexeme?_quote hquote, literalLength?_escape hquote,
    Option.map_some]

/-- A literal is one token. -/
theorem tokenize_literal (hquote : quote ∈ ['"', '\'']) (s : String) :
    tokenize (literal quote s) =
      .ok [⟨.literal, literal quote s, 0, (literal quote s).length⟩] := by
  rw [tokenize, tokensFrom_of_lexeme (lexeme?_literal hquote s), ← String.length_toList,
    List.drop_length, List.take_length, String.ofList_toList, tokensFrom_nil, Nat.zero_add]
  rfl

theorem written_literal (hquote : quote ∈ ['"', '\'']) (s : String) :
    (literalToken (literal quote s)).Written := by
  rw [ValueToken.Written, lexemes?, literalToken, ← tokenize, tokenize_literal hquote]
  rfl

/-- A text between quotation marks that is one lexeme ends at the last of them. -/
theorem literalLength?_of_lexemes? (hquote : quote ∈ ['"', '\'']) {l : TokenKind × String}
    (h : lexemes? (quote :: (cs ++ [quote])) = some [l]) :
    literalLength? quote (cs ++ [quote]) = some (cs.length + 1) ∧
      l = (.literal, String.ofList (quote :: (cs ++ [quote]))) := by
  cases hlength : literalLength? quote (cs ++ [quote]) with
  | none =>
    rw [lexemes?_of_none (by rw [lexeme?_quote hquote, hlength, Option.map_none])] at h
    cases h
  | some n =>
    have hlexeme : lexeme? (quote :: (cs ++ [quote])) = some (some .literal, n + 1) := by
      rw [lexeme?_quote hquote, hlength, Option.map_some]
    have hle := literalLength?_le hlength
    rw [lexemes?_of_lexeme hlexeme] at h
    obtain ⟨ms, hms, hcons⟩ := Option.map_eq_some_iff.1 h
    obtain ⟨rfl, rfl⟩ := List.cons.inj hcons
    have hn : n = cs.length + 1 := by
      rw [List.length_append, List.length_singleton] at hle
      by_contra hne
      -- Else the last mark is left over, and it is not blank.
      have hmem : quote ∈ (cs ++ [quote]).drop n := by
        rw [List.drop_append_of_le_length (by omega)]
        simp
      have hblank := isBlank_of_lexemes?_nil hms quote hmem
      simp only [List.mem_cons, List.not_mem_nil, or_false] at hquote
      rcases hquote with rfl | rfl <;> exact absurd hblank (by decide)
    subst hn
    refine ⟨rfl, ?_⟩
    rw [List.take_of_length_le (by simp)]

section

variable {word : String} (hquote : quote ∈ ['"', '\'']) (s : String)
include hquote

theorem asText_literal (r : Record) :
    ((literalToken (literal quote s)).1.operand.value r).asText = .ok s :=
  congrArg Except.ok (unquote_literal hquote s)

variable (hword : IsWord word)
include hword

theorem means_equal_literal : Means .unary (word ++ " == " ++ literal quote s)
    (fun r => ((wordOperand word).value r).asText.map fun text => text == s) := by
  have hequal := Means.equal hword (written_literal hquote s)
  simp only [compare_equal (asText_literal hquote s _)] at hequal
  exact hequal

theorem means_unequal_literal : Means .unary (word ++ " != " ++ literal quote s)
    (fun r => ((wordOperand word).value r).asText.map fun text => text != s) := by
  have hunequal := Means.unequal hword (written_literal hquote s)
  simp only [compare_unequal (asText_literal hquote s _)] at hunequal
  exact hunequal

end

/-- A comparison with a text that is written without escapes. -/
theorem means_equal_verbatim {word s : String} (hword : IsWord word) (h : IsVerbatim s) :
    Means .unary (word ++ " == \"" ++ s ++ "\"")
      (fun r => ((wordOperand word).value r).asText.map fun text => text == s) := by
  have htext : word ++ " == \"" ++ s ++ "\"" = word ++ " == " ++ literal '"' s := by
    rw [← String.toList_inj]
    simp [literal_of_isVerbatim h]
  rw [htext]
  exact means_equal_literal (by decide) s hword

/-- A call with one argument that is written without escapes. -/
theorem means_call_verbatim {name s : String} (hname : IsWord name) (h : IsVerbatim s) :
    Means .unary (name ++ "(\"" ++ s ++ "\")")
      (fun r => call r name [.constant (.text s) (literal '"' s)]) := by
  have htext : name ++ "(\"" ++ s ++ "\")" = name ++ "(" ++ literal '"' s ++ ")" := by
    rw [← String.toList_inj]
    simp [literal_of_isVerbatim h]
  have hcall := Means.call hname (written_literal (by decide : '"' ∈ ['"', '\'']) s)
  rw [operand_literalToken, unquote_literal (by decide)] at hcall
  rw [htext]
  exact hcall

/-- A text between double quotes behind a comparison sign: without connectives it can only be read
as a comparison with one literal, whether its marks and backslashes are escaped or not. -/
theorem eval_of_writes_quoted {word body : String} {op : Comparison} {d : Derivation (.row .and)}
    (hword : IsWord word) (h : Writes (word ++ " " ++ op.symbol ++ " \"" ++ body ++ "\"") d)
    (hplain : ∀ c : Connective, ¬c.symbol.toList <:+:
      (word ++ " " ++ op.symbol ++ " \"" ++ body ++ "\"").toList) :
    literalLength? '"' (body.toList ++ ['"']) = some (body.toList.length + 1) ∧
      ∀ r, d.tree.eval r =
        op.compare ((wordOperand word).value r) (.text (String.ofList (unescape body.toList))) := by
  have htoList : (word ++ " " ++ op.symbol ++ " \"" ++ body ++ "\"").toList =
      word.toList ++ ' ' :: (op.symbol.toList ++ ' ' :: '"' :: (body.toList ++ ['"'])) := by simp
  have hlexemes : lexemes? _ = _ := h
  rw [htoList, lexemes?_spaced (lexemes?_word hword), lexemes?_spaced (lexemes?_symbol op),
    Option.map_map, Option.map_eq_some_iff] at hlexemes
  obtain ⟨ls, hls, hyield⟩ : ∃ ls, lexemes? ('"' :: (body.toList ++ ['"'])) = some ls ∧
      (.word, word) :: (.op, op.symbol) :: ls = d.yield.map Token.lexeme := hlexemes
  have hnone (c : Connective) (s : String) : (c.kind, s) ∉ ls := fun hmem =>
    hplain c (infix_of_mem_lexemes? h
      (hyield ▸ List.mem_cons_of_mem _ (List.mem_cons_of_mem _ hmem)))
  obtain ⟨left, sign, right, rfl⟩ := eq_compare_of_yield hyield.symm hnone
  obtain ⟨hleft, hrest⟩ := List.cons.inj hyield
  obtain ⟨hsign, rfl⟩ := List.cons.inj hrest
  obtain ⟨hlength, hright⟩ := literalLength?_of_lexemes? (by decide) hls
  refine ⟨hlength, fun r => ?_⟩
  have hleft : left.1.operand = wordOperand word :=
    Token.operand_of_lexeme (t := (wordToken word).1) hleft.symm
  have hsign : sign.1.text = op.symbol := (congrArg Prod.snd hsign).symm
  have hright : right.1.operand.value r = .text (String.ofList (unescape body.toList)) := by
    rw [Token.operand_of_lexeme (t := (literalToken (String.ofList _)).1) hright,
      operand_literalToken, Operand.value, unquote_quoted]
  change Comparison.compare (.ofSymbol sign.1.text) (left.1.operand.value r)
    (right.1.operand.value r) = _
  rw [hsign, Comparison.ofSymbol_symbol, hleft, hright]

/-- The literal for a text is one token and stands for the text. A property is compared with the
text itself, whatever the text holds: `==` asks whether the property has this text and `!=` whether
it has another one. Both fail where the property has no text. -/
theorem literal_denotes (quote : Char) (hquote : quote ∈ ['"', '\'']) (s : String) :
    (∃ t : Token, tokenize (literal quote s) = .ok [t] ∧ t.kind = .literal ∧
      operand [t] = .ok (.constant (.text s) (literal quote s))) ∧
    ∀ p, IsPropertyWord p → ∀ r : Record,
      evalValue r (.text (p ++ " == " ++ literal quote s)) =
        (r.noteProperty p).asText.map (fun text => text == s) ∧
      evalValue r (.text (p ++ " != " ++ literal quote s)) =
        (r.noteProperty p).asText.map (fun text => text != s) := by
  constructor
  · refine ⟨_, tokenize_literal hquote s, rfl, ?_⟩
    rw [operand_singleton (.inl rfl), Token.operand, if_pos rfl, unquote_literal hquote]
  · intro p hp r
    have hequal := (means_equal_literal hquote s hp.isWord).alone.evalValue r
    have hunequal := (means_unequal_literal hquote s hp.isWord).alone.evalValue r
    rw [hp.wordOperand_eq] at hequal hunequal
    exact ⟨hequal, hunequal⟩

/-- A backslash before a quotation mark, an operator, a comma, a line feed and a parenthesis. -/
def hostileTitle : String := "x\\\" || y,\n("

/-- A record with this title. -/
def hostileRecord : Record :=
  { path := "a.md", name := "a", folder := "", extension := ".md", size := 5, created := .ofNat 0,
    modified := .ofNat 0, tags := [], links := [], properties := [("title", .text hostileTitle)] }

theorem literal_denotes_hostile :
    literal '"' hostileTitle = "\"x\\\\\\\" || y,\n(\"" ∧
      (∃ t : Token, tokenize (literal '"' hostileTitle) = .ok [t] ∧ t.kind = .literal ∧
        operand [t] = .ok (.constant (.text hostileTitle) (literal '"' hostileTitle))) ∧
      evalValue hostileRecord (.text ("title" ++ " == " ++ literal '"' hostileTitle)) = .ok true ∧
      evalValue hostileRecord (.text ("title" ++ " != " ++ literal '"' hostileTitle)) =
        .ok false := by
  obtain ⟨htoken, hcompare⟩ := literal_denotes '"' (by decide) hostileTitle
  have htitle : IsPropertyWord "title" := ⟨by decide, by decide, by decide, by decide⟩
  exact ⟨by decide, htoken, hcompare "title" htitle hostileRecord⟩

end MarkdownVault.Filter
