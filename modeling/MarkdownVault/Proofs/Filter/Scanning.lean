import MarkdownVault.Proofs.Filter.Literal
import MarkdownVault.Proofs.Text.Cutting

/-!
# What a scan reads and where it stops

A scan takes one lexeme after the other off the front of a text. Each is as long as its class
allows, so what stands in front decides it, and there is none only in front of half an operator or
of a quotation mark without a second one. The tokens are the lexemes at their places, and nothing
but blanks lies between them.
-/

namespace MarkdownVault.Filter

variable {c quote : Char} {cs s rest : List Char} {kind : Option TokenKind} {n position : Nat}
  {ts : List Token}

/-! ## Quoted literals -/

/-- What may stand between two quotation marks of a kind: characters other than the mark and the
backslash, and backslashes with the character behind, which is no line feed. -/
inductive Quotable (quote : Char) : List Char → Prop
  | nil : Quotable quote []
  | plain {c : Char} {cs : List Char} (hquote : c ≠ quote) (hback : c ≠ '\\')
      (hrest : Quotable quote cs) : Quotable quote (c :: cs)
  | escaped {c : Char} {cs : List Char} (hbreak : c ≠ '\n') (hrest : Quotable quote cs) :
      Quotable quote ('\\' :: c :: cs)

/-- A text behind a quotation mark holds the second mark. -/
def Closed (quote : Char) (cs : List Char) : Prop :=
  ∃ body rest, cs = body ++ quote :: rest ∧ Quotable quote body

theorem ne_backslash (hquote : quote ∈ ['"', '\'']) : quote ≠ '\\' := by
  rintro rfl
  simp at hquote

theorem literalLength?_of_quotable (hback : quote ≠ '\\') (h : Quotable quote s)
    (rest : List Char) : literalLength? quote (s ++ quote :: rest) = some (s.length + 1) := by
  induction h with
  | nil => simp [literalLength?_cons_of_ne hback]
  | plain hquote hback _ ih =>
    rw [List.cons_append, literalLength?_cons_of_ne hback, if_neg hquote, ih]
    rfl
  | escaped hbreak _ ih =>
    rw [List.cons_append, List.cons_append, literalLength?, if_neg hbreak, ih]
    rfl

theorem exists_quotable (h : literalLength? quote cs = some n) :
    ∃ body rest, cs = body ++ quote :: rest ∧ Quotable quote body ∧ n = body.length + 1 := by
  fun_induction literalLength? quote cs generalizing n with
  | case1 | case2 | case5 => cases h
  | case3 c cs hbreak ih =>
    obtain ⟨k, hk, rfl⟩ := Option.map_eq_some_iff.1 h
    obtain ⟨body, rest, rfl, hbody, rfl⟩ := ih hk
    exact ⟨'\\' :: c :: body, rest, rfl, .escaped hbreak hbody, rfl⟩
  | case4 cs =>
    cases h
    exact ⟨[], cs, rfl, .nil, rfl⟩
  | case6 c cs _ hquote hback ih =>
    obtain ⟨k, hk, rfl⟩ := Option.map_eq_some_iff.1 h
    obtain ⟨body, rest, rfl, hbody, rfl⟩ := ih hk
    exact ⟨c :: body, rest, rfl, .plain hquote hback hbody, rfl⟩

theorem literalLength?_eq_none (h : ¬Closed quote cs) : literalLength? quote cs = none := by
  cases hlength : literalLength? quote cs with
  | none => rfl
  | some n =>
    obtain ⟨body, rest, hcs, hbody, -⟩ := exists_quotable hlength
    exact absurd ⟨body, rest, hcs, hbody⟩ h

/-! ## The first lexeme -/

/-- A text of this class that ends where the rest begins: what follows cannot be a part of it. -/
inductive Lexeme : Option TokenKind → List Char → List Char → Prop
  | blanks {s rest : List Char} (hne : s ≠ []) (hblank : ∀ c ∈ s, Text.isBlank c)
      (hend : ∀ c ∈ rest.head?, Text.isBlank c = false) : Lexeme none s rest
  | word {s rest : List Char} (hne : s ≠ []) (hpart : ∀ c ∈ s, isWordPart c)
      (hend : ∀ c ∈ rest.head?, isWordPart c = false) : Lexeme (some .word) s rest
  | and {rest : List Char} : Lexeme (some .and) ['&', '&'] rest
  | or {rest : List Char} : Lexeme (some .or) ['|', '|'] rest
  | wideOp {c : Char} {rest : List Char} (hc : c ∈ ['=', '!', '>', '<']) :
      Lexeme (some .op) [c, '='] rest
  | op {c : Char} {rest : List Char} (hc : c ∈ ['>', '<']) (hend : rest.head? ≠ some '=') :
      Lexeme (some .op) [c] rest
  | not {rest : List Char} (hend : rest.head? ≠ some '=') : Lexeme (some .not) ['!'] rest
  | lparen {rest : List Char} : Lexeme (some .lparen) ['('] rest
  | rparen {rest : List Char} : Lexeme (some .rparen) [')'] rest
  | comma {rest : List Char} : Lexeme (some .comma) [','] rest
  | literal {quote : Char} {body rest : List Char} (hquote : quote ∈ ['"', '\''])
      (hbody : Quotable quote body) : Lexeme (some .literal) (quote :: (body ++ [quote])) rest

/-- A text that begins with half an operator, or with a quotation mark that stands alone. -/
inductive Stray : List Char → Prop
  | sign {c : Char} {cs : List Char} (hc : c ∈ ['&', '|', '=']) (hnext : cs.head? ≠ some c) :
      Stray (c :: cs)
  | quote {quote : Char} {cs : List Char} (hquote : quote ∈ ['"', '\''])
      (hopen : ¬Closed quote cs) : Stray (quote :: cs)

/-- The first lexeme is found, whatever stands behind it. -/
theorem Lexeme.lexeme?_eq (h : Lexeme kind s rest) :
    lexeme? (s ++ rest) = some (kind, s.length) := by
  cases h with
  | blanks hne hblank hend =>
    obtain ⟨c, s, rfl⟩ := List.exists_cons_of_ne_nil hne
    obtain ⟨hc, hs⟩ := List.forall_mem_cons.1 hblank
    rw [List.cons_append, lexeme?_blank hc, (Text.span_of_ends hs hend).1,
      List.length_cons]
  | word hne hpart hend =>
    obtain ⟨c, s, rfl⟩ := List.exists_cons_of_ne_nil hne
    obtain ⟨hc, hs⟩ := List.forall_mem_cons.1 hpart
    rw [List.cons_append, lexeme?_of_isWordPart hc, (Text.span_of_ends hs hend).1,
      List.length_cons]
  | and | or | lparen | rparen | comma => rfl
  | wideOp hc =>
    simp only [List.mem_cons, List.not_mem_nil, or_false] at hc
    rcases hc with rfl | rfl | rfl | rfl <;> rfl
  | op hc hend =>
    simp only [List.mem_cons, List.not_mem_nil, or_false] at hc
    rcases hc with rfl | rfl <;> simp [lexeme?_cons, hend]
  | not hend => simp [lexeme?_cons, hend]
  | literal hquote hbody =>
    rw [List.cons_append, lexeme?_quote hquote, List.append_assoc, List.singleton_append,
      literalLength?_of_quotable (ne_backslash hquote) hbody]
    simp

theorem Stray.lexeme?_eq (h : Stray cs) : lexeme? cs = none := by
  cases h with
  | sign hc hnext =>
    simp only [List.mem_cons, List.not_mem_nil, or_false] at hc
    rcases hc with rfl | rfl | rfl <;> simp +decide [lexeme?_cons, hnext]
  | quote hquote hopen =>
    rw [lexeme?_quote hquote, literalLength?_eq_none hopen, Option.map_none]

/-- Whatever a text begins with, it is a lexeme or stray. -/
theorem exists_lexeme_or_stray (c : Char) (cs : List Char) :
    (∃ kind s rest, c :: cs = s ++ rest ∧ Lexeme kind s rest) ∨ Stray (c :: cs) := by
  by_cases hblank : Text.isBlank c
  · refine .inl ⟨none, c :: cs.takeWhile Text.isBlank, cs.dropWhile Text.isBlank, by simp, ?_⟩
    refine .blanks (List.cons_ne_nil _ _) ?_ (Text.head?_dropWhile cs)
    exact List.forall_mem_cons.2 ⟨hblank, fun d hd => List.mem_takeWhile_imp hd⟩
  by_cases hpart : isWordPart c
  · refine .inl ⟨some .word, c :: cs.takeWhile isWordPart, cs.dropWhile isWordPart, by simp, ?_⟩
    refine .word (List.cons_ne_nil _ _) ?_ (Text.head?_dropWhile cs)
    exact List.forall_mem_cons.2 ⟨hpart, fun d hd => List.mem_takeWhile_imp hd⟩
  by_cases hquote : c ∈ ['"', '\'']
  · by_cases hclosed : Closed c cs
    · obtain ⟨body, rest, rfl, hbody⟩ := hclosed
      exact .inl ⟨_, _, rest, by simp, .literal hquote hbody⟩
    · exact .inr (.quote hquote hclosed)
  -- All others stand for themselves or are decided by the character behind them.
  have hc : c ∈ ['(', ')', ',', '!', '<', '>', '&', '|', '='] := by
    simp only [isWordPart, hblank, List.contains_eq_mem, List.mem_cons] at hpart hquote ⊢
    grind
  have hnext (d : Char) : cs.head? ≠ some d ∨ ∃ rest, cs = d :: rest := by
    rw [← List.head?_eq_some_iff]
    exact (em _).symm
  simp only [List.mem_cons, List.not_mem_nil, or_false] at hc
  rcases hc with rfl | rfl | rfl | rfl | rfl | rfl | rfl | rfl | rfl
  · exact .inl ⟨_, ['('], cs, rfl, .lparen⟩
  · exact .inl ⟨_, [')'], cs, rfl, .rparen⟩
  · exact .inl ⟨_, [','], cs, rfl, .comma⟩
  · rcases hnext '=' with hend | ⟨rest, rfl⟩
    · exact .inl ⟨_, ['!'], cs, rfl, .not hend⟩
    · exact .inl ⟨_, ['!', '='], rest, rfl, .wideOp (by decide)⟩
  · rcases hnext '=' with hend | ⟨rest, rfl⟩
    · exact .inl ⟨_, ['<'], cs, rfl, .op (by decide) hend⟩
    · exact .inl ⟨_, ['<', '='], rest, rfl, .wideOp (by decide)⟩
  · rcases hnext '=' with hend | ⟨rest, rfl⟩
    · exact .inl ⟨_, ['>'], cs, rfl, .op (by decide) hend⟩
    · exact .inl ⟨_, ['>', '='], rest, rfl, .wideOp (by decide)⟩
  · rcases hnext '&' with hend | ⟨rest, rfl⟩
    · exact .inr (.sign (by decide) hend)
    · exact .inl ⟨_, ['&', '&'], rest, rfl, .and⟩
  · rcases hnext '|' with hend | ⟨rest, rfl⟩
    · exact .inr (.sign (by decide) hend)
    · exact .inl ⟨_, ['|', '|'], rest, rfl, .or⟩
  · rcases hnext '=' with hend | ⟨rest, rfl⟩
    · exact .inr (.sign (by decide) hend)
    · exact .inl ⟨_, ['=', '='], rest, rfl, .wideOp (by decide)⟩

theorem Lexeme.ne_nil (h : Lexeme kind s rest) : s ≠ [] := by
  cases h with
  | blanks hne | word hne => exact hne
  | _ => exact List.cons_ne_nil _ _

/-! ## Scans -/

/-- A scan that begins at a position has read these tokens of the text, and the rest stands before
it. -/
inductive Scan : Nat → List Char → List Token → List Char → Prop
  | start {position : Nat} {cs : List Char} : Scan position cs [] cs
  | blanks {position : Nat} {s cs rest : List Char} {ts : List Token} (hblanks : Lexeme none s cs)
      (hrest : Scan (position + s.length) cs ts rest) : Scan position (s ++ cs) ts rest
  | token {position : Nat} {kind : TokenKind} {s cs rest : List Char} {ts : List Token}
      (hlexeme : Lexeme (some kind) s cs) (hrest : Scan (position + s.length) cs ts rest) :
      Scan position (s ++ cs)
        (⟨kind, String.ofList s, position, position + s.length⟩ :: ts) rest

theorem tokensFrom_append_of_blanks (h : Lexeme none s cs) (position : Nat) :
    tokensFrom position (s ++ cs) = tokensFrom (position + s.length) cs := by
  rw [tokensFrom_of_blank h.lexeme?_eq, List.drop_left]

theorem tokensFrom_append_of_lexeme {kind : TokenKind} (h : Lexeme (some kind) s cs)
    (position : Nat) : tokensFrom position (s ++ cs) =
      (tokensFrom (position + s.length) cs).map
        (⟨kind, String.ofList s, position, position + s.length⟩ :: ·) := by
  rw [tokensFrom_of_lexeme h.lexeme?_eq, List.drop_left, List.take_left]

/-- What a scan has read are the first tokens, and the others come from the rest. -/
theorem Scan.exists_tokensFrom (h : Scan position cs ts rest) : ∃ stop,
    tokensFrom position cs = (tokensFrom stop rest).map (ts ++ ·) := by
  induction h with
  | @start position cs =>
    refine ⟨position, ?_⟩
    cases tokensFrom position cs <;> rfl
  | blanks hblanks _ ih =>
    obtain ⟨stop, ih⟩ := ih
    exact ⟨stop, by rw [tokensFrom_append_of_blanks hblanks, ih]⟩
  | @token position kind s cs rest ts hlexeme _ ih =>
    obtain ⟨stop, ih⟩ := ih
    refine ⟨stop, ?_⟩
    rw [tokensFrom_append_of_lexeme hlexeme, ih]
    cases tokensFrom stop rest <;> rfl

/-- Every scan comes to the end of the text or to a place where no lexeme begins. -/
theorem exists_scan (position : Nat) (cs : List Char) :
    ∃ ts rest, Scan position cs ts rest ∧ (rest = [] ∨ Stray rest) := by
  induction hlength : cs.length using Nat.strongRecOn generalizing cs position with
  | _ length ih =>
    cases cs with
    | nil => exact ⟨[], [], .start, .inl rfl⟩
    | cons c cs =>
      rcases exists_lexeme_or_stray c cs with ⟨kind, s, after, hcs, hlexeme⟩ | hstray
      · have hpos := List.length_pos_iff.2 hlexeme.ne_nil
        have hshorter : after.length < length := by
          rw [← hlength, hcs, List.length_append]
          omega
        obtain ⟨ts, rest, hscan, hend⟩ := ih _ hshorter (position + s.length) after rfl
        rw [hcs]
        cases kind with
        | none => exact ⟨ts, rest, .blanks hlexeme hscan, hend⟩
        | some kind => exact ⟨_, rest, .token hlexeme hscan, hend⟩
      · exact ⟨[], c :: cs, .start, .inr hstray⟩

theorem Scan.tokensFrom_eq_ok (h : Scan position cs ts []) : tokensFrom position cs = .ok ts := by
  obtain ⟨stop, htokens⟩ := h.exists_tokensFrom
  rw [htokens, tokensFrom_nil]
  exact congrArg Except.ok (List.append_nil ts)

theorem Scan.exists_fault (h : Scan position cs ts rest) (hstray : Stray rest) :
    ∃ fault, tokensFrom position cs = .error fault := by
  obtain ⟨stop, htokens⟩ := h.exists_tokensFrom
  obtain ⟨c, rest, rfl⟩ : ∃ c after, rest = c :: after := by cases hstray <;> exact ⟨_, _, rfl⟩
  rw [htokens, tokensFrom_of_none hstray.lexeme?_eq]
  exact ⟨_, rfl⟩

theorem tokensFrom_eq_ok_iff : tokensFrom position cs = .ok ts ↔ Scan position cs ts [] := by
  refine ⟨fun h => ?_, Scan.tokensFrom_eq_ok⟩
  obtain ⟨us, rest, hscan, rfl | hstray⟩ := exists_scan position cs
  · cases h.symm.trans hscan.tokensFrom_eq_ok
    exact hscan
  · obtain ⟨fault, hfault⟩ := hscan.exists_fault hstray
    cases h.symm.trans hfault

theorem tokensFrom_fails_iff : (∃ fault, tokensFrom position cs = .error fault) ↔
    ∃ ts rest, Scan position cs ts rest ∧ Stray rest := by
  constructor
  · rintro ⟨fault, hfault⟩
    obtain ⟨ts, rest, hscan, rfl | hstray⟩ := exists_scan position cs
    · cases hfault.symm.trans hscan.tokensFrom_eq_ok
    · exact ⟨ts, rest, hscan, hstray⟩
  · rintro ⟨ts, rest, hscan, hstray⟩
    exact hscan.exists_fault hstray

/-! ## Places of tokens -/

/-- From a place on a text consists of the tokens and of blanks. -/
structure Covers (text : List Char) (start : Nat) (ts : List Token) : Prop where
  apart : ts.Pairwise fun t u => t.stop ≤ u.start
  inside : ∀ t ∈ ts, start ≤ t.start ∧ t.start < t.stop ∧ t.stop ≤ text.length
  slice : ∀ t ∈ ts, t.text ≠ "" ∧ t.text.toList = (text.drop t.start).take (t.stop - t.start)
  blank : ∀ i c, start ≤ i → text[i]? = some c → (∀ t ∈ ts, ¬(t.start ≤ i ∧ i < t.stop)) →
    Text.isBlank c

namespace Covers

variable {text : List Char} {start : Nat} {before : List Char}

theorem of_blanks (h : Covers (before ++ s ++ cs) (before ++ s).length ts)
    (hblank : ∀ c ∈ s, Text.isBlank c) : Covers (before ++ s ++ cs) before.length ts where
  apart := h.apart
  slice := h.slice
  inside t ht := by
    obtain ⟨hstart, hstop⟩ := h.inside t ht
    rw [List.length_append] at hstart
    exact ⟨by omega, hstop⟩
  blank i c hi hc hout := by
    by_cases hplace : (before ++ s).length ≤ i
    · exact h.blank i c hplace hc hout
    · rw [List.getElem?_append_left (by omega), List.getElem?_append_right hi] at hc
      exact hblank c (List.mem_of_getElem? hc)

theorem of_token {t : Token} (h : Covers (before ++ s ++ cs) (before ++ s).length ts)
    (hne : s ≠ []) (htext : t.text = String.ofList s) (hstart : t.start = before.length)
    (hstop : t.stop = before.length + s.length) :
    Covers (before ++ s ++ cs) before.length (t :: ts) := by
  have hpos := List.length_pos_iff.2 hne
  have hinside := h.inside
  simp only [List.length_append] at hinside
  constructor
  · refine List.pairwise_cons.2 ⟨fun u hu => ?_, h.apart⟩
    have := (hinside u hu).1
    omega
  · refine List.forall_mem_cons.2 ⟨?_, fun u hu => ?_⟩
    · simp only [List.length_append]
      omega
    · have := hinside u hu
      simp only [List.length_append]
      omega
  · refine List.forall_mem_cons.2 ⟨⟨?_, ?_⟩, h.slice⟩
    · rw [htext]
      simpa using hne
    · have hlength : before.length + s.length - before.length = s.length := by omega
      rw [htext, hstart, hstop, hlength, List.append_assoc, List.drop_left, List.take_left,
        String.toList_ofList]
  · intro i c hi hc hout
    obtain ⟨ht, hts⟩ := List.forall_mem_cons.1 hout
    refine h.blank i c ?_ hc hts
    rw [List.length_append]
    omega

end Covers

theorem Scan.covers (h : Scan position cs ts rest) (hend : rest = []) {before : List Char}
    (hbefore : before.length = position) : Covers (before ++ cs) before.length ts := by
  induction h generalizing before with
  | start =>
    refine ⟨.nil, nofun, nofun, fun i c hi hc _ => ?_⟩
    rw [hend, List.append_nil, List.getElem?_eq_none hi] at hc
    cases hc
  | @blanks position s cs rest ts hblanks _ ih =>
    have hlength : (before ++ s).length = position + s.length := by
      rw [List.length_append, hbefore]
    have hrest := ih hend hlength
    rw [← List.append_assoc]
    cases hblanks with
    | blanks _ hblank _ => exact hrest.of_blanks hblank
  | @token position kind s cs rest ts hlexeme _ ih =>
    have hlength : (before ++ s).length = position + s.length := by
      rw [List.length_append, hbefore]
    have hrest := ih hend hlength
    rw [← List.append_assoc]
    exact hrest.of_token hlexeme.ne_nil rfl hbefore.symm (by rw [hbefore])

/-- The tokens of a text lie one behind the other; each is the part of the text between its places
and is not empty, and what lies outside of them is blank. There are none exactly if the scan comes
to half an operator or to a quotation mark that is never closed. -/
theorem tokenize_covers (text : String) :
    (∃ ts rest, Scan 0 text.toList ts rest ∧ (rest = [] ∨ Stray rest)) ∧
    (∀ ts, tokenize text = .ok ts → Scan 0 text.toList ts [] ∧ Covers text.toList 0 ts) ∧
    ((∃ fault, tokenize text = .error fault) ↔
      ∃ ts rest, Scan 0 text.toList ts rest ∧ Stray rest) := by
  refine ⟨exists_scan 0 text.toList, fun ts h => ?_, tokensFrom_fails_iff⟩
  have hscan := tokensFrom_eq_ok_iff.1 h
  have hcovers : Covers ([] ++ text.toList) 0 ts := hscan.covers rfl rfl
  exact ⟨hscan, hcovers⟩

end MarkdownVault.Filter
