import Mathlib.Data.List.Forall2
import MarkdownVault.Proofs.Filter.Nesting
import MarkdownVault.Proofs.Filter.Scanning

/-!
# Cutting a text and cutting its tokens

The text of a filter is cut at the same separators as its tokens. No lexeme reaches over a
separator, so what is cut off before a piece or behind it changes nothing in it: the pieces have the
lexemes of the parts in their places, and joined again they have those of the whole.
-/

namespace MarkdownVault.Filter

/-- What a text may be cut at. -/
inductive Separator where
  | and
  | or
  | comma

namespace Separator

def kind : Separator → TokenKind
  | and => .and
  | or => .or
  | comma => .comma

def symbol : Separator → String
  | and => "&&"
  | or => "||"
  | comma => ","

end Separator

variable {cs ds s rest : List Char} {kind : Option TokenKind} {position : Nat}
  {ts us : List Token} {t : Token} {c : Separator}

/-! ## What stands behind a lexeme -/

/-- A character that is no part of any lexeme that ends in front of it. -/
def IsBound (c : Char) : Prop := Text.isBlank c = false ∧ isWordPart c = false ∧ c ≠ '='

instance : DecidablePred IsBound := fun _ => inferInstanceAs (Decidable (_ ∧ _ ∧ _))

/-- Where a lexeme ends is decided by the one character behind it. -/
theorem Lexeme.of_head? (h : Lexeme kind s rest)
    (hhead : ∀ c ∈ ds.head?, c ∈ rest.head? ∨ IsBound c) : Lexeme kind s ds := by
  have hequals (hend : rest.head? ≠ some '=') : ds.head? ≠ some '=' := by
    intro hds
    rcases hhead '=' hds with hrest | hbound
    · exact hend hrest
    · exact hbound.2.2 rfl
  cases h with
  | blanks hne hblank hend =>
    refine .blanks hne hblank fun c hc => ?_
    rcases hhead c hc with hc | hbound
    · exact hend c hc
    · exact hbound.1
  | word hne hpart hend =>
    refine .word hne hpart fun c hc => ?_
    rcases hhead c hc with hc | hbound
    · exact hend c hc
    · exact hbound.2.1
  | and => exact .and
  | or => exact .or
  | wideOp hc => exact .wideOp hc
  | op hc hend => exact .op hc (hequals hend)
  | not hend => exact .not (hequals hend)
  | lparen => exact .lparen
  | rparen => exact .rparen
  | comma => exact .comma
  | literal hquote hbody => exact .literal hquote hbody

/-- A lexeme stays what it is if the text is cut off somewhere behind it. -/
theorem Lexeme.of_append (h : Lexeme kind s (rest ++ ds)) : Lexeme kind s rest :=
  h.of_head? fun _ hc => .inl (List.mem_head?_append_of_mem_head? hc)

/-- A lexeme stays what it is if the text goes on with a bound. -/
theorem Lexeme.append (h : Lexeme kind s rest) (hbound : ∀ c ∈ ds.head?, IsBound c) :
    Lexeme kind s (rest ++ ds) := by
  refine h.of_head? fun c hc => ?_
  cases rest with
  | nil => exact .inr (hbound c hc)
  | cons => exact .inl hc

/-! ## Scans of parts -/

/-- Two scans one behind the other. -/
theorem Scan.append (h : Scan position cs ts []) (hbound : ∀ c ∈ ds.head?, IsBound c)
    (hrest : Scan (position + cs.length) ds us rest) :
    Scan position (cs ++ ds) (ts ++ us) rest := by
  generalize hend : ([] : List Char) = stop at h
  induction h with
  | start =>
    subst hend
    exact hrest
  | blanks hblanks _ ih =>
    rw [List.length_append, ← Nat.add_assoc] at hrest
    rw [List.append_assoc]
    exact .blanks (hblanks.append hbound) (ih hrest hend)
  | token hlexeme _ ih =>
    rw [List.length_append, ← Nat.add_assoc] at hrest
    rw [List.append_assoc]
    exact .token (hlexeme.append hbound) (ih hrest hend)

/-- A text is scanned apart on both sides of each of its tokens. -/
theorem Scan.exists_split (h : Scan position cs (ts ++ t :: us) []) :
    ∃ before w after, cs = before ++ (w ++ after) ∧ Scan position before ts [] ∧
      t = ⟨t.kind, String.ofList w, position + before.length,
        position + before.length + w.length⟩ ∧
      Lexeme (some t.kind) w after ∧
      Scan (position + before.length + w.length) after us [] := by
  generalize hend : ([] : List Char) = stop at h
  generalize htokens : ts ++ t :: us = row at h
  induction h generalizing ts with
  | start => simp at htokens
  | @blanks position s cs stop row hblanks _ ih =>
    obtain ⟨before, w, after, rfl, hbefore, ht, hlexeme, hafter⟩ := ih hend htokens
    rw [Nat.add_assoc position, ← List.length_append] at ht hafter
    exact ⟨s ++ before, w, after, (List.append_assoc ..).symm, .blanks hblanks.of_append hbefore,
      ht, hlexeme, hafter⟩
  | @token position kind s cs stop row hlexeme hscan ih =>
    cases ts with
    | nil =>
      obtain ⟨rfl, rfl⟩ := List.cons.inj htokens
      subst hend
      exact ⟨[], s, cs, rfl, .start, rfl, hlexeme, hscan⟩
    | cons u ts =>
      obtain ⟨rfl, hrow⟩ := List.cons.inj htokens
      obtain ⟨before, w, after, rfl, hbefore, ht, hlexeme', hafter⟩ := ih hend hrow
      rw [Nat.add_assoc position, ← List.length_append] at ht hafter
      exact ⟨s ++ before, w, after, (List.append_assoc ..).symm, .token hlexeme.of_append hbefore,
        ht, hlexeme', hafter⟩

/-- The lexemes of a text are the same wherever it stands. -/
theorem lexemes?_eq_some_iff {ls : List (TokenKind × String)} (position : Nat) :
    lexemes? cs = some ls ↔ ∃ ts, Scan position cs ts [] ∧ ts.map Token.lexeme = ls := by
  rw [← lexemes?_eq position, Option.map_eq_some_iff]
  refine exists_congr fun ts => and_congr_left' ?_
  rw [← tokensFrom_eq_ok_iff]
  exact ⟨eq_ok_of_toOption, fun h => by rw [h]; rfl⟩

/-! ## Texts with the lexemes of tokens -/

/-- A text is read as these tokens, but for their places. -/
def Reads (text : String) (ts : List Token) : Prop :=
  ∃ us, tokenize text = .ok us ∧ us.map Token.lexeme = ts.map Token.lexeme

theorem reads_iff {text : String} :
    Reads text ts ↔ lexemes? text.toList = some (ts.map Token.lexeme) := by
  rw [lexemes?_eq_some_iff 0]
  exact exists_congr fun us => and_congr_left' tokensFrom_eq_ok_iff

theorem Scan.reads_trim (h : Scan position cs ts []) : Reads (String.ofList (Text.trim cs)) ts := by
  rw [reads_iff, String.toList_ofList, lexemes?_trim, lexemes?_eq_some_iff position]
  exact ⟨ts, h, rfl⟩

namespace Separator

theorem lexeme_symbol (c : Separator) (rest : List Char) :
    Lexeme (some c.kind) c.symbol.toList rest := by
  cases c
  · exact .and
  · exact .or
  · exact .comma

theorem eq_symbol (h : Lexeme (some c.kind) s rest) : s = c.symbol.toList := by
  cases c <;> cases h <;> rfl

theorem isBound_symbol (c : Separator) (cs : List Char) :
    ∀ d ∈ (c.symbol.toList ++ cs).head?, IsBound d := by
  cases c <;> rintro d ⟨⟩ <;> decide

end Separator

/-- Texts with a separator between them are read one behind the other. -/
theorem Reads.separated {part others : String} (hpart : Reads part ts)
    (ht : t.lexeme = (c.kind, c.symbol)) (hothers : Reads others us) :
    Reads (part ++ c.symbol ++ others) (ts ++ t :: us) := by
  rw [reads_iff] at hpart hothers ⊢
  obtain ⟨ts', hts, hlexemes⟩ := (lexemes?_eq_some_iff 0).1 hpart
  obtain ⟨us', hus, hlexemes'⟩ :=
    (lexemes?_eq_some_iff (0 + part.toList.length + c.symbol.toList.length)).1 hothers
  have hscan := hts.append (c.isBound_symbol _) (.token (c.lexeme_symbol _) hus)
  rw [← List.append_assoc, ← String.toList_append, ← String.toList_append] at hscan
  refine (lexemes?_eq_some_iff 0).2 ⟨_, hscan, ?_⟩
  rw [List.map_append, List.map_append, List.map_cons, List.map_cons, hlexemes, hlexemes', ht,
    Token.lexeme, String.ofList_toList]

theorem joinWith_singleton (separator part : String) : joinWith separator [part] = part := by
  simp [joinWith]

/-! ## Cuts -/

variable {cut : TokenKind}

/-- Tokens are one part, or the first cut ends the first part and the others come from behind it. -/
theorem cuts_cases (cut : TokenKind) (depth : Int) (ts : List Token) :
    (cuts cut depth ts = [] ∧ splitTokens cut depth ts = [ts]) ∨
      ∃ first t later, ts = first ++ t :: later ∧ t.kind = cut ∧
        cuts cut depth ts = t :: cuts cut 0 later ∧
        splitTokens cut depth ts = first :: splitTokens cut 0 later := by
  induction ts generalizing depth with
  | nil => exact .inl ⟨rfl, rfl⟩
  | cons t ts ih =>
    rw [cuts, splitTokens]
    split
    case isTrue hcut =>
      obtain ⟨hkind, rfl⟩ := hcut
      exact .inr ⟨[], t, ts, rfl, hkind, rfl, rfl⟩
    case isFalse =>
      rcases ih (t.depthAfter depth) with
        ⟨hcuts, hsplit⟩ | ⟨first, u, later, rfl, hu, hcuts, hsplit⟩
      · exact .inl ⟨hcuts, by rw [hsplit, List.modifyHead_cons]⟩
      · exact .inr ⟨t :: first, u, later, rfl, hu, hcuts, by rw [hsplit, List.modifyHead_cons]⟩

/-- The opening parentheses less the closing ones. -/
def nesting (ts : List Token) : Int :=
  ts.countP (·.kind == .lparen) - ts.countP (·.kind == .rparen)

/-- The places of the tokens of a kind that stand outside of all parentheses. -/
def topLevel (cut : TokenKind) (ts : List Token) : List Nat :=
  (List.range ts.length).filter fun i =>
    ts[i]?.map Token.kind == some cut && nesting (ts.take i) == 0

theorem depthAfter_add_nesting (t : Token) (depth : Int) (ts : List Token) :
    t.depthAfter depth + nesting ts = depth + nesting (t :: ts) := by
  rcases t with ⟨kind, _, _, _⟩
  cases kind <;> simp [nesting, Token.depthAfter] <;> omega

theorem length_cuts (hplain : ∀ t : Token, t.kind = cut → t.IsPlain) (depth : Int)
    (ts : List Token) :
    (cuts cut depth ts).length = (List.range ts.length).countP fun i =>
      ts[i]?.map Token.kind == some cut && depth + nesting (ts.take i) == 0 := by
  induction ts generalizing depth with
  | nil => rfl
  | cons t ts ih =>
    have hrest : ((List.range ts.length).map Nat.succ).countP
        (fun i => (t :: ts)[i]?.map Token.kind == some cut &&
          depth + nesting ((t :: ts).take i) == 0) = (cuts cut (t.depthAfter depth) ts).length := by
      rw [ih, List.countP_map]
      congr 1
      funext i
      simp only [Function.comp, Nat.succ_eq_add_one, List.getElem?_cons_succ, List.take_succ_cons,
        depthAfter_add_nesting]
    have hfirst : ((t :: ts)[0]?.map Token.kind == some cut &&
        depth + nesting ((t :: ts).take 0) == 0) = decide (t.kind = cut ∧ depth = 0) := by
      rw [Bool.eq_iff_iff]
      simp [nesting]
    rw [List.length_cons, List.range_succ_eq_map, List.countP_cons, hrest, hfirst, cuts]
    by_cases h : t.kind = cut ∧ depth = 0
    · rw [if_pos h, if_pos (decide_eq_true h), depthAfter_plain (hplain t h.1), List.length_cons]
    · rw [if_neg h, if_neg (by simpa using h), Nat.add_zero]

theorem length_topLevel (c : Separator) (ts : List Token) :
    (cuts c.kind 0 ts).length = (topLevel c.kind ts).length := by
  have hplain : ∀ t : Token, t.kind = c.kind → t.IsPlain := by
    intro t ht
    rw [Token.IsPlain, ht]
    cases c <;> decide
  simp only [length_cuts hplain, Int.zero_add, topLevel, List.countP_eq_length_filter]

/-- Parts that are read apart are read as the whole when they are joined again. -/
theorem reads_joinWith {parts : List String} {depth : Int}
    (hsymbol : ∀ t ∈ ts, t.kind = c.kind → t.text = c.symbol)
    (h : List.Forall₂ Reads parts (splitTokens c.kind depth ts)) :
    Reads (joinWith c.symbol parts) ts := by
  induction parts generalizing depth ts with
  | nil => exact absurd (List.forall₂_nil_left_iff.1 h) (splitTokens_ne_nil _ _ _)
  | cons part parts ih =>
    rcases cuts_cases c.kind depth ts with ⟨-, hsplit⟩ | ⟨first, t, later, rfl, ht, -, hsplit⟩
    · rw [hsplit] at h
      obtain ⟨hpart, hparts⟩ := List.forall₂_cons.1 h
      rw [List.forall₂_nil_right_iff.1 hparts, joinWith_singleton]
      exact hpart
    · rw [hsplit] at h
      obtain ⟨hpart, hparts⟩ := List.forall₂_cons.1 h
      obtain ⟨-, htext, hlater⟩ : _ ∧ _ ∧ ∀ t ∈ later, t.kind = c.kind → t.text = c.symbol := by
        simpa [forall_and, or_imp] using hsymbol
      have hothers := ih hlater hparts
      cases parts with
      | nil => exact absurd (List.forall₂_nil_left_iff.1 hparts) (splitTokens_ne_nil _ _ _)
      | cons second parts =>
        rw [joinWith_cons_cons]
        exact hpart.separated (Prod.ext ht (htext ht)) hothers

/-! ## Pieces -/

/-- Up to the next cut one piece is left. -/
theorem pieces_cons (front before after : List Char) (ts : List Token)
    (hstart : t.start = front.length + before.length) :
    pieces (front ++ (before ++ after)) front.length (t :: ts) =
      String.ofList (Text.trim before) :: pieces (front ++ (before ++ after)) t.stop ts := by
  rw [pieces, List.drop_left, hstart, Nat.add_sub_cancel_left, List.take_left]

/-- Behind what has been cut off already the pieces are read as the parts of the tokens. -/
theorem reads_pieces (cut : TokenKind) {front : List Char} (h : Scan front.length cs ts []) :
    List.Forall₂ Reads (pieces (front ++ cs) front.length (cuts cut 0 ts))
      (splitTokens cut 0 ts) := by
  -- Each cut moves the start of the next piece behind itself, so the front grows with the cuts.
  induction hlist : cuts cut 0 ts generalizing front cs ts with
  | nil =>
    rcases cuts_cases cut 0 ts with ⟨-, hsplit⟩ | ⟨_, _, _, -, -, hcuts, -⟩
    · rw [hsplit, pieces, List.drop_left]
      exact .cons h.reads_trim .nil
    · cases hlist.symm.trans hcuts
  | cons t others ih =>
    rcases cuts_cases cut 0 ts with ⟨hcuts, -⟩ | ⟨first, u, later, rfl, -, hcuts, hsplit⟩
    · cases hlist.symm.trans hcuts
    · obtain ⟨rfl, rfl⟩ := List.cons.inj (hlist.symm.trans hcuts)
      obtain ⟨before, w, after, rfl, hbefore, ht, -, hafter⟩ := h.exists_split
      have hpieces := pieces_cons front before (w ++ after) (cuts cut 0 later)
        (congrArg Token.start ht)
      have hstop : t.stop = (front ++ (before ++ w)).length := by
        rw [congrArg Token.stop ht, List.length_append, List.length_append, Nat.add_assoc]
      have htext : front ++ (before ++ (w ++ after)) = front ++ (before ++ w) ++ after := by simp
      rw [hsplit, hpieces, hstop, htext]
      refine .cons hbefore.reads_trim (ih ?_ rfl)
      rwa [← hstop, congrArg Token.stop ht]

theorem Scan.text_eq_symbol (h : Scan position cs ts []) (hmem : t ∈ ts) (ht : t.kind = c.kind) :
    t.text = c.symbol := by
  obtain ⟨before, after, rfl⟩ := List.append_of_mem hmem
  obtain ⟨_, w, _, -, -, htoken, hlexeme, -⟩ := h.exists_split
  rw [ht] at hlexeme
  rw [htoken, Separator.eq_symbol hlexeme, String.ofList_toList]

/-- A text is cut into as many pieces as its tokens are, one more than there are separators outside
of all parentheses. Each piece is read as the tokens in its place, and joined again the pieces are
read as the whole, whether the parentheses are balanced or not and a piece is empty or not. -/
theorem splitText_agrees {text : String} (c : Separator) (h : tokenize text = .ok ts) :
    ∃ parts, splitText c.kind text = .ok parts ∧
      parts.length = (splitTokens c.kind 0 ts).length ∧
      parts.length = (topLevel c.kind ts).length + 1 ∧
      List.Forall₂ Reads parts (splitTokens c.kind 0 ts) ∧
      Reads (joinWith c.symbol parts) ts := by
  have hscan : Scan ([] : List Char).length text.toList ts [] := tokensFrom_eq_ok_iff.1 h
  have hparts := reads_pieces c.kind hscan
  have hlength := hparts.length_eq
  refine ⟨_, ?_, hlength, ?_, hparts,
    reads_joinWith (fun t hmem ht => hscan.text_eq_symbol hmem ht) hparts⟩
  · rw [splitText, h]
    rfl
  · rw [hlength, length_splitTokens, length_topLevel]

/-- Empty pieces, an operator in a literal, and one behind a parenthesis that closes nothing. -/
theorem splitText_agrees_unbalanced :
    let text := "&& (a && \"&&\") && b) && c"
    let ts : List Token := [⟨.and, "&&", 0, 2⟩, ⟨.lparen, "(", 3, 4⟩, ⟨.word, "a", 4, 5⟩,
      ⟨.and, "&&", 6, 8⟩, ⟨.literal, "\"&&\"", 9, 13⟩, ⟨.rparen, ")", 13, 14⟩,
      ⟨.and, "&&", 15, 17⟩, ⟨.word, "b", 18, 19⟩, ⟨.rparen, ")", 19, 20⟩, ⟨.and, "&&", 21, 23⟩,
      ⟨.word, "c", 24, 25⟩]
    tokenize text = .ok ts ∧ topLevel .and ts = [0, 6] ∧
      splitText .and text = .ok ["", "(a && \"&&\")", "b) && c"] ∧
      ∃ parts, splitText .and text = .ok parts ∧
        parts.length = (splitTokens .and 0 ts).length ∧
        parts.length = (topLevel .and ts).length + 1 ∧
        List.Forall₂ Reads parts (splitTokens .and 0 ts) ∧
        Reads (joinWith "&&" parts) ts := by
  intro text ts
  have htokens : tokenize text = .ok ts := eq_ok_of_toOption (by decide +kernel)
  refine ⟨htokens, by decide, ?_, splitText_agrees .and htokens⟩
  rw [splitText, htokens]
  exact eq_ok_of_toOption (by decide +kernel)

end MarkdownVault.Filter
