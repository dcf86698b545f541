import MarkdownVault.Proofs.Filter.Parsing

/-!
# Texts and their lexemes

A text that ends with a whole lexeme or with blanks may be followed by another one: if what follows
cannot belong to the last lexeme, the lexemes of both stand one behind the other. Blanks at the ends
of a text are of no matter.
-/

namespace MarkdownVault.Filter

variable {c : Char} {cs ds : List Char} {kind : TokenKind} {n : Nat}

/-! ## One lexeme -/

/-- The first lexeme by its first character and the one after it. -/
theorem lexeme?_cons (c : Char) (cs : List Char) : lexeme? (c :: cs) =
    if c = '&' ∧ cs.head? = some '&' then some (some .and, 2)
    else if c = '|' ∧ cs.head? = some '|' then some (some .or, 2)
    else if c ∈ ['=', '!', '>', '<'] ∧ cs.head? = some '=' then some (some .op, 2)
    else if c ∈ ['>', '<'] then some (some .op, 1)
    else if c = '!' then some (some .not, 1)
    else if c = '(' then some (some .lparen, 1)
    else if c = ')' then some (some .rparen, 1)
    else if c = ',' then some (some .comma, 1)
    else if c ∈ ['"', '\''] then (literalLength? c cs).map fun n => (some .literal, n + 1)
    else if Text.isBlank c then some (none, (cs.takeWhile Text.isBlank).length + 1)
    else if isWordPart c then some (some .word, (cs.takeWhile isWordPart).length + 1)
    else none := by
  unfold lexeme?
  split <;> cases cs <;> simp_all <;> grind

theorem lexeme?_blank (h : Text.isBlank c) (cs : List Char) :
    lexeme? (c :: cs) = some (none, (cs.takeWhile Text.isBlank).length + 1) := by
  unfold lexeme?
  split <;> simp_all +decide

theorem isBlank_of_lexeme? (h : lexeme? (c :: cs) = some (none, n)) : Text.isBlank c := by
  unfold lexeme? at h
  split at h <;> simp_all
  split at h
  case isTrue hblank => exact hblank
  case isFalse => split at h <;> cases h

/-- A character that continues no lexeme before it. -/
def IsBreak (c : Char) : Prop := isWordPart c = false ∧ c ∉ ['=', '&', '|']

instance : DecidablePred IsBreak := fun _ => inferInstanceAs (Decidable (_ ∧ _))

theorem isBreak_of_isBlank (h : Text.isBlank c) : IsBreak c := by
  refine ⟨by simp [isWordPart, h], ?_⟩
  simp only [List.mem_cons, List.not_mem_nil, or_false]
  rintro (rfl | rfl | rfl) <;> exact absurd h (by decide)

theorem head?_append_of_isBreak (hbreak : ∀ d ∈ ds.head?, IsBreak d) {e : Char}
    (he : e ∈ ['=', '&', '|']) : (cs ++ ds).head? = some e ↔ cs.head? = some e := by
  cases cs with
  | nil =>
    refine ⟨fun h => ?_, nofun⟩
    exact absurd he (hbreak e h).2
  | cons c cs => rfl

theorem takeWhile_append_of_isBreak (hbreak : ∀ d ∈ ds.head?, IsBreak d) :
    (cs ++ ds).takeWhile isWordPart = cs.takeWhile isWordPart := by
  induction cs with
  | nil =>
    cases ds with
    | nil => rfl
    | cons d ds => exact List.takeWhile_cons_of_neg (by simp [(hbreak d rfl).1])
  | cons c cs ih => simp [List.takeWhile_cons, ih]

/-- What follows behind a break changes a lexeme only if it changes a literal. -/
theorem lexeme?_append (hblank : ¬Text.isBlank c) (hbreak : ∀ d ∈ ds.head?, IsBreak d)
    (hliteral : c ∈ ['"', '\''] → literalLength? c (cs ++ ds) = literalLength? c cs) :
    lexeme? (c :: (cs ++ ds)) = lexeme? (c :: cs) := by
  rw [lexeme?_cons, lexeme?_cons]
  simp only [head?_append_of_isBreak hbreak (by decide : '&' ∈ ['=', '&', '|']),
    head?_append_of_isBreak hbreak (by decide : '|' ∈ ['=', '&', '|']),
    head?_append_of_isBreak hbreak (by decide : '=' ∈ ['=', '&', '|']),
    takeWhile_append_of_isBreak hbreak, if_neg hblank]
  by_cases hc : c ∈ ['"', '\'']
  · rw [hliteral hc]
  · simp only [if_neg hc]

/-! ## Literals -/

section Literal

variable {quote : Char} (hquote : quote ∈ ['"', '\''])
include hquote

theorem literalLength?_append (h : literalLength? quote cs = some n) (ds : List Char) :
    literalLength? quote (cs ++ ds) = some n := by
  have hne : quote ≠ '\\' := by rintro rfl; simp at hquote
  fun_induction literalLength? quote cs generalizing n with
  | case1 | case2 | case5 => cases h
  | case3 c cs hc ih =>
    obtain ⟨k, hk, rfl⟩ := Option.map_eq_some_iff.1 h
    simp [literalLength?, hc, ih hk]
  | case4 cs => simpa [literalLength?, hne] using h
  | case6 c cs _ hc hbackslash ih =>
    obtain ⟨k, hk, rfl⟩ := Option.map_eq_some_iff.1 h
    simp [literalLength?, hc, hbackslash, ih hk]

omit hquote in
theorem literalLength?_le (h : literalLength? quote cs = some n) : n ≤ cs.length := by
  fun_induction literalLength? quote cs generalizing n with
  | case1 | case2 | case5 => cases h
  | case3 c cs _ ih =>
    obtain ⟨k, hk, rfl⟩ := Option.map_eq_some_iff.1 h
    exact Nat.add_le_add_right (ih hk) 2
  | case4 cs => simp [← Option.some.inj h]
  | case6 c cs _ _ _ ih =>
    obtain ⟨k, hk, rfl⟩ := Option.map_eq_some_iff.1 h
    exact Nat.add_le_add_right (ih hk) 1

/-- Blanks do not close a literal. -/
theorem literalLength?_of_isBlank (hblank : ∀ d ∈ ds, Text.isBlank d) :
    literalLength? quote ds = none := by
  fun_induction literalLength? quote ds with
  | case1 | case2 | case5 => rfl
  | case3 c ds hc ih => rw [ih fun d hd => hblank d (by simp [hd]), Option.map_none]
  | case4 ds =>
    have : Text.isBlank quote := hblank quote (by simp)
    simp only [List.mem_cons, List.not_mem_nil, or_false] at hquote
    rcases hquote with rfl | rfl <;> exact absurd this (by decide)
  | case6 c ds _ _ _ ih => rw [ih fun d hd => hblank d (by simp [hd]), Option.map_none]

theorem literalLength?_append_isBlank (hblank : ∀ d ∈ ds, Text.isBlank d) :
    literalLength? quote (cs ++ ds) = literalLength? quote cs := by
  have hne : quote ≠ '\\' := by rintro rfl; simp at hquote
  fun_induction literalLength? quote cs with
  | case1 => exact literalLength?_of_isBlank hquote hblank
  | case2 => rfl
  | case3 c cs hc ih => simp [literalLength?, hc, ih]
  | case4 cs => simp [literalLength?, hne]
  | case5 cs hcs =>
    -- The backslash stands alone at the end.
    cases cs with
    | cons c cs => exact absurd rfl (hcs c cs rfl)
    | nil => cases ds with
      | nil => simp [literalLength?, hne.symm]
      | cons d ds =>
        have hds : literalLength? quote ds = none :=
          literalLength?_of_isBlank hquote fun e he => hblank e (List.mem_cons_of_mem d he)
        simp [literalLength?, hds]
  | case6 c cs _ hc hbackslash ih => simp [literalLength?, hc, hbackslash, ih]

end Literal

theorem lexeme?_le {k : Option TokenKind} (h : lexeme? cs = some (k, n)) : n ≤ cs.length := by
  unfold lexeme? at h
  split at h
  case h_14 | h_15 =>
    obtain ⟨k, hk, hn⟩ := Option.map_eq_some_iff.1 h
    cases hn
    exact Nat.succ_le_succ (literalLength?_le hk)
  case h_16 =>
    split at h
    case isTrue =>
      cases h
      exact Nat.succ_le_succ (List.takeWhile_sublist _).length_le
    case isFalse =>
      split at h <;> cases h
      exact Nat.succ_le_succ (List.takeWhile_sublist _).length_le
  all_goals cases h <;> simp

/-- Behind a lexeme a text ends where it ended. -/
theorem add_length_drop {k : Option TokenKind} (h : lexeme? cs = some (k, n)) (position : Nat) :
    position + n + (cs.drop n).length = position + cs.length := by
  have hle := lexeme?_le h
  rw [List.length_drop]
  omega

/-- A whole lexeme stays what it is in front of a break. -/
theorem lexeme?_append_of_isBreak (h : lexeme? (c :: cs) = some (some kind, n))
    (hbreak : ∀ d ∈ ds.head?, IsBreak d) : lexeme? (c :: (cs ++ ds)) = some (some kind, n) := by
  have hblank : ¬Text.isBlank c := by
    intro hblank
    cases h.symm.trans (lexeme?_blank hblank cs)
  rw [lexeme?_append hblank hbreak, h]
  intro hc
  have hliteral : lexeme? (c :: cs) =
      (literalLength? c cs).map fun n => (some TokenKind.literal, n + 1) := by
    simp only [List.mem_cons, List.not_mem_nil, or_false] at hc
    rcases hc with rfl | rfl <;> rfl
  obtain ⟨k, hk, -⟩ := Option.map_eq_some_iff.1 (hliteral.symm.trans h)
  rw [hk, literalLength?_append hc hk]

/-! ## All lexemes -/

theorem tokensFrom_nil (position : Nat) : tokensFrom position [] = .ok [] := by
  rw [tokensFrom]
  rfl

theorem tokensFrom_of_lexeme (h : lexeme? cs = some (some kind, n)) (position : Nat) :
    tokensFrom position cs = (tokensFrom (position + n) (cs.drop n)).map
      (⟨kind, String.ofList (cs.take n), position, position + n⟩ :: ·) := by
  rw [tokensFrom]
  split
  case h_1 hnone => cases h.symm.trans hnone
  case h_2 hsome =>
    cases h.symm.trans hsome
    rfl

theorem tokensFrom_of_blank (h : lexeme? cs = some (none, n)) (position : Nat) :
    tokensFrom position cs = tokensFrom (position + n) (cs.drop n) := by
  rw [tokensFrom]
  split
  case h_1 hnone => cases h.symm.trans hnone
  case h_2 hsome =>
    cases h.symm.trans hsome
    cases tokensFrom (position + n) (cs.drop n) <;> rfl

theorem tokensFrom_of_none (h : lexeme? (c :: cs) = none) (position : Nat) :
    tokensFrom position (c :: cs) = .error (.unexpected c position) := by
  rw [tokensFrom]
  split
  case h_1 => rfl
  case h_2 hsome => cases h.symm.trans hsome

/-- Blanks are passed over one by one. -/
theorem tokensFrom_isBlank (h : Text.isBlank c) (position : Nat) (cs : List Char) :
    tokensFrom position (c :: cs) = tokensFrom (position + 1) cs := by
  rw [tokensFrom_of_blank (lexeme?_blank h cs)]
  cases cs with
  | nil => rfl
  | cons d ds =>
    by_cases hd : Text.isBlank d
    · rw [tokensFrom_of_blank (lexeme?_blank hd ds), List.takeWhile_cons_of_pos hd,
        List.length_cons, List.drop_succ_cons, List.drop_succ_cons]
      congr 1
      omega
    · rw [List.takeWhile_cons_of_neg hd]
      rfl

/-- Induction on a text from lexeme to lexeme. -/
theorem lexeme_induction {motive : List Char → Prop} (nil : motive [])
    (blank : ∀ c cs, Text.isBlank c → motive cs → motive (c :: cs))
    (lexeme : ∀ c cs kind n, lexeme? (c :: cs) = some (some kind, n) →
      motive ((c :: cs).drop n) → motive (c :: cs))
    (fault : ∀ c cs, lexeme? (c :: cs) = none → motive (c :: cs)) (cs : List Char) :
    motive cs := by
  induction hlength : cs.length using Nat.strongRecOn generalizing cs with
  | _ length ih =>
    cases cs with
    | nil => exact nil
    | cons c cs =>
      rw [List.length_cons] at hlength
      rcases h : lexeme? (c :: cs) with _ | ⟨_ | kind, n⟩
      · exact fault c cs h
      · exact blank c cs (isBlank_of_lexeme? h) (ih cs.length (by omega) cs rfl)
      · have hpos := (lexeme?_pos h).1
        refine lexeme c cs kind n h (ih _ ?_ _ rfl)
        rw [List.length_drop, List.length_cons]
        omega

/-- A text in front of a break keeps its tokens, and what follows is read from there on. -/
theorem tokensFrom_append {position : Nat} {ts : List Token}
    (h : tokensFrom position cs = .ok ts) (hbreak : ∀ d ∈ ds.head?, IsBreak d) :
    tokensFrom position (cs ++ ds) = (tokensFrom (position + cs.length) ds).map (ts ++ ·) := by
  induction cs using lexeme_induction generalizing position ts with
  | nil =>
    rw [tokensFrom_nil] at h
    cases h
    rw [List.nil_append, List.length_nil, Nat.add_zero]
    cases tokensFrom position ds <;> rfl
  | blank c cs hc ih =>
    rw [tokensFrom_isBlank hc] at h
    rw [List.cons_append, tokensFrom_isBlank hc, ih h, List.length_cons, Nat.add_right_comm,
      Nat.add_assoc]
  | lexeme c cs kind n hlexeme ih =>
    have hle := lexeme?_le hlexeme
    have happend := lexeme?_append_of_isBreak hlexeme hbreak
    rw [← List.cons_append] at happend
    rw [tokensFrom_of_lexeme hlexeme] at h
    obtain ⟨us, hus, rfl⟩ := map_eq_ok_iff.1 h
    rw [tokensFrom_of_lexeme happend, List.drop_append_of_le_length hle,
      List.take_append_of_le_length hle, ih hus, add_length_drop hlexeme]
    cases tokensFrom (position + (c :: cs).length) ds <;> rfl
  | fault c cs hfault =>
    rw [tokensFrom_of_none hfault] at h
    cases h

/-- The kinds and texts of the lexemes of a text, if it consists of lexemes. -/
def lexemes? (cs : List Char) : Option (List (TokenKind × String)) :=
  (tokensFrom 0 cs).toOption.map (List.map Token.lexeme)

/-- It is of no matter where a text stands. -/
theorem lexemes?_eq (position : Nat) (cs : List Char) :
    (tokensFrom position cs).toOption.map (List.map Token.lexeme) = lexemes? cs := by
  induction cs using lexeme_induction generalizing position with
  | nil => rw [lexemes?, tokensFrom_nil, tokensFrom_nil]
  | blank c cs h ih => rw [lexemes?, tokensFrom_isBlank h, tokensFrom_isBlank h, ih, ih]
  | lexeme c cs kind n h ih =>
    have hstart (position : Nat) :
        (tokensFrom position (c :: cs)).toOption.map (List.map Token.lexeme) =
          (lexemes? ((c :: cs).drop n)).map ((kind, String.ofList ((c :: cs).take n)) :: ·) := by
      rw [tokensFrom_of_lexeme h, toOption_map, ← ih (position + n), Option.map_map,
        Option.map_map]
      rfl
    exact (hstart position).trans (hstart 0).symm
  | fault c cs h =>
    rw [lexemes?, tokensFrom_of_none h, tokensFrom_of_none h]
    rfl

@[simp] theorem lexemes?_nil : lexemes? [] = some [] := by
  rw [lexemes?, tokensFrom_nil]
  rfl

theorem lexemes?_of_isBlank (h : Text.isBlank c) (cs : List Char) :
    lexemes? (c :: cs) = lexemes? cs := by
  rw [lexemes?, tokensFrom_isBlank h, lexemes?_eq]

theorem lexemes?_of_lexeme (h : lexeme? cs = some (some kind, n)) :
    lexemes? cs = (lexemes? (cs.drop n)).map ((kind, String.ofList (cs.take n)) :: ·) := by
  rw [lexemes?, tokensFrom_of_lexeme h, toOption_map, ← lexemes?_eq (0 + n), Option.map_map,
    Option.map_map]
  rfl

theorem lexemes?_of_none (h : lexeme? (c :: cs) = none) : lexemes? (c :: cs) = none := by
  rw [lexemes?, tokensFrom_of_none h]
  rfl

/-- A text in front of a break keeps its lexemes. -/
theorem lexemes?_append {ls : List (TokenKind × String)} (h : lexemes? cs = some ls)
    (hbreak : ∀ d ∈ ds.head?, IsBreak d) :
    lexemes? (cs ++ ds) = (lexemes? ds).map (ls ++ ·) := by
  obtain ⟨ts, hts, rfl⟩ := Option.map_eq_some_iff.1 h
  rw [lexemes?, tokensFrom_append (eq_ok_of_toOption hts) hbreak, toOption_map,
    ← lexemes?_eq (0 + cs.length) ds, Option.map_map, Option.map_map]
  congr 1
  funext us
  exact List.map_append

/-- A text without lexemes is blank. -/
theorem isBlank_of_lexemes?_nil (h : lexemes? cs = some []) : ∀ c ∈ cs, Text.isBlank c := by
  induction cs using lexeme_induction with
  | nil => nofun
  | blank c cs hc ih =>
    rw [lexemes?_of_isBlank hc] at h
    exact List.forall_mem_cons.2 ⟨hc, ih h⟩
  | lexeme c cs kind n hlexeme ih =>
    rw [lexemes?_of_lexeme hlexeme] at h
    obtain ⟨ms, -, hms⟩ := Option.map_eq_some_iff.1 h
    cases hms
  | fault c cs hfault =>
    rw [lexemes?_of_none hfault] at h
    cases h

/-- What stands behind a space is read for itself. -/
theorem lexemes?_spaced {ls : List (TokenKind × String)} (h : lexemes? cs = some ls)
    (ds : List Char) : lexemes? (cs ++ ' ' :: ds) = (lexemes? ds).map (ls ++ ·) := by
  have hbreak : ∀ d ∈ (' ' :: ds).head?, IsBreak d := by
    rintro d ⟨⟩
    decide
  rw [lexemes?_append h hbreak, lexemes?_of_isBlank (by decide)]

theorem lexemes?_enclosed {ls : List (TokenKind × String)} (h : lexemes? cs = some ls) :
    lexemes? ('(' :: (cs ++ [')'])) = some ((.lparen, "(") :: (ls ++ [(.rparen, ")")])) := by
  have hopen : lexeme? ('(' :: (cs ++ [')'])) = some (some .lparen, 1) := rfl
  have hclose : lexeme? [')'] = some (some .rparen, 1) := rfl
  have hbreak : ∀ d ∈ [')'].head?, IsBreak d := by
    rintro d ⟨⟩
    decide
  rw [lexemes?_of_lexeme hopen, List.drop_one, List.tail_cons, lexemes?_append h hbreak,
    lexemes?_of_lexeme hclose, List.drop_one, List.tail_cons, lexemes?_nil]
  rfl

/-! ## Blanks at the ends -/

theorem lexemes?_append_isBlank (hblank : ∀ d ∈ ds, Text.isBlank d) :
    lexemes? (cs ++ ds) = lexemes? cs := by
  have hbreak : ∀ d ∈ ds.head?, IsBreak d := fun d hd =>
    isBreak_of_isBlank (hblank d (List.mem_of_mem_head? hd))
  induction cs using lexeme_induction with
  | nil =>
    rw [List.nil_append]
    clear hbreak
    induction ds with
    | nil => rfl
    | cons d ds ih =>
      obtain ⟨hd, hds⟩ := List.forall_mem_cons.1 hblank
      rw [lexemes?_of_isBlank hd, ih hds]
  | blank c cs hc ih => rw [List.cons_append, lexemes?_of_isBlank hc, lexemes?_of_isBlank hc, ih]
  | lexeme c cs kind n hlexeme ih =>
    have hle := lexeme?_le hlexeme
    have happend := lexeme?_append_of_isBreak hlexeme hbreak
    rw [← List.cons_append] at happend
    rw [lexemes?_of_lexeme happend, lexemes?_of_lexeme hlexeme,
      List.drop_append_of_le_length hle, List.take_append_of_le_length hle, ih]
  | fault c cs hfault =>
    have hc : ¬Text.isBlank c := by
      intro hc
      cases hfault.symm.trans (lexeme?_blank hc cs)
    have happend : lexeme? (c :: (cs ++ ds)) = none := by
      rw [lexeme?_append hc hbreak fun hquote => literalLength?_append_isBlank hquote hblank, hfault]
    rw [List.cons_append, lexemes?_of_none happend, lexemes?_of_none hfault]

theorem lexemes?_trim (cs : List Char) : lexemes? (Text.trim cs) = lexemes? cs := by
  have hstart : lexemes? (Text.trimStart cs) = lexemes? cs := by
    induction cs with
    | nil => rfl
    | cons c cs ih =>
      by_cases hc : Text.isBlank c
      · rw [lexemes?_of_isBlank hc, ← ih, Text.trimStart, List.dropWhile_cons_of_pos hc]
        rfl
      · rw [Text.trimStart, List.dropWhile_cons_of_neg hc]
  have hend (cs : List Char) : lexemes? (Text.trimEnd cs) = lexemes? cs := by
    have hsplit : Text.trimEnd cs ++ (cs.reverse.takeWhile Text.isBlank).reverse = cs := by
      rw [Text.trimEnd, Text.dropEndWhile, ← List.reverse_append,
        List.takeWhile_append_dropWhile, List.reverse_reverse]
    have hblank : ∀ d ∈ (cs.reverse.takeWhile Text.isBlank).reverse, Text.isBlank d := by
      intro d hd
      exact List.all_eq_true.1 List.all_takeWhile d (List.mem_reverse.1 hd)
    rw [← lexemes?_append_isBlank hblank, hsplit]
  rw [Text.trim, hend, hstart]

/-! ## Parsing -/

/-- A text is parsed by its lexemes alone. -/
theorem parse_eq_ok_iff_lexemes {text : String} {e : Expression} :
    parse text = .ok e ↔ ∃ d : Derivation (.row .and),
      lexemes? text.toList = some (d.yield.map Token.lexeme) ∧ d.tree = e := by
  rw [parse_eq_ok_iff]
  constructor
  · rintro ⟨ts, hts, d, rfl, htree⟩
    refine ⟨d, ?_, htree⟩
    rw [lexemes?, ← tokenize, hts]
    rfl
  · rintro ⟨d, hlexemes, htree⟩
    obtain ⟨ts, hts, hmap⟩ := Option.map_eq_some_iff.1 hlexemes
    obtain ⟨d', hyield, htree', -⟩ := d.exists_relabelled hmap
    exact ⟨ts, eq_ok_of_toOption hts, d', hyield, htree'.trans htree⟩

theorem parse_trim {text : String} {e : Expression} :
    parse (trim text) = .ok e ↔ parse text = .ok e := by
  rw [parse_eq_ok_iff_lexemes, parse_eq_ok_iff_lexemes, trim, toList_mapChars, lexemes?_trim]

end MarkdownVault.Filter
