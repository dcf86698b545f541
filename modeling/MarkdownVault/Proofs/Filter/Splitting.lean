import MarkdownVault.Proofs.Filter.Phrase
import MarkdownVault.Proofs.Text.Cutting

/-!
# Cutting a text at its commas

The tokens of a text lie one behind the other, so the pieces between some of them never overlap. A
text that is put together from values and commas is cut into these values again.
-/

namespace MarkdownVault.Filter

variable {cs ds front : List Char} {ts us : List Token} {start stop position : Nat}

/-! ## Places -/

theorem tokensFrom_blanks (h : ∀ d ∈ ds, Text.isBlank d) (position : Nat) (cs : List Char) :
    tokensFrom position (ds ++ cs) = tokensFrom (position + ds.length) cs := by
  induction ds generalizing position with
  | nil => rfl
  | cons d ds ih =>
    obtain ⟨hd, hds⟩ := List.forall_mem_cons.1 h
    rw [List.cons_append, tokensFrom_isBlank hd, ih hds, List.length_cons, Nat.add_right_comm,
      Nat.add_assoc]

/-- The tokens lie one behind the other between two places. -/
def Ascending (stop : Nat) : Nat → List Token → Prop
  | start, [] => start ≤ stop
  | start, t :: ts => start ≤ t.start ∧ t.start ≤ t.stop ∧ Ascending stop t.stop ts

namespace Ascending

theorem of_le {start' : Nat} (h : Ascending stop start ts) (hle : start' ≤ start) :
    Ascending stop start' ts := by
  cases ts with
  | nil => exact hle.trans h
  | cons t ts => exact ⟨hle.trans h.1, h.2⟩

theorem sublist (h : Ascending stop start ts) (hsub : us.Sublist ts) :
    Ascending stop start us := by
  induction hsub generalizing start with
  | slnil => exact h
  | cons t _ ih => exact ih (h.2.2.of_le (h.1.trans h.2.1))
  | cons_cons t _ ih => exact ⟨h.1, h.2.1, ih h.2.2⟩

end Ascending

theorem ascending_tokensFrom (h : tokensFrom position cs = .ok ts) :
    Ascending (position + cs.length) position ts := by
  induction cs using lexeme_induction generalizing position ts with
  | nil =>
    rw [tokensFrom_nil] at h
    cases h
    exact le_rfl
  | blank c cs hc ih =>
    rw [tokensFrom_isBlank hc] at h
    have hplace : position + (c :: cs).length = position + 1 + cs.length := by
      rw [List.length_cons]
      omega
    rw [hplace]
    exact (ih h).of_le (Nat.le_succ position)
  | lexeme c cs kind n hlexeme ih =>
    rw [tokensFrom_of_lexeme hlexeme] at h
    obtain ⟨us, hus, rfl⟩ := map_eq_ok_iff.1 h
    have hrest := ih hus
    rw [add_length_drop hlexeme] at hrest
    exact ⟨le_rfl, Nat.le_add_right position n, hrest⟩
  | fault c cs hfault =>
    rw [tokensFrom_of_none hfault] at h
    cases h

theorem cuts_sublist (kind : TokenKind) (depth : Int) (ts : List Token) :
    (cuts kind depth ts).Sublist ts := by
  induction ts generalizing depth with
  | nil => exact .slnil
  | cons t ts ih =>
    rw [cuts]
    split
    · exact (ih depth).cons_cons t
    · exact (ih _).cons t

/-- The pieces have room beside each other in what they are cut from. -/
theorem total_length_pieces_le (h : Ascending cs.length start ts) :
    total ((pieces cs start ts).map String.length) + start ≤ cs.length := by
  induction ts generalizing start with
  | nil =>
    have hstart : start ≤ cs.length := h
    have htrim := Text.length_trim_le (cs.drop start)
    rw [List.length_drop] at htrim
    simp only [pieces, List.map_cons, List.map_nil, total, String.length_ofList]
    omega
  | cons t ts ih =>
    obtain ⟨hstart, hstop, hrest⟩ := h
    have htotal := ih hrest
    have htrim := Text.length_trim_le ((cs.drop start).take (t.start - start))
    have htake := List.length_take_le (t.start - start) (cs.drop start)
    simp only [pieces, List.map_cons, total, String.length_ofList]
    omega

theorem total_length_splitText_le {kind : TokenKind} {text : String} {parts : List String}
    (h : splitText kind text = .ok parts) : total (parts.map String.length) ≤ text.length := by
  obtain ⟨ts, hts, hparts⟩ := bind_eq_ok_iff.1 h
  cases hparts
  have hascending := (ascending_tokensFrom hts).sublist (cuts_sublist kind 0 ts)
  rw [Nat.zero_add] at hascending
  exact total_length_pieces_le hascending

/-! ## Values between commas -/

/-- The pieces of a text in front of which something else has been cut already. -/
def piecesFrom (front cs : List Char) : Except SyntaxFault (List String) :=
  (tokensFrom front.length cs).map fun ts =>
    pieces (front ++ cs) front.length (cuts .comma 0 ts)

theorem splitText_comma (text : String) : splitText .comma text = piecesFrom [] text.toList := by
  rw [splitText, tokenize, piecesFrom, List.length_nil]
  cases tokensFrom 0 text.toList <;> rfl

/-- One value as it is written: a single lexeme, a word or a literal. -/
def IsValue (cs : List Char) : Prop :=
  ∃ kind, (kind = .word ∨ kind = .literal) ∧ lexeme? cs = some (some kind, cs.length)

theorem IsValue.exists_token (h : IsValue cs) (position : Nat) :
    ∃ t, tokensFrom position cs = .ok [t] ∧ ∀ us, cuts .comma 0 (t :: us) = cuts .comma 0 us := by
  obtain ⟨kind, hkind, hlexeme⟩ := h
  refine ⟨⟨kind, String.ofList cs, position, position + cs.length⟩, ?_, fun us => ?_⟩
  · rw [tokensFrom_of_lexeme hlexeme, List.drop_length, List.take_length, tokensFrom_nil]
    rfl
  · rcases hkind with rfl | rfl <;> exact cuts_plain ⟨by simp, by simp⟩ (by simp) us

variable {blanks value rest : List Char}

theorem piecesFrom_value (hblanks : ∀ c ∈ blanks, Text.isBlank c) (hvalue : IsValue value)
    (front : List Char) :
    piecesFrom front (blanks ++ value) = .ok [String.ofList (Text.trim value)] := by
  obtain ⟨t, ht, hcuts⟩ := hvalue.exists_token (front.length + blanks.length)
  rw [piecesFrom, tokensFrom_blanks hblanks, ht]
  change Except.ok (pieces _ _ (cuts .comma 0 [t])) = _
  rw [hcuts, cuts, pieces, List.drop_left, Text.trim_prepend hblanks]

/-- The first comma behind a value ends its piece. -/
theorem piecesFrom_comma (hblanks : ∀ c ∈ blanks, Text.isBlank c) (hvalue : IsValue value)
    (front rest : List Char) :
    piecesFrom front (blanks ++ (value ++ ',' :: rest)) =
      (piecesFrom (front ++ (blanks ++ (value ++ [',']))) rest).map
        (String.ofList (Text.trim value) :: ·) := by
  obtain ⟨t, ht, hcuts⟩ := hvalue.exists_token (front.length + blanks.length)
  have hbreak : ∀ d ∈ (',' :: rest).head?, IsBreak d := by
    rintro d ⟨⟩
    decide
  have hcomma : lexeme? (',' :: rest) = some (some .comma, 1) := rfl
  have hlength : (front ++ (blanks ++ (value ++ [',']))).length =
      front.length + blanks.length + value.length + 1 := by
    simp only [List.length_append, List.length_singleton]
    omega
  have htake : (blanks ++ (value ++ ',' :: rest)).take
      (front.length + blanks.length + value.length - front.length) = blanks ++ value := by
    have hplace : front.length + blanks.length + value.length - front.length =
        (blanks ++ value).length := by
      rw [List.length_append]
      omega
    rw [hplace, ← List.append_assoc, List.take_left]
  rw [piecesFrom, tokensFrom_blanks hblanks, tokensFrom_append ht hbreak,
    tokensFrom_of_lexeme hcomma, List.drop_one, List.tail_cons, piecesFrom, hlength]
  cases tokensFrom (front.length + blanks.length + value.length + 1) rest with
  | error fault => rfl
  | ok us =>
    change Except.ok (pieces _ _ (cuts .comma 0 (t :: _ :: us))) = Except.ok (_ :: _)
    rw [hcuts, cuts, if_pos ⟨rfl, rfl⟩, pieces, List.drop_left, htake, Text.trim_prepend hblanks]
    simp

/-- Values with commas between them are the pieces of the whole. -/
theorem piecesFrom_intercalate {values : List (List Char)} (hblanks : ∀ c ∈ blanks, Text.isBlank c)
    (hvalue : IsValue value) (hvalues : ∀ v ∈ values, IsValue v) (front : List Char) :
    piecesFrom front (blanks ++ ", ".toList.intercalate (value :: values)) =
      .ok ((value :: values).map fun v => String.ofList (Text.trim v)) := by
  induction values generalizing front blanks value with
  | nil => rw [List.intercalate_singleton, piecesFrom_value hblanks hvalue, List.map_singleton]
  | cons next values ih =>
    obtain ⟨hnext, hothers⟩ := List.forall_mem_cons.1 hvalues
    have hspace : ∀ c ∈ [' '], Text.isBlank c := List.forall_mem_singleton.2 (by decide)
    have htext : value ++ (", ".toList ++ ", ".toList.intercalate (next :: values)) =
        value ++ ',' :: ([' '] ++ ", ".toList.intercalate (next :: values)) := rfl
    rw [List.intercalate_cons_cons, List.append_assoc, htext, piecesFrom_comma hblanks hvalue,
      ih hspace hnext hothers]
    rfl

end MarkdownVault.Filter
