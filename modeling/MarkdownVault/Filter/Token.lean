import MarkdownVault.Text.Basic
import MarkdownVault.Number.Total

/-!
# Lexemes of the filter language

A filter text is a row of blanks, operators, parentheses, commas, quoted literals and words. A
quoted literal is one lexeme, so nothing inside it ever acts as an operator. Positions count
characters.
-/

namespace MarkdownVault.Filter

inductive TokenKind where
  | and
  | or
  | op
  | not
  | lparen
  | rparen
  | comma
  | literal
  | word
  deriving DecidableEq, Repr

structure Token where
  kind : TokenKind
  text : String
  start : Nat
  stop : Nat
  deriving DecidableEq, Repr

/-- Why a text is no filter. -/
inductive SyntaxFault where
  | unexpected (c : Char) (position : Nat)
  | unmatched (position : Nat)
  | unclosed
  | empty
  | severalValues (joined : String)
  | noValue (text : String)
  deriving DecidableEq, Repr

/-- A character that may stand in a word: no blank, quote, parenthesis, comma or operator. -/
def isWordPart (c : Char) : Bool :=
  !Text.isBlank c && !(['(', ')', '!', ',', '&', '|', '=', '<', '>', '"', '\''].contains c)

/-- The length of a literal after its opening quote, the closing quote included. A backslash
takes the next character with it, except a line feed, which it cannot stand before. -/
def literalLength? (quote : Char) : List Char → Option Nat
  | [] => none
  | '\\' :: c :: cs => if c = '\n' then none else (literalLength? quote cs).map (· + 2)
  | c :: cs =>
    if c = quote then some 1
    else if c = '\\' then none
    else (literalLength? quote cs).map (· + 1)

/-- The class of the first lexeme, `none` for blanks, and its length. -/
def lexeme? : List Char → Option (Option TokenKind × Nat)
  | [] => none
  | '&' :: '&' :: _ => some (some .and, 2)
  | '|' :: '|' :: _ => some (some .or, 2)
  | '=' :: '=' :: _ => some (some .op, 2)
  | '!' :: '=' :: _ => some (some .op, 2)
  | '>' :: '=' :: _ => some (some .op, 2)
  | '<' :: '=' :: _ => some (some .op, 2)
  | '>' :: _ => some (some .op, 1)
  | '<' :: _ => some (some .op, 1)
  | '!' :: _ => some (some .not, 1)
  | '(' :: _ => some (some .lparen, 1)
  | ')' :: _ => some (some .rparen, 1)
  | ',' :: _ => some (some .comma, 1)
  | '"' :: cs => (literalLength? '"' cs).map fun n => (some .literal, n + 1)
  | '\'' :: cs => (literalLength? '\'' cs).map fun n => (some .literal, n + 1)
  | c :: cs =>
    if Text.isBlank c then some (none, (cs.takeWhile Text.isBlank).length + 1)
    else if isWordPart c then some (some .word, (cs.takeWhile isWordPart).length + 1)
    else none

theorem lexeme?_pos {cs : List Char} {kind : Option TokenKind} {n : Nat}
    (h : lexeme? cs = some (kind, n)) : 0 < n ∧ cs ≠ [] := by
  have hne : cs ≠ [] := by
    rintro rfl
    cases h
  refine ⟨?_, hne⟩
  unfold lexeme? at h
  split at h
  case h_1 => cases h
  case h_14 | h_15 =>
    -- a quoted text, one longer than what stands behind its first quote
    obtain ⟨length, -, heq⟩ := Option.map_eq_some_iff.1 h
    cases heq
    exact Nat.succ_pos length
  case h_16 =>
    split at h
    case isTrue =>
      cases h
      exact Nat.succ_pos _
    case isFalse =>
      split at h
      case isTrue =>
        cases h
        exact Nat.succ_pos _
      case isFalse => cases h
  -- the symbols, of one character or two
  all_goals
    cases h
    decide

/-- The lexemes from a position on, blanks left out. -/
def tokensFrom (position : Nat) (cs : List Char) : Except SyntaxFault (List Token) :=
  match _h : lexeme? cs with
  | none => match cs with
    | [] => .ok []
    | c :: _ => .error (.unexpected c position)
  | some (kind, n) => do
    let rest ← tokensFrom (position + n) (cs.drop n)
    match kind with
    | none => return rest
    | some kind => return ⟨kind, String.ofList (cs.take n), position, position + n⟩ :: rest
termination_by cs.length
decreasing_by
  have := lexeme?_pos _h
  have := List.length_pos_iff.2 this.2
  simp
  omega

def tokenize (text : String) : Except SyntaxFault (List Token) := tokensFrom 0 text.toList

/-- The nesting after a token. -/
def Token.depthAfter (t : Token) (depth : Int) : Int :=
  match t.kind with
  | .lparen => depth + 1
  | .rparen => depth - 1
  | _ => depth

/-- Cuts at the tokens of one kind that stand outside all parentheses. -/
def splitTokens (kind : TokenKind) : Int → List Token → List (List Token)
  | _, [] => [[]]
  | depth, t :: ts =>
    if t.kind = kind ∧ depth = 0 then [] :: splitTokens kind depth ts
    else (splitTokens kind (t.depthAfter depth) ts).modifyHead (t :: ·)

theorem total_length_splitTokens (kind : TokenKind) (depth : Int) (ts : List Token) :
    total ((splitTokens kind depth ts).map List.length) + (splitTokens kind depth ts).length =
      ts.length + 1 := by
  induction ts generalizing depth with
  | nil => simp [splitTokens, total]
  | cons t ts ih =>
    rw [splitTokens]
    split
    · simp [total, ← ih depth]
      omega
    · have := ih (t.depthAfter depth)
      cases hs : splitTokens kind (t.depthAfter depth) ts <;> simp_all [total]
      omega

/-- A part of a proper cut is shorter than the whole. -/
theorem length_add_length_splitTokens_le {kind : TokenKind} {ts part : List Token} (depth : Int)
    (h : part ∈ splitTokens kind depth ts) :
    part.length + (splitTokens kind depth ts).length ≤ ts.length + 1 := by
  have := total_length_splitTokens kind depth ts
  have := le_total_of_mem (List.mem_map_of_mem (f := List.length) h)
  omega

/-- The tokens at which `splitTokens` cuts. -/
def cuts (kind : TokenKind) : Int → List Token → List Token
  | _, [] => []
  | depth, t :: ts =>
    if t.kind = kind ∧ depth = 0 then t :: cuts kind depth ts
    else cuts kind (t.depthAfter depth) ts

/-- The trimmed pieces of a text between the given tokens. -/
def pieces (cs : List Char) (start : Nat) : List Token → List String
  | [] => [String.ofList (Text.trim (cs.drop start))]
  | t :: ts =>
    String.ofList (Text.trim ((cs.drop start).take (t.start - start))) :: pieces cs t.stop ts

/-- Cuts a text at its top-level tokens of one kind. -/
def splitText (kind : TokenKind) (text : String) : Except SyntaxFault (List String) := do
  return pieces text.toList 0 (cuts kind 0 (← tokenize text))

end MarkdownVault.Filter
