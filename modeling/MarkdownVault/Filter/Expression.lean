import MarkdownVault.Filter.Token
import MarkdownVault.Value.Coercion
import MarkdownVault.Text.Quoted

/-!
# Filter expressions

The language has no operator precedence table. A row of tokens is tried against these forms in
order: parts joined by a top-level `&&`, parts joined by a top-level `||`, a leading `!`, a pair
of parentheses around everything, a call, two values with a comparison between them, and one
value. So `a || b && c` means `(a || b) && c`.
-/

namespace MarkdownVault.Filter

inductive Comparison where
  | eq
  | ne
  | gt
  | lt
  | ge
  | le
  deriving DecidableEq, Repr

namespace Comparison

def symbol : Comparison → String
  | eq => "=="
  | ne => "!="
  | gt => ">"
  | lt => "<"
  | ge => ">="
  | le => "<="

def ofSymbol (s : String) : Comparison :=
  if s = "==" then eq
  else if s = "!=" then ne
  else if s = ">=" then ge
  else if s = "<=" then le
  else if s = ">" then gt
  else lt

theorem ofSymbol_symbol (c : Comparison) : ofSymbol c.symbol = c := by cases c <;> decide

end Comparison

/-- A value in an expression, with the text it was written as. -/
inductive Operand where
  | constant (value : Value) (text : String)
  | fileProperty (name text : String)
  | property (name : String)
  deriving Repr, BEq

inductive Expression where
  | all (parts : List Expression)
  | any (parts : List Expression)
  | negate (operand : Expression)
  | call (name : String) (args : List Operand)
  | compare (left : Operand) (op : Comparison) (right : Operand)
  | truthy (value : Operand)
  deriving Repr

namespace SyntaxFault

def message : SyntaxFault → String
  | unexpected c position =>
    "Unexpected character " ++ quoted (String.ofList [c]) ++ " at " ++
      Value.natText position
  | unmatched position => "Unmatched ')' at " ++ Value.natText position
  | unclosed => "Unclosed '('"
  | empty => "Empty expression"
  | severalValues joined => "Expected a single value, got " ++ quoted joined
  | noValue text => "Expected a value, got " ++ quoted text

end SyntaxFault

/-- The nesting never falls below zero and ends at zero. -/
def checkBalanced : Nat → List Token → Except SyntaxFault Unit
  | 0, [] => .ok ()
  | _ + 1, [] => .error .unclosed
  | depth, t :: ts =>
    match t.kind, depth with
    | .lparen, _ => checkBalanced (depth + 1) ts
    | .rparen, 0 => .error (.unmatched t.start)
    | .rparen, depth + 1 => checkBalanced depth ts
    | _, _ => checkBalanced depth ts

/-- A backslash stands for the character after it; it never ends a line. -/
def unescape : List Char → List Char
  | '\\' :: c :: cs => if c = '\n' then '\\' :: c :: unescape cs else c :: unescape cs
  | c :: cs => c :: unescape cs
  | [] => []

/-- The content of a quoted literal. -/
def unquote (text : String) : String := mapChars (fun cs => unescape (cs.drop 1).dropLast) text

/-- A word of digits, with an optional minus sign and an optional fraction. -/
def readNumeral? (cs : List Char) : Option Value := do
  let (negative, cs) := match cs with
    | '-' :: cs => (true, cs)
    | cs => (false, cs)
  let (whole, rest) := cs.span Text.isDecimalDigit
  if whole.isEmpty then none
  match rest with
  | [] =>
    let x := Binary64.ofDecimal negative (Text.digitsValue whole) 0
    match x.toInt? with
    | some n => return .int n
    | none => return .float x
  | '.' :: fraction =>
    if fraction.isEmpty || !fraction.all Text.isDecimalDigit then none
    return .float (Binary64.ofDecimal negative (Text.digitsValue (whole ++ fraction))
      (-Int.ofNat fraction.length))
  | _ => none

def wordOperand (word : String) : Operand :=
  match readNumeral? word.toList with
  | some v => .constant v word
  | none =>
    if word = "true" then .constant (.bool true) word
    else if word = "false" then .constant (.bool false) word
    else if word = "null" then .constant .null word
    else if startsWith word "file." then .fileProperty (dropChars 5 word) word
    else .property word

/-- Exactly one token, and that a literal or a word. -/
def operand : List Token → Except SyntaxFault Operand
  | [t] => match t.kind with
    | .literal => .ok (.constant (.text (unquote t.text)) t.text)
    | .word => .ok (wordOperand t.text)
    | _ => .error (.noValue t.text)
  | ts => .error (.severalValues (joinWith " " (ts.map Token.text)))

/-- The tokens up to the parenthesis that closes the first one, and the tokens after it. The
first token is the opening parenthesis when the depth is zero. -/
def closing? : Nat → List Token → Option (List Token)
  | _, [] => none
  | depth, t :: ts =>
    match t.kind with
    | .lparen => closing? (depth + 1) ts
    | .rparen => if depth ≤ 1 then some ts else closing? (depth - 1) ts
    | _ => closing? depth ts

/-- Whether the first token is a parenthesis that the last token closes. -/
def isGroup : List Token → Bool
  | t :: ts => t.kind == .lparen && closing? 1 ts == some []
  | [] => false

/-- The first comparison outside all parentheses, with the tokens on both sides. -/
def splitComparison? : Int → List Token → Option (List Token × Token × List Token)
  | _, [] => none
  | depth, t :: ts =>
    if t.kind = .op ∧ depth = 0 then some ([], t, ts)
    else (splitComparison? (t.depthAfter depth) ts).map fun (left, op, right) =>
      (t :: left, op, right)

/-- A call, a comparison or a single value. -/
def simpleExpression (ts : List Token) : Except SyntaxFault Expression :=
  match ts with
  | ⟨.word, name, _, _⟩ :: rest =>
    if isGroup rest then
      let inner := (rest.drop 1).dropLast
      if inner.isEmpty then .ok (.call name [])
      else do return .call name (← (splitTokens .comma 0 inner).mapM operand)
    else unnamed ts
  | _ => unnamed ts
where
  unnamed (ts : List Token) : Except SyntaxFault Expression :=
    match splitComparison? 0 ts with
    | some (left, op, right) => do
      let left ← operand left
      let right ← operand right
      return .compare left (.ofSymbol op.text) right
    | none => do return .truthy (← operand ts)

/-- A row of tokens with balanced parentheses as an expression. -/
def ofTokens (ts : List Token) : Except SyntaxFault Expression :=
  match ts with
  | [] => .error .empty
  | t :: rest =>
    let conjuncts := splitTokens .and 0 (t :: rest)
    if _hc : 1 < conjuncts.length then do
      return .all (← conjuncts.attach.mapM fun ⟨part, _⟩ => ofTokens part)
    else
      let disjuncts := splitTokens .or 0 (t :: rest)
      if _hd : 1 < disjuncts.length then do
        return .any (← disjuncts.attach.mapM fun ⟨part, _⟩ => ofTokens part)
      else if t.kind = .not then do
        return .negate (← ofTokens rest)
      else if isGroup (t :: rest) then ofTokens rest.dropLast
      else simpleExpression (t :: rest)
termination_by ts.length
decreasing_by
  · rename_i hm
    have := length_add_length_splitTokens_le 0 hm
    simp only [List.length_cons] at this ⊢
    simp only [conjuncts] at _hc
    omega
  · rename_i hm
    have := length_add_length_splitTokens_le 0 hm
    simp only [List.length_cons] at this ⊢
    simp only [disjuncts] at _hd
    omega
  · simp
  · simp only [List.length_dropLast, List.length_cons]
    omega

/-- The expression that a text denotes. -/
def parse (text : String) : Except SyntaxFault Expression := do
  let ts ← tokenize text
  checkBalanced 0 ts
  ofTokens ts

end MarkdownVault.Filter
