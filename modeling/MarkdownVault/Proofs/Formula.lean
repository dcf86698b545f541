import MarkdownVault.Formula
import MarkdownVault.Proofs.Filter.Literal
import MarkdownVault.Proofs.Filter.Splitting

/-!
# What formulas compute

A call of `concat` puts the texts of its arguments one behind the other. A formula that is neither a
property nor a call is its own value, unless it begins like a call and ends like one.
-/

namespace MarkdownVault.Formula

open MarkdownVault.Filter (IsWord IsValue splitText tokenize isWordPart)

variable {name args s : String} {r : Record}

/-! ## The form of a call -/

/-- A text between `name(` and a last parenthesis, whatever other parentheses do. -/
def Wraps (name args s : String) : Prop := args ≠ "" ∧ s = name ++ "(" ++ args ++ ")"

theorem argumentOf?_eq_some_iff : argumentOf? name s = some args ↔ Wraps name args s := by
  have htoList : s = name ++ "(" ++ args ++ ")" ↔
      s.toList = name.toList ++ ['('] ++ (args.toList ++ [')']) := by
    rw [← String.toList_inj]
    simp
  rw [argumentOf?, Wraps, htoList]
  constructor
  · intro h
    split at h
    case h_1 => cases h
    case h_2 cs hcs =>
      obtain ⟨⟨hlast, hlength⟩, hargs⟩ := Option.ite_none_right_eq_some.1 h
      cases hargs
      obtain ⟨front, rfl⟩ := List.getLast?_eq_some_iff.1 hlast
      rw [Text.eq_of_dropStart? hcs, List.dropLast_concat, String.toList_ofList]
      refine ⟨?_, rfl⟩
      rw [ne_eq, ← String.toList_eq_nil_iff, String.toList_ofList]
      rintro rfl
      simp at hlength
  · rintro ⟨hne, htext⟩
    have hlength : 1 < (args.toList ++ [')']).length := by
      have hpos := List.length_pos_iff.2 fun hnil => hne (String.toList_eq_nil_iff.1 hnil)
      rw [List.length_append]
      exact Nat.lt_add_of_pos_left hpos
    have hstart : Text.dropStart? (name.toList ++ ['(']) s.toList =
        some (args.toList ++ [')']) := by
      rw [htext, Text.dropStart?_prefix]
    rw [hstart]
    simp only [List.getLast?_concat, true_and, hlength, if_true, List.dropLast_concat,
      String.ofList_toList]

theorem argumentOf?_eq_none (h : ∀ args, ¬Wraps name args s) : argumentOf? name s = none := by
  rw [Option.eq_none_iff_forall_ne_some]
  exact fun args hargs => h args (argumentOf?_eq_some_iff.1 hargs)

/-- Of the two calls a text has the form of one at most. -/
theorem not_wraps_length {args' : String} (h : Wraps "concat" args s) :
    ¬Wraps "length" args' s := by
  rintro ⟨-, htext⟩
  have heq := congrArg String.toList (h.2.symm.trans htext)
  simp at heq

theorem trim_of_wraps (h : Wraps "concat" args s) : trim s = s := by
  have hends := @Text.trim_enclosed 'c' ')' (by decide) (by decide) ("oncat(".toList ++ args.toList)
  have htoList : s.toList = 'c' :: ("oncat(".toList ++ args.toList ++ [')']) := by simp [h.2]
  rw [trim, mapChars, htoList, hends, ← htoList, String.ofList_toList]

theorem isProperty_eq_false_iff :
    isProperty s = false ↔ ∃ c ∈ s.toList, c ∈ ['(', '+', '-'] := by
  simp only [isProperty, Bool.not_eq_false', List.any_eq_true, List.contains_iff_mem]

/-! ## Concatenation -/

/-- An argument of `concat`: a text that stands between marks and does not hold the mark or a
backslash, or the name of a property that is one word. -/
inductive Argument where
  | quoted (quote : Char) (text : String) (hquote : quote ∈ ['"', '\''])
      (hplain : quote ∉ text.toList ∧ '\\' ∉ text.toList)
  | property (key : String) (hkey : IsWord key)

namespace Argument

def text : Argument → String
  | quoted quote text _ _ => String.ofList [quote] ++ text ++ String.ofList [quote]
  | property key _ => key

/-- What an argument adds for a note. -/
def meaning (r : Record) : Argument → Except ValueFault String
  | quoted _ text _ _ => .ok text
  | property key _ => (r.value key none).asText

theorem isValue (a : Argument) : IsValue a.text.toList := by
  cases a with
  | quoted quote text hquote hplain =>
    have hlexeme := Filter.lexeme?_literal hquote text
    rw [Filter.literal_of_notMem hplain.1 hplain.2, ← String.length_toList] at hlexeme
    exact ⟨.literal, .inr rfl, hlexeme⟩
  | property key hkey =>
    refine ⟨.word, .inl rfl, ?_⟩
    obtain ⟨hne, hparts⟩ := hkey
    change Filter.lexeme? key.toList = some (some .word, key.toList.length)
    cases hcs : key.toList with
    | nil => exact absurd (String.toList_eq_nil_iff.1 hcs) hne
    | cons c cs =>
      rw [hcs, List.forall_mem_cons] at hparts
      rw [Filter.lexeme?_of_isWordPart hparts.1, List.takeWhile_eq_self_iff.2 hparts.2]
      rfl

theorem text_ne (a : Argument) : a.text ≠ "" := by
  obtain ⟨kind, -, hlexeme⟩ := a.isValue
  exact fun h => (Filter.lexeme?_pos hlexeme).2 (String.toList_eq_nil_iff.2 h)

theorem trim_text (a : Argument) : Text.trim a.text.toList = a.text.toList := by
  cases a with
  | quoted quote text hquote hplain =>
    have hmark : ¬Text.isBlank quote := by
      simp only [List.mem_cons, List.not_mem_nil, or_false] at hquote
      rcases hquote with rfl | rfl <;> decide
    simpa [Argument.text] using Text.trim_enclosed hmark hmark text.toList
  | property key hkey =>
    apply Text.trim_of_dark
    intro c hc hblank
    simpa [isWordPart, hblank] using hkey.2 c hc

theorem concatPiece_text (r : Record) (a : Argument) : concatPiece r a.text = a.meaning r := by
  cases a with
  | quoted quote text hquote hplain =>
    have htoList : (quoted quote text hquote hplain).text.toList =
        quote :: (text.toList ++ [quote]) := by simp [Argument.text]
    have hquoted : isQuoted (quoted quote text hquote hplain).text := by
      rw [isQuoted, htoList]
      cases text.toList with
      | nil => simpa using hquote
      | cons d ds => simpa [List.getLast?_cons] using hquote
    rw [concatPiece, if_pos hquoted, mapChars, htoList]
    simp [meaning]
  | property key hkey =>
    have hquoted : ¬isQuoted key := by
      unfold isQuoted
      split
      case h_1 c d cs hcs =>
        have hc : isWordPart c := hkey.2 c (by simp [hcs])
        have hmark : (c == '"' || c == '\'') = false := by
          by_contra hmark
          simp only [Bool.not_eq_false, Bool.or_eq_true, beq_iff_eq] at hmark
          rcases hmark with rfl | rfl <;> exact absurd hc (by decide)
        simp [hmark]
      case h_2 => exact Bool.false_ne_true
    exact if_neg hquoted

end Argument

/-- A call of `concat`. -/
def concatenation (args : List Argument) : String :=
  "concat(" ++ joinWith ", " (args.map Argument.text) ++ ")"

theorem splitText_arguments {args : List Argument} (h : args ≠ []) :
    splitText .comma (joinWith ", " (args.map Argument.text)) = .ok (args.map Argument.text) := by
  cases args with
  | nil => exact absurd rfl h
  | cons a args =>
    have hvalues : ∀ v ∈ (args.map Argument.text).map String.toList, IsValue v := by
      intro v hv
      obtain ⟨s, hs, rfl⟩ := List.mem_map.1 hv
      obtain ⟨b, -, rfl⟩ := List.mem_map.1 hs
      exact b.isValue
    have hparts : Filter.piecesFrom [] ([] ++ ", ".toList.intercalate
          (a.text.toList :: (args.map Argument.text).map String.toList)) =
        .ok ((a.text.toList :: (args.map Argument.text).map String.toList).map fun v =>
          String.ofList (Text.trim v)) :=
      Filter.piecesFrom_intercalate (by simp) a.isValue hvalues []
    rw [Filter.splitText_comma, toList_joinWith, List.map_cons, List.map_cons]
    refine hparts.trans (congrArg Except.ok ?_)
    simp [Function.comp_def, Argument.trim_text]

theorem splitText_empty : splitText .comma "" = .ok [""] := by
  rw [Filter.splitText_comma, Filter.piecesFrom, String.toList_empty, Filter.tokensFrom_nil]
  rfl

/-- A call of `concat` has as its value the texts between marks and the texts of the properties, in
their order. It has none if a property has no text. -/
theorem eval_concatenation (r : Record) (args : List Argument) (h : args ≠ []) :
    eval (concatenation args) r =
      (args.mapM (Argument.meaning r)).map fun texts => .text (String.join texts) := by
  have hwraps : Wraps "concat" (joinWith ", " (args.map Argument.text)) (concatenation args) := by
    refine ⟨fun hempty => ?_, rfl⟩
    have hsplit := splitText_arguments h
    rw [hempty, splitText_empty] at hsplit
    obtain ⟨a, ha, htext⟩ : ∃ a ∈ args, a.text = "" := by
      rw [← List.mem_map, ← Except.ok.inj hsplit]
      exact List.mem_singleton_self ""
    exact a.text_ne htext
  have htrim : trim (concatenation args) = concatenation args := trim_of_wraps hwraps
  have hsign : isProperty (concatenation args) = false :=
    isProperty_eq_false_iff.2 ⟨'(', by simp [concatenation], by simp⟩
  have hpieces : (args.map Argument.text).mapM (concatPiece r) = args.mapM (Argument.meaning r) := by
    rw [List.mapM_map]
    congr 1
    funext a
    exact a.concatPiece_text r
  simp only [eval, htrim, hsign, Bool.false_eq_true, if_false, argumentOf?_eq_some_iff.2 hwraps,
    splitText_arguments h, hpieces]
  rfl

/-- A record of which nothing is known. -/
def blank : Record :=
  { path := "", name := "", folder := "", extension := "", size := 0, created := .zero false,
    modified := .zero false, tags := [], links := [], properties := [] }

/-- A parenthesis, a comma, a line feed, signs and the other mark within texts. -/
theorem eval_concatenation_hostile : ∃ args : List Argument, args ≠ [] ∧
    concatenation args = "concat(\"), (x\n\", title, '\" + -', pages)" ∧
      eval (concatenation args)
          { blank with properties := [("title", .text "Dune"), ("pages", .int 412)] } =
        .ok (.text "), (x\nDune\" + -412") := by
  let args : List Argument := [
    .quoted '"' "), (x\n" (by decide) (by decide), .property "title" (by decide),
    .quoted '\'' "\" + -" (by decide) (by decide), .property "pages" (by decide)]
  have hargs : args ≠ [] := List.cons_ne_nil _ _
  exact ⟨args, hargs, by decide +kernel, (eval_concatenation _ args hargs).trans rfl⟩

/-! ## Formulas that are no call -/

/-- What stands behind the parenthesis that closes an open one, with `depth` more open inside of it.
Between quotation marks parentheses do not count, and a backslash takes the next character along. -/
def behindClosing? : Nat → Option Char → List Char → Option (List Char)
  | _, _, [] => none
  | depth, some mark, '\\' :: _ :: cs => behindClosing? depth (some mark) cs
  | depth, some mark, c :: cs => behindClosing? depth (if c = mark then none else some mark) cs
  | depth, none, c :: cs =>
    if c = '(' then behindClosing? (depth + 1) none cs
    else if c = ')' then
      match depth with
      | 0 => some cs
      | depth + 1 => behindClosing? depth none cs
    else behindClosing? depth (if c ∈ ['"', '\''] then some c else none) cs

/-- A text that opens with `name(` and ends where this parenthesis is closed. -/
def IsCall (name s : String) : Prop :=
  ∃ cs, s.toList = name.toList ++ '(' :: cs ∧ behindClosing? 0 none cs = some []

theorem isCall_iff : IsCall name s ↔
    (Text.dropStart? (name.toList ++ ['(']) s.toList).bind (behindClosing? 0 none) = some [] := by
  constructor
  · rintro ⟨cs, hs, hclosed⟩
    have hstart : s.toList = name.toList ++ ['('] ++ cs := hs.trans (by simp)
    rw [hstart, Text.dropStart?_prefix, Option.bind_some, hclosed]
  · intro h
    obtain ⟨cs, hstart, hclosed⟩ := Option.bind_eq_some_iff.1 h
    refine ⟨cs, ?_, hclosed⟩
    rw [Text.eq_of_dropStart? hstart, List.append_assoc, List.singleton_append]

instance (name s : String) : Decidable (IsCall name s) := decidable_of_iff _ isCall_iff.symm

/-- A text that begins like a call and ends like one, while the parenthesis behind the name is closed
before the end, or nowhere. -/
def Feigns (name args s : String) : Prop := Wraps name args s ∧ ¬IsCall name s

/-- A text that is evaluated as a call though it is none. -/
def IsMistaken (s : String) : Prop :=
  (∃ args, Feigns "length" args s) ∨
    ∃ args, Feigns "concat" args s ∧ ∃ ts, tokenize args = .ok ts

/-! ### What is found in a blank record -/

theorem length_asText_fileProperty (field : String) :
    ∃ s, (blank.fileProperty field).asText = .ok s ∧ s.length ≤ 1 := by
  unfold Record.fileProperty
  split
  all_goals exact ⟨_, rfl, by decide +kernel⟩

/-- No value has a longer text than its name. -/
theorem length_asText_value (key : String) :
    ∃ s, (blank.value key none).asText = .ok s ∧ s.length ≤ key.length := by
  rw [Record.value]
  split
  case isTrue hfile =>
    obtain ⟨s, hs, hlength⟩ := length_asText_fileProperty (dropChars 5 key)
    have hprefix : ("file.".toList).length ≤ key.toList.length :=
      (List.isPrefixOf_iff_prefix.1 hfile).length_le
    have hfive : ("file.".toList).length = 5 := rfl
    rw [hfive, String.length_toList] at hprefix
    exact ⟨s, hs, by omega⟩
  case isFalse =>
    refine ⟨"", ?_, Nat.zero_le _⟩
    simp only [Record.noteProperty, blank, List.lookup_nil, Option.getD_none, ite_self]
    rfl

theorem length_concatPiece (arg : String) :
    ∃ s, concatPiece blank arg = .ok s ∧ s.length ≤ arg.length := by
  rw [concatPiece]
  split
  case isTrue =>
    refine ⟨_, rfl, ?_⟩
    rw [mapChars, String.length_ofList, ← String.length_toList]
    simp only [List.length_dropLast, List.length_drop]
    omega
  case isFalse => exact length_asText_value arg

theorem length_join (texts : List String) :
    (String.join texts).length = total (texts.map String.length) := by
  induction texts with
  | nil => rfl
  | cons s texts ih => rw [String.join_cons, String.length_append, ih, List.map_cons, total]

theorem length_mapM_concatPiece (args : List String) :
    ∃ texts, args.mapM (concatPiece blank) = .ok texts ∧
      total (texts.map String.length) ≤ total (args.map String.length) := by
  induction args with
  | nil => exact ⟨[], rfl, le_rfl⟩
  | cons arg args ih =>
    obtain ⟨s, hs, hlength⟩ := length_concatPiece arg
    obtain ⟨texts, htexts, htotal⟩ := ih
    refine ⟨s :: texts, mapM_cons_eq_ok_iff.2 ⟨s, texts, hs, htexts, rfl⟩, ?_⟩
    simp only [List.map_cons, total]
    omega

/-! ### Whether a formula is its own value -/

variable {formula : String}

theorem length_lt_of_wraps (h : Wraps name args (trim formula)) : args.length < formula.length := by
  have htrim : (trim formula).length ≤ formula.length := by
    rw [trim, mapChars, String.length_ofList, ← String.length_toList]
    exact Text.length_trim_le _
  rw [h.2] at htrim
  simp only [String.length_append] at htrim
  have hparen : "(".length = 1 := rfl
  omega

/-- In a blank record a text that goes through as a call of `concat` has a shorter value. -/
theorem eval_ne_of_concat (hsign : isProperty (trim formula) = false)
    (hwraps : Wraps "concat" args (trim formula)) {ts : List Filter.Token}
    (hts : tokenize args = .ok ts) : eval formula blank ≠ .ok (.text formula) := by
  intro h
  obtain ⟨parts, hparts⟩ : ∃ parts, splitText .comma args = .ok parts := by
    rw [splitText, hts]
    exact ⟨_, rfl⟩
  obtain ⟨texts, htexts, htotal⟩ := length_mapM_concatPiece parts
  have heval : eval formula blank = .ok (.text (String.join texts)) := by
    simp only [eval, hsign, Bool.false_eq_true, if_false, argumentOf?_eq_some_iff.2 hwraps, hparts,
      htexts]
    rfl
  rw [heval] at h
  injection h with h
  injection h with h
  have hlength := congrArg String.length h
  have hsplit := Filter.total_length_splitText_le hparts
  have hwhole := length_lt_of_wraps hwraps
  rw [length_join] at hlength
  omega

theorem eval_of_length (hsign : isProperty (trim formula) = false)
    (hwraps : Wraps "length" args (trim formula)) (r : Record) :
    ∃ n : Nat, eval formula r = .ok (.int n) := by
  have hconcat := argumentOf?_eq_none fun args' h => not_wraps_length h hwraps
  refine ⟨lengthOf (r.value (trim args) none), ?_⟩
  simp only [eval, hsign, Bool.false_eq_true, if_false, hconcat, argumentOf?_eq_some_iff.2 hwraps]

/-- A formula with a parenthesis or a sign that is no call is its own value for every note, unless
it is mistaken for a call. -/
theorem eval_unsupported_iff (formula : String)
    (hsign : ∃ c ∈ (trim formula).toList, c ∈ ['(', '+', '-'])
    (hconcat : ¬IsCall "concat" (trim formula)) (hlength : ¬IsCall "length" (trim formula)) :
    (∀ r, eval formula r = .ok (.text formula)) ↔ ¬IsMistaken (trim formula) := by
  have hproperty := isProperty_eq_false_iff.2 hsign
  constructor
  · rintro h (⟨args, ⟨hwraps, -⟩⟩ | ⟨args, ⟨hwraps, -⟩, ts, hts⟩)
    · obtain ⟨n, hn⟩ := eval_of_length hproperty hwraps blank
      cases hn.symm.trans (h blank)
    · exact eval_ne_of_concat hproperty hwraps hts (h blank)
  · intro h r
    have hnone : argumentOf? "length" (trim formula) = none :=
      argumentOf?_eq_none fun args hwraps => h (.inl ⟨args, hwraps, hlength⟩)
    cases hargs : argumentOf? "concat" (trim formula) with
    | none => simp only [eval, hproperty, Bool.false_eq_true, if_false, hargs, hnone]
    | some args =>
      have hwraps := argumentOf?_eq_some_iff.1 hargs
      have hfault : ∃ fault, splitText .comma args = .error fault := by
        cases hts : tokenize args with
        | error fault => exact ⟨fault, by rw [splitText, hts]; rfl⟩
        | ok ts => exact absurd (.inr ⟨args, ⟨hwraps, hconcat⟩, ts, hts⟩) h
      obtain ⟨fault, hfault⟩ := hfault
      simp only [eval, hproperty, Bool.false_eq_true, if_false, hargs, hfault]

/-- A sequence of calls in which something is no lexeme stays what it is. -/
theorem eval_unsupported_iff_stray :
    let formula := " concat(a & b) + length(c)"
    (∃ c ∈ (trim formula).toList, c ∈ ['(', '+', '-']) ∧ ¬IsCall "concat" (trim formula) ∧
      ¬IsCall "length" (trim formula) ∧ ∀ r, eval formula r = .ok (.text formula) := by
  intro formula
  have hsign : ∃ c ∈ (trim formula).toList, c ∈ ['(', '+', '-'] :=
    ⟨'(', by decide +kernel, by decide⟩
  have hconcat : ¬IsCall "concat" (trim formula) := by decide +kernel
  have hlength : ¬IsCall "length" (trim formula) := by decide +kernel
  refine ⟨hsign, hconcat, hlength, (eval_unsupported_iff formula hsign hconcat hlength).2 ?_⟩
  rintro (⟨args, hwraps, -⟩ | ⟨args, ⟨hwraps, -⟩, ts, hts⟩)
  · have hnone : argumentOf? "length" (trim formula) = none := by decide +kernel
    cases hnone.symm.trans (argumentOf?_eq_some_iff.2 hwraps)
  · have hargs : argumentOf? "concat" (trim formula) = some "a & b) + length(c" := by
      decide +kernel
    have hfault : tokenize "a & b) + length(c" = .error (.unexpected '&' 2) := by
      decide +kernel
    cases hargs.symm.trans (argumentOf?_eq_some_iff.2 hwraps)
    cases hfault.symm.trans hts

/-- A sum of two calls is no call, and still it is evaluated as one. -/
theorem sum_taken_for_call :
    let formula := "length(a) + length(b)"
    (∃ c ∈ (trim formula).toList, c ∈ ['(', '+', '-']) ∧ ¬IsCall "concat" (trim formula) ∧
      ¬IsCall "length" (trim formula) ∧ eval formula blank = .ok (.int 0) := by
  refine ⟨⟨'(', by decide +kernel, by decide⟩, by decide +kernel, by decide +kernel, ?_⟩
  rfl

end MarkdownVault.Formula
