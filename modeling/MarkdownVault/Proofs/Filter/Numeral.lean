import Mathlib.Data.List.TakeDrop
import MarkdownVault.Proofs.Filter.Phrase
import MarkdownVault.Proofs.Number.Representable

/-!
# Integers as literals

The decimal text of an integer is a word that stands for the integer it is rounded to. So a property
that holds an integer is compared with another number than the one that is written, unless that one
has at most 53 bits and is not too great.
-/

namespace MarkdownVault

/-! ## Decimal texts -/

theorem Text.digitsValue_toDigits (n : Nat) : Text.digitsValue (Nat.toDigits 10 n) = n := by
  have hvalue {cs : List Char} (hcs : ∀ c ∈ cs, c.isDigit) (init : Nat) :
      cs.foldl (fun n c => 10 * n + (Text.digitValue? c).getD 0) init =
        Nat.ofDigitChars 10 cs init := by
    induction cs generalizing init with
    | nil => rfl
    | cons c cs ih =>
      rw [List.forall_mem_cons] at hcs
      rw [List.foldl_cons, ih hcs.2, Text.digitValue?_of_isDigit hcs.1, Nat.ofDigitChars_cons]
      rfl
  rw [Text.digitsValue, hvalue (fun c => Nat.isDigit_of_mem_toDigits (by decide) (by decide)),
    Nat.ofDigitChars_ten_toDigits]

namespace Value

theorem toList_intText (n : Int) :
    (intText n).toList = (if n < 0 then ['-'] else []) ++ Nat.toDigits 10 n.natAbs := by
  rw [intText]
  split <;> simp [natText]

theorem isDigit_of_mem_digits {n : Nat} {c : Char} (h : c ∈ Nat.toDigits 10 n) : c.isDigit :=
  Nat.isDigit_of_mem_toDigits (by decide) (by decide) h

theorem head?_intText_iff (n : Int) : (intText n).toList.head? = some '-' ↔ n < 0 := by
  have hdigits : (Nat.toDigits 10 n.natAbs).head? ≠ some '-' := fun h =>
    absurd (isDigit_of_mem_digits (List.mem_of_mem_head? h)) (by decide)
  rw [toList_intText]
  split <;> simp_all

theorem intText_injective : Function.Injective intText := by
  intro n m h
  have hsign : n < 0 ↔ m < 0 := by rw [← head?_intText_iff, h, head?_intText_iff]
  have hlist := congrArg String.toList h
  rw [toList_intText, toList_intText, if_congr hsign rfl rfl, List.append_cancel_left_eq] at hlist
  have habs : n.natAbs = m.natAbs := by
    rw [← Text.digitsValue_toDigits n.natAbs, hlist, Text.digitsValue_toDigits]
  omega

/-- The texts of infinite numbers are no decimal texts. -/
theorem intText_ne_infinity (n : Int) (a : Bool) :
    intText n ≠ (Binary64.infinite a).textWith "NaN" "Infinity" := by
  have hdigits : 'I' ∉ (intText n).toList := by
    rw [toList_intText, List.mem_append, not_or]
    refine ⟨by split <;> simp, fun h => absurd (isDigit_of_mem_digits h) (by decide)⟩
  intro h
  rw [h] at hdigits
  cases a <;> exact hdigits (by decide)

end Value

namespace Filter

open Value (intText toList_intText isDigit_of_mem_digits)

/-! ## Numerals -/

theorem isWordPart_of_isDigit {c : Char} (h : c.isDigit) : isWordPart c := by
  have hblank : Text.isBlank c = false := by
    obtain ⟨hlow, hhigh⟩ : 48 ≤ c.toNat ∧ c.toNat ≤ 57 := Char.isDigit_iff_toNat.1 h
    simp [Text.isBlank]
    omega
  have hmark : c ∉ ['(', ')', '!', ',', '&', '|', '=', '<', '>', '"', '\''] := by
    intro hmem
    have hdigit :
        ['(', ')', '!', ',', '&', '|', '=', '<', '>', '"', '\''].any Char.isDigit = false := rfl
    exact List.any_eq_false.1 hdigit c hmem h
  simp [isWordPart, hblank, hmark]

theorem isWord_intText (n : Int) : IsWord (intText n) := by
  constructor
  · intro h
    have hlist := congrArg String.toList h
    rw [toList_intText] at hlist
    exact Nat.toDigits_ne_nil (List.append_eq_nil_iff.1 hlist).2
  · intro c hc
    rw [toList_intText, List.mem_append] at hc
    rcases hc with hc | hc
    · split at hc
      · obtain rfl := List.mem_singleton.1 hc
        decide
      · cases hc
    · exact isWordPart_of_isDigit (isDigit_of_mem_digits hc)

/-- A number as a literal holds it: as an integer if it is one. -/
def wholeValue (x : Binary64) : Value :=
  match x.toInt? with
  | some n => .int n
  | none => .float x

section

variable {cs : List Char} (hcs : ∀ c ∈ cs, c.isDigit)
include hcs

theorem span_digits : cs.span Text.isDecimalDigit = (cs, []) := by
  have hdigits : ∀ c ∈ cs, Text.isDecimalDigit c := fun c hc => by
    simp [Text.isDecimalDigit, Text.digitValue?_of_isDigit (hcs c hc)]
  rw [List.span_eq_takeWhile_dropWhile, List.takeWhile_eq_self_iff.2 hdigits,
    List.dropWhile_eq_nil_iff.2 hdigits]

theorem readNumeral?_minus (hne : cs ≠ []) : readNumeral? ('-' :: cs) =
    some (wholeValue (Binary64.ofDecimal true (Text.digitsValue cs) 0)) := by
  simp only [readNumeral?, span_digits hcs, List.isEmpty_eq_false_iff.2 hne, wholeValue]
  cases (Binary64.ofDecimal true (Text.digitsValue cs) 0).toInt? <;> rfl

theorem readNumeral?_digits (hne : cs ≠ []) : readNumeral? cs =
    some (wholeValue (Binary64.ofDecimal false (Text.digitsValue cs) 0)) := by
  cases cs with
  | nil => exact absurd rfl hne
  | cons c cs =>
    have hc : c ≠ '-' := by
      rintro rfl
      exact absurd (hcs '-' (by simp)) (by decide)
    cases htoInt : (Binary64.ofDecimal false (Text.digitsValue (c :: cs)) 0).toInt? <;>
      simp [readNumeral?, hc, span_digits hcs, wholeValue, htoInt,
        -List.span_eq_takeWhile_dropWhile]

end

/-- What the decimal text of an integer stands for: the integer that it is rounded to, or an
infinite number. -/
theorem readNumeral?_intText (n : Int) :
    readNumeral? (intText n).toList = some (wholeValue (Binary64.ofInt n)) := by
  have hdigits : ∀ c ∈ Nat.toDigits 10 n.natAbs, c.isDigit := fun _ => isDigit_of_mem_digits
  rw [toList_intText, ← Binary64.ofDecimal_natAbs]
  by_cases hn : n < 0
  · rw [if_pos hn, List.singleton_append, readNumeral?_minus hdigits Nat.toDigits_ne_nil,
      Text.digitsValue_toDigits, decide_eq_true hn]
  · rw [if_neg hn, List.nil_append, readNumeral?_digits hdigits Nat.toDigits_ne_nil,
      Text.digitsValue_toDigits, decide_eq_false hn]

theorem asText_wholeValue (x : Binary64) : (wholeValue x).asText = .ok (Value.numberText x) := by
  rw [wholeValue]
  cases htoInt : x.toInt? with
  | some n => simp [Value.asText, Value.numberText, htoInt]
  | none => rfl

/-- The rounded integer has the text of exactly the integer that it equals. -/
theorem intText_eq_numberText_iff {n m : Int} :
    intText n = Value.numberText (Binary64.ofInt m) ↔ (Binary64.ofInt m).toInt? = some n := by
  rw [Value.numberText]
  rcases Binary64.ofInt_infinite_or m with hinfinite | ⟨k, hk⟩
  · simp only [hinfinite, Binary64.toInt?, reduceCtorEq, iff_false]
    exact Value.intText_ne_infinity n _
  · simp only [hk, Value.intText_injective.eq_iff, Option.some.injEq]
    exact eq_comm

/-! ## Comparisons with integers -/

section

variable {p : String} {r : Record} {n : Int} (hp : IsPropertyWord p)
  (hn : r.noteProperty p = .int n)
include hp hn

theorem evalValue_numeral (m : Int) :
    evalValue r (.text (p ++ " == " ++ intText m)) =
      .ok (decide ((Binary64.ofInt m).toInt? = some n)) ∧
    evalValue r (.text (p ++ " != " ++ intText m)) =
      .ok (decide ((Binary64.ofInt m).toInt? ≠ some n)) := by
  have hright : (wordToken (intText m)).1.operand.value r = wholeValue (Binary64.ofInt m) := by
    simp [wordOperand, readNumeral?_intText, Operand.value]
  have hleft : ((wordOperand p).value r).asText = .ok (intText n) := by
    rw [hp.wordOperand_eq, Operand.value, hn, Value.asText]
  have hwritten := written_wordToken (isWord_intText m)
  have hequal := (Means.equal hp.isWord hwritten).alone.evalValue r
  have hunequal := (Means.unequal hp.isWord hwritten).alone.evalValue r
  rw [hright] at hequal hunequal
  rw [compare_equal (asText_wholeValue _), hleft] at hequal
  rw [compare_unequal (asText_wholeValue _), hleft] at hunequal
  refine ⟨hequal.trans (congrArg Except.ok ?_), hunequal.trans (congrArg Except.ok ?_)⟩
  · rw [Bool.eq_iff_iff, beq_iff_eq, decide_eq_true_iff, intText_eq_numberText_iff]
  · rw [Bool.eq_iff_iff, bne_iff_ne, decide_eq_true_iff, ne_eq, intText_eq_numberText_iff]

end

/-- A property that holds an integer is compared with the number that the written integer is rounded
to. So its own text means the integer exactly if that is representable, and a representable integer
is never taken for another one. -/
theorem numeral_denotes {p : String} (hp : IsPropertyWord p) {r : Record} {n : Int}
    (hn : r.noteProperty p = .int n) :
    (∀ m, evalValue r (.text (p ++ " == " ++ intText m)) =
        .ok (decide ((Binary64.ofInt m).toInt? = some n)) ∧
      evalValue r (.text (p ++ " != " ++ intText m)) =
        .ok (decide ((Binary64.ofInt m).toInt? ≠ some n))) ∧
    (evalValue r (.text (p ++ " == " ++ intText n)) = .ok true ∧
      evalValue r (.text (p ++ " != " ++ intText n)) = .ok false ↔ Binary64.Representable n) ∧
    ∀ m, m ≠ n → Binary64.Representable m →
      evalValue r (.text (p ++ " == " ++ intText m)) = .ok false := by
  refine ⟨evalValue_numeral hp hn, ?_, fun m hne hm => ?_⟩
  · obtain ⟨hequal, hunequal⟩ := evalValue_numeral hp hn n
    rw [hequal, hunequal]
    simp [Binary64.toInt?_ofInt_iff]
  · rw [(evalValue_numeral hp hn m).1, Binary64.toInt?_of_representable hm]
    simp [hne]

/-- A record whose count is an integer. -/
def countRecord (n : Int) : Record :=
  { path := "a.md", name := "a", folder := "", extension := ".md", size := 5, created := .ofNat 0,
    modified := .ofNat 0, tags := [], links := [], properties := [("count", .int n)] }

theorem isPropertyWord_count : IsPropertyWord "count" := by
  constructor <;> decide

/-- The greatest integer of a row of integers without a gap is its own literal. -/
theorem numeral_denotes_last :
    IsPropertyWord "count" ∧
      (countRecord 9007199254740992).noteProperty "count" = .int 9007199254740992 ∧
      evalValue (countRecord 9007199254740992)
        (.text ("count" ++ " == " ++ intText 9007199254740992)) = .ok true ∧
      evalValue (countRecord 9007199254740992)
        (.text ("count" ++ " == " ++ intText 9007199254740994)) = .ok false := by
  obtain ⟨-, hown, hother⟩ := numeral_denotes isPropertyWord_count
    (show (countRecord 9007199254740992).noteProperty "count" = .int 9007199254740992 from rfl)
  exact ⟨isPropertyWord_count, rfl, (hown.2 (by decide)).1, hother _ (by decide) (by decide)⟩

/-- One more than that is taken for it: the literal does not mean its integer, and does mean
another one. -/
theorem numeral_taken_for_other :
    evalValue (countRecord 9007199254740993) (.text "count == 9007199254740993") = .ok false ∧
      evalValue (countRecord 9007199254740992) (.text "count == 9007199254740993") = .ok true := by
  have htext : "count == 9007199254740993" = "count" ++ " == " ++ intText 9007199254740993 := by
    decide
  rw [htext, (evalValue_numeral isPropertyWord_count (n := 9007199254740993) rfl _).1,
    (evalValue_numeral isPropertyWord_count (n := 9007199254740992) rfl _).1]
  decide

end Filter

end MarkdownVault
