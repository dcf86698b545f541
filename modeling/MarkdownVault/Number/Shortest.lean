import MarkdownVault.Number.Binary64

/-!
# Shortest decimal text

A number is written with the fewest significant digits that read back as the same number, and of
these the nearest to it. The digits come from exact arithmetic: a decimal reads back as the
number when it lies between the midpoints to its neighbours, the midpoints included when the
mantissa is even.
-/

namespace MarkdownVault

/-- The decimal `digits` · 10 ^ `exponent`. -/
structure Decimal where
  digits : Nat
  exponent : Int
  deriving DecidableEq, Repr, Inhabited

namespace Decimal

/-- Multiplies a fraction by a power of ten. -/
def scaleTen (num den : Nat) (e : Int) : Nat × Nat :=
  if 0 ≤ e then (num * Nat.pow 10 e.toNat, den) else (num, den * Nat.pow 10 (-e).toNat)

/-- The power of ten of the leading digit of a positive fraction. -/
def leadingExponent (num den : Nat) : Int :=
  let guess := Int.ofNat (Nat.toDigits 10 num).length - Int.ofNat (Nat.toDigits 10 den).length
  let (n, d) := scaleTen num den (-guess)
  if n < d then guess - 1 else guess

/-- Whether the decimal reads back as `mantissa` · 2 ^ `exponent`. All three bounds are taken in
quarters of the gap above the number; the gap below a power of two is half as wide. -/
def readsBack (mantissa : Nat) (exponent : Int) (x : Decimal) : Bool :=
  let below := if mantissa = Nat.pow 2 52 ∧ Binary64.minExponent < exponent then 1 else 2
  let (n, d) := scaleTen (4 * x.digits) 1 x.exponent
  let (n, d) := Binary64.scaleDown n d exponent
  let low := (4 * mantissa - below) * d
  let high := (4 * mantissa + 2) * d
  if mantissa % 2 = 0 then low ≤ n && n ≤ high else low < n && n < high

/-- Of the two decimals with `count` digits around the number, the nearer one that reads back. -/
def onGrid? (mantissa : Nat) (exponent lead : Int) (num den count : Nat) : Option Decimal :=
  let e := lead - Int.ofNat count + 1
  let (n, d) := scaleTen num den (-e)
  let nearest := roundDiv n d
  let other := if nearest = n / d then nearest + 1 else nearest - 1
  if readsBack mantissa exponent ⟨nearest, e⟩ then some ⟨nearest, e⟩
  else if readsBack mantissa exponent ⟨other, e⟩ then some ⟨other, e⟩
  else none

/-- The first grid of one to seventeen digits with a decimal that reads back. -/
def shortest (mantissa : Nat) (exponent : Int) : Decimal :=
  let (num, den) := Binary64.scaleDown mantissa 1 (-exponent)
  let lead := leadingExponent num den
  ((List.range 17).findSome? fun i => onGrid? mantissa exponent lead num den (i + 1)).getD ⟨0, 0⟩

def dropEndZeros (cs : List Char) : List Char :=
  match (cs.reverse.dropWhile (· == '0')).reverse with
  | [] => ['0']
  | cs => cs

/-- Digits with the point after the first `point` of them, filled up with zeros and never ending
in the point. -/
def positional (digits : List Char) (point : Int) : List Char :=
  if point ≤ 0 then ['0', '.'] ++ List.replicate (-point).toNat '0' ++ digits
  else
    let n := point.toNat
    let whole := digits.take n ++ List.replicate (n - digits.length) '0'
    let rest := digits.drop n
    whole ++ ['.'] ++ if rest.isEmpty then ['0'] else rest

/-- One digit, the others behind a point, and a signed exponent of at least two digits. -/
def scientific (digits : List Char) (e : Int) : List Char :=
  let mantissa := match digits with
    | [] => []
    | [d] => [d]
    | d :: ds => d :: '.' :: ds
  let size := Nat.toDigits 10 e.natAbs
  let size := if size.length < 2 then '0' :: size else size
  mantissa ++ ['e', if e < 0 then '-' else '+'] ++ size

/-- Positional when the leading digit's power of ten is at least -4 and below 16. -/
def text (x : Decimal) : List Char :=
  if x.digits = 0 then "0.0".toList
  else
    let all := Nat.toDigits 10 x.digits
    let lead := x.exponent + Int.ofNat all.length - 1
    let digits := dropEndZeros all
    if -4 ≤ lead ∧ lead < 16 then positional digits (lead + 1) else scientific digits lead

end Decimal

/-- The written form of a number, with the given words for what is not finite. -/
def Binary64.textWith (nan infinity : String) : Binary64 → String
  | .nan => nan
  | .infinite a => if a then "-" ++ infinity else infinity
  | .finite a m e =>
    let digits := if m = 0 then "0.0".toList else (Decimal.shortest m e).text
    String.ofList (if a then '-' :: digits else digits)

def Binary64.text (x : Binary64) : String := x.textWith "nan" "inf"

end MarkdownVault
