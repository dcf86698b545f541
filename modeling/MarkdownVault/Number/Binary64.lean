/-!
# Binary floating-point numbers

A finite number is a sign, a mantissa below 2^53 and a power of two. All arithmetic is exact on
fractions and rounded once, to the nearest number and on a tie to the even mantissa, so every
operation can be computed and reasoned about with natural numbers alone.
-/

namespace MarkdownVault

/-- A number of 53 significant bits; `finite` stands for ± `mantissa` · 2 ^ `exponent`. -/
inductive Binary64 where
  | nan
  | infinite (negative : Bool)
  | finite (negative : Bool) (mantissa : Nat) (exponent : Int)
  deriving DecidableEq, Repr, Inhabited

/-- The quotient rounded to the nearest integer, a tie to the even neighbour. -/
def roundDiv (num den : Nat) : Nat :=
  let q := num / den
  let r := num % den
  if 2 * r < den then q else if den < 2 * r then q + 1 else q + q % 2

namespace Binary64

/-- The least exponent; numbers below 2^-1022 keep it and lose leading bits instead. -/
def minExponent : Int := -1074

/-- The greatest exponent of a finite number. -/
def maxExponent : Int := 971

def zero (negative : Bool) : Binary64 := .finite negative 0 minExponent

/-- A quotient of naturals divided by a power of two, as numerator and denominator. -/
def scaleDown (num den : Nat) (e : Int) : Nat × Nat :=
  if 0 ≤ e then (num, den * Nat.pow 2 e.toNat) else (num * Nat.pow 2 (-e).toNat, den)

/-- The exponent that leaves 53 bits before the point, or the least one. -/
def exponentFor (num den : Nat) : Int :=
  let e : Int := Int.ofNat num.log2 - Int.ofNat den.log2 - 52
  let (n, d) := scaleDown num den e
  max minExponent (if n / d < Nat.pow 2 52 then e - 1 else e)

/-- The number nearest to ± `num` / `den`; beyond the greatest finite number, infinity. -/
def ofFraction (negative : Bool) (num den : Nat) : Binary64 :=
  if num = 0 then zero negative
  else
    let e := exponentFor num den
    let (n, d) := scaleDown num den e
    let m := roundDiv n d
    let (m, e) := if m = Nat.pow 2 53 then (Nat.pow 2 52, e + 1) else (m, e)
    if maxExponent < e then .infinite negative else .finite negative m e

def ofInt (n : Int) : Binary64 := ofFraction (decide (n < 0)) n.natAbs 1

def ofNat (n : Nat) : Binary64 := ofFraction false n 1

/-- The number nearest to an integer, unless that lies beyond the finite numbers. -/
def ofInt? (n : Int) : Option Binary64 :=
  match ofInt n with
  | .finite negative m e => some (.finite negative m e)
  | _ => none

/-- The number nearest to ± `digits` · 10 ^ `exponent`. Exponents far outside the range are
cut off before a power is taken. -/
def ofDecimal (negative : Bool) (digits : Nat) (exponent : Int) : Binary64 :=
  if digits = 0 then zero negative
  else
    let size : Int := Int.ofNat (Nat.toDigits 10 digits).length + exponent
    if 310 < size then .infinite negative
    else if size < -330 then zero negative
    else if 0 ≤ exponent then ofFraction negative (digits * Nat.pow 10 exponent.toNat) 1
    else ofFraction negative digits (Nat.pow 10 (-exponent).toNat)

/-- The exact value of a finite number. -/
def exact (negative : Bool) (mantissa : Nat) (exponent : Int) : Rat :=
  let m : Int := if negative then -Int.ofNat mantissa else Int.ofNat mantissa
  if 0 ≤ exponent then mkRat (m * Int.ofNat (Nat.pow 2 exponent.toNat)) 1
  else mkRat m (Nat.pow 2 (-exponent).toNat)

/-- The number nearest to a fraction, with the given sign if the fraction is zero. -/
def ofRat (zeroNegative : Bool) (x : Rat) : Binary64 :=
  ofFraction (if x = 0 then zeroNegative else decide (x < 0)) x.num.natAbs x.den

def isNaN : Binary64 → Bool
  | .nan => true
  | _ => false

def isZero : Binary64 → Bool
  | .finite _ 0 _ => true
  | _ => false

def compareRat (x y : Rat) : Ordering := if x < y then .lt else if x = y then .eq else .gt

/-- Exact order of a number and a fraction of any size; nothing compares with NaN. -/
def compareExact? : Binary64 → Rat → Option Ordering
  | .nan, _ => none
  | .infinite a, _ => some (if a then .lt else .gt)
  | .finite a m e, y => some (compareRat (exact a m e) y)

/-- Exact order of the values; the two zeros are equal and nothing compares with NaN. -/
def compare? : Binary64 → Binary64 → Option Ordering
  | .nan, _ => none
  | _, .nan => none
  | .infinite a, .infinite b => some (compare b.toNat a.toNat)
  | .infinite a, .finite .. => some (if a then .lt else .gt)
  | .finite .., .infinite b => some (if b then .gt else .lt)
  | .finite a m e, .finite b n f => some (compareRat (exact a m e) (exact b n f))

def lt (a b : Binary64) : Bool := compare? a b == some .lt
def le (a b : Binary64) : Bool := compare? a b == some .lt || compare? a b == some .eq

def negate : Binary64 → Binary64
  | .nan => .nan
  | .infinite a => .infinite (!a)
  | .finite a m e => .finite (!a) m e

/-- The integer that a finite number equals, if it is one. -/
def toInt? : Binary64 → Option Int
  | .finite a m e => if (exact a m e).den = 1 then some (exact a m e).num else none
  | _ => none

def add : Binary64 → Binary64 → Binary64
  | .nan, _ => .nan
  | _, .nan => .nan
  | .infinite a, .infinite b => if a = b then .infinite a else .nan
  | .infinite a, .finite .. => .infinite a
  | .finite .., .infinite b => .infinite b
  | .finite a m e, .finite b n f => ofRat (a && b) (exact a m e + exact b n f)

def mul : Binary64 → Binary64 → Binary64
  | .nan, _ => .nan
  | _, .nan => .nan
  | .infinite a, .infinite b => .infinite (a != b)
  | .infinite a, .finite b n _ => if n = 0 then .nan else .infinite (a != b)
  | .finite a m _, .infinite b => if m = 0 then .nan else .infinite (a != b)
  | .finite a m e, .finite b n f => ofRat (a != b) (exact a m e * exact b n f)

/-- The number divided by a positive integer. -/
def divNat : Binary64 → Nat → Binary64
  | .finite a m e, n => ofRat a (exact a m e / n)
  | x, _ => x

/-- The quotient of two naturals, the divisor positive. -/
def ratio (num den : Nat) : Binary64 := ofFraction false num den

/-- The nearest integer to a fraction, a tie to the even one. -/
def roundRat (x : Rat) : Int :=
  let r := Int.ofNat (roundDiv x.num.natAbs x.den)
  if x < 0 then -r else r

/-- The nearest integer, a tie to the even one; zero for what is not finite. -/
def round : Binary64 → Int
  | .finite a m e => roundRat (exact a m e)
  | _ => 0

/-- The nearest number with two decimal places, a tie to the even last place. -/
def roundToHundredths : Binary64 → Binary64
  | .finite a m e => ofFraction a (roundRat (exact a m e * 100)).natAbs 100
  | x => x

end Binary64

end MarkdownVault
