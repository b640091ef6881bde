/-!
# Binary floating-point numbers

The finite numbers of the 64-bit binary interchange format, as a sign, a whole significand and a
power of two. All arithmetic is exact up to one rounding to the nearest representable number, in
which a tie goes to the even significand; there is no result where the rounded number would be out
of range.
-/

namespace VarSubst

/-- The significands and exponents that the format has: 53 bits, with the leading bit set unless the
exponent is the least. -/
def Binary64.Canonical (significand : Nat) (exponent : Int) : Prop :=
  significand < Nat.pow 2 53 ∧ -1074 ≤ exponent ∧ exponent ≤ 971 ∧
    (Nat.pow 2 52 ≤ significand ∨ exponent = -1074)

instance (significand : Nat) (exponent : Int) :
    Decidable (Binary64.Canonical significand exponent) :=
  inferInstanceAs (Decidable (_ ∧ _))

/-- The number `significand * 2 ^ exponent`, negated if `negative`. -/
structure Binary64 where
  negative : Bool
  significand : Nat
  exponent : Int
  canonical : Binary64.Canonical significand exponent
  deriving DecidableEq

/-- The power of a whole number, for an exponent that is not negative; for others it is 1. -/
def wholePower (base : Nat) (exponent : Int) : Nat := Nat.pow base exponent.toNat

/-- The quotient of two numbers, rounded to the nearest whole number; a tie goes to the even one. -/
def roundedQuotient (num den : Nat) : Nat :=
  let q := num / den
  let r := num % den
  if 2 * r < den ∨ (2 * r = den ∧ q % 2 = 0) then q else q + 1

namespace Binary64

def zero (negative : Bool) : Binary64 := ⟨negative, 0, -1074, by decide⟩

def isZero (f : Binary64) : Bool := f.significand == 0

/-- The magnitude as a quotient of whole numbers. -/
def num (f : Binary64) : Nat := f.significand * wholePower 2 f.exponent

def den (f : Binary64) : Nat := wholePower 2 (-f.exponent)

/-- The number with the given parts, if the format has it. -/
def ofParts? (negative : Bool) (significand : Nat) (exponent : Int) : Option Binary64 :=
  if h : Canonical significand exponent then some ⟨negative, significand, exponent, h⟩ else none

/-- The binary exponent of a positive quotient: the greatest `e` with `2 ^ e ≤ num / den`. -/
def leadingExponent (num den : Nat) : Int :=
  let e : Int := num.log2 - den.log2
  if den * wholePower 2 e ≤ num * wholePower 2 (-e) then e else e - 1

/-- The number nearest to `num / den`, with `den` positive. -/
def round? (negative : Bool) (num den : Nat) : Option Binary64 :=
  if num = 0 then some (zero negative)
  else
    let q := max (-1074) (leadingExponent num den - 52)
    let m := roundedQuotient (num * wholePower 2 (-q)) (den * wholePower 2 q)
    if m = Nat.pow 2 53 then ofParts? negative (Nat.pow 2 52) (q + 1) else ofParts? negative m q

def ofNat? (negative : Bool) (n : Nat) : Option Binary64 := round? negative n 1

def mul? (f g : Binary64) : Option Binary64 :=
  round? (f.negative != g.negative) (f.num * g.num) (f.den * g.den)

/-- The quotient by a number other than zero. -/
def div? (f g : Binary64) : Option Binary64 :=
  round? (f.negative != g.negative) (f.num * g.den) (f.den * g.num)

def powerOfTen? (e : Nat) : Option Binary64 := ofNat? false (Nat.pow 10 e)

/-- The greatest power of ten in the format. -/
def greatestPower : Nat := 308

/-- Divides by `10 ^ e`, in steps of the greatest power while `e` exceeds it; each step rounds. -/
def scaleDown? (f : Binary64) (e : Nat) : Option Binary64 :=
  if e ≤ greatestPower then (powerOfTen? e).bind f.div?
  else if f.isZero then some f
  else (powerOfTen? greatestPower).bind f.div? |>.bind fun g => scaleDown? g (e - greatestPower)
termination_by e
decreasing_by simp only [greatestPower] at *; omega

/-- Multiplies by a power of ten; a positive exponent beyond the greatest leaves only zero in range.
-/
def scale? (f : Binary64) : Int → Option Binary64
  | .ofNat e =>
    if e ≤ greatestPower then (powerOfTen? e).bind f.mul?
    else if f.isZero then some f else none
  | .negSucc e => scaleDown? f (e + 1)

end Binary64

end VarSubst
