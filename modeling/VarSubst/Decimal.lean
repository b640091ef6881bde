import VarSubst.Binary64

/-!
# Shortest decimals

The decimal that stands for a binary number is the shortest one that rounds back to it; of several,
the nearest to the number, and of two equally near the one with an even last digit.
-/

namespace VarSubst

/-- The number `digits * 10 ^ exponent`. -/
structure Decimal where
  digits : Nat
  exponent : Int
  deriving DecidableEq, Repr

namespace Decimal

/-- Compares `a * 2 ^ p` with `d * 10 ^ k`. -/
def compareScaled (a : Nat) (p : Int) (d : Nat) (k : Int) : Ordering :=
  compare (a * wholePower 2 p * wholePower 10 (-k)) (d * wholePower 10 k * wholePower 2 (-p))

/-- Whether `d * 10 ^ k` rounds to the magnitude of `f`: it lies between the midpoints to the
neighbours of `f`, or on one of them if the significand of `f` is even. Below a power of two the
neighbour is half as far. Midpoints are counted in quarters of the last place. -/
def roundsTo (f : Binary64) (k : Int) (d : Nat) : Bool :=
  let below := if f.significand = Nat.pow 2 52 ∧ f.exponent ≠ -1074 then 1 else 2
  let low := compareScaled (4 * f.significand - below) (f.exponent - 2) d k
  let high := compareScaled (4 * f.significand + 2) (f.exponent - 2) d k
  if f.significand % 2 = 0 then low.isLE && high.isGE else low.isLT && high.isGT

/-- Of the two multiples of `10 ^ k` around `f`, the nearer one that rounds to `f`. -/
def nearest? (f : Binary64) (k : Int) : Option Decimal :=
  let d := f.num * wholePower 10 (-k) / (f.den * wholePower 10 k)
  let lower := if roundsTo f k d then some ⟨d, k⟩ else none
  let upper := if roundsTo f k (d + 1) then some ⟨d + 1, k⟩ else none
  match lower, upper with
  | some a, some b =>
    match compareScaled (2 * f.significand) f.exponent (2 * d + 1) k with
    | .lt => some a
    | .gt => some b
    | .eq => some (if d % 2 = 0 then a else b)
  | some a, none => some a
  | none, b => b

/-- The decimal exponent of the first digit of `f`: the greatest `e` with `10 ^ e ≤ f`. -/
def leadingExponent (f : Binary64) : Int :=
  ((List.range 633).map fun i : Nat => 308 - (i : Int)).find?
    (fun e => (compareScaled f.significand f.exponent 1 e).isGE) |>.getD 0

/-- Seventeen digits are always enough to tell two numbers apart. The search begins one place above
the first digit, where a number just below a power of ten rounds up to it. -/
def shortest (f : Binary64) : Decimal :=
  if f.isZero then ⟨0, 0⟩
  else
    let e := leadingExponent f + 1
    ((List.range 18).findSome? fun n : Nat => nearest? f (e - n)).getD ⟨0, 0⟩

end Decimal

end VarSubst
