import VarSubst.Decimal

/-!
# Numbers in JSON

A number is an integer of at most 64 bits or a binary floating-point number. This module holds the
numeral as it is written (`Numeral`), its value (`Numeral.value?`), and the way numbers are written
back (`Number.render`).
-/

namespace VarSubst.Json

inductive Number where
  | integer (n : Int)
  | float (f : Binary64)
  deriving DecidableEq

/-- A number as written: a sign, digits, and perhaps a fraction and a signed exponent. -/
structure Numeral where
  negative : Bool
  whole : List Char
  fraction : Option (List Char)
  exponent : Option (Bool × List Char)
  deriving DecidableEq, Repr

/-- Decimal places of a significand of at most 64 bits: digits go in as long as they fit. -/
structure Significand where
  value : Nat := 0
  /-- Digits before the point that did not fit. -/
  dropped : Nat := 0
  /-- Digits behind the point that did fit. -/
  places : Nat := 0
  deriving DecidableEq, Repr

namespace Significand

/-- Appends a digit, unless the result needs more than 64 bits. -/
def push? (value digit : Nat) : Option Nat :=
  if value * 10 + digit < Nat.pow 2 64 then some (value * 10 + digit) else none

/-- Reads on in the digits before the point. From the first digit that does not fit all are dropped.
-/
def readWhole (s : Significand) : List Char → Significand
  | [] => s
  | c :: cs =>
    match push? s.value (c.toNat - '0'.toNat) with
    | some value => readWhole { s with value } cs
    | none => { s with dropped := cs.length + 1 }

/-- Reads on in the digits behind the point, up to the first one that does not fit. -/
def readFraction (s : Significand) : List Char → Significand
  | [] => s
  | c :: cs =>
    match push? s.value (c.toNat - '0'.toNat) with
    | some value => readFraction { s with value, places := s.places + 1 } cs
    | none => s

end Significand

namespace Numeral

/-- A numeral without fraction and exponent is an integer if 64 bits hold it: all of them without a
sign, and with one from -1 down to the least signed one. -/
def integer? (n : Numeral) (s : Significand) : Option Int :=
  if n.fraction.isNone ∧ n.exponent.isNone ∧ s.dropped = 0 then
    if !n.negative then some s.value
    else if 0 < s.value ∧ s.value ≤ Nat.pow 2 63 then some (-s.value)
    else none
  else none

/-- The power of ten that the written exponent stands for. -/
def power (n : Numeral) : Int :=
  match n.exponent with
  | none => 0
  | some (negative, digits) =>
    let e := Nat.ofDigitChars 10 digits 0
    if negative then -e else e

/-- The value of a numeral; there is none where a floating-point number would be out of range. The
significand is rounded first and its power of ten is multiplied in afterwards. -/
def value? (n : Numeral) : Option Number :=
  let s := Significand.readWhole {} n.whole
  match n.integer? s with
  | some i => some (.integer i)
  | none =>
    let s := s.readFraction (n.fraction.getD [])
    let f := (Binary64.ofNat? n.negative s.value).bind
      fun f => f.scale? (s.dropped - s.places + n.power)
    f.map .float

end Numeral

/-- Where a decimal is written with all its places: from `10 ^ least` up to below
`10 ^ (greatest + 1)`. -/
structure PositionalRange where
  least : Int
  greatest : Int

/-- Floating-point numbers have an exponent below `0.00001` and from `1e+16` up. -/
def Number.positional : PositionalRange := ⟨-5, 15⟩

/-- Digits with a point in them, or with zeros up to the point and one behind it. -/
def renderPositional (digits : List Char) (exponent leading : Int) : List Char :=
  if 0 ≤ exponent then digits ++ List.replicate exponent.toNat '0' ++ ['.', '0']
  else if 0 ≤ leading then
    digits.take (leading.toNat + 1) ++ '.' :: digits.drop (leading.toNat + 1)
  else '0' :: '.' :: (List.replicate (-leading - 1).toNat '0' ++ digits)

/-- One digit before the point, and none of it if there are no others; a signed exponent. -/
def renderScientific (digits : List Char) (leading : Int) : List Char :=
  let fraction := if digits.length ≤ 1 then [] else '.' :: digits.drop 1
  let sign := if leading < 0 then '-' else '+'
  digits.take 1 ++ fraction ++ 'e' :: sign :: Nat.toDigits 10 leading.natAbs

def renderDecimal (range : PositionalRange) (d : Decimal) : List Char :=
  let digits := Nat.toDigits 10 d.digits
  let leading := d.exponent + digits.length - 1
  if range.least ≤ leading ∧ leading ≤ range.greatest then
    renderPositional digits d.exponent leading
  else renderScientific digits leading

example : renderDecimal Number.positional ⟨1, 16⟩ = "1e+16".toList := by decide

example : renderDecimal Number.positional ⟨1, 15⟩ = "1000000000000000.0".toList := by decide

example : renderDecimal Number.positional ⟨125, -2⟩ = "1.25".toList := by decide

example : renderDecimal Number.positional ⟨15, -6⟩ = "0.000015".toList := by decide

example : renderDecimal Number.positional ⟨15, -7⟩ = "1.5e-6".toList := by decide

namespace Number

def renderInteger (n : Int) : List Char :=
  if n < 0 then '-' :: Nat.toDigits 10 n.natAbs else Nat.toDigits 10 n.natAbs

def renderFloat (f : Binary64) : List Char :=
  let digits := renderDecimal positional (Decimal.shortest f)
  if f.negative then '-' :: digits else digits

def render : Number → List Char
  | .integer n => renderInteger n
  | .float f => renderFloat f

end Number

end VarSubst.Json
