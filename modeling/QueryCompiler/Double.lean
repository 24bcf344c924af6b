-- SUMMARY: IEEE 754 binary64 numbers as their bits, and the nearest one to a decimal.

/-!
# Doubles

A double is kept as its 64 bits, so that two of them are equal exactly when
they are the same number with the same sign, and so that arithmetic on them is
exact arithmetic on natural numbers. A finite double is `significand · 2 ^ scale`.
-/

-- Powers of literals are those of the core library, also beside an algebra that brings its own.
attribute [default_instance high + 1] instPowNat

namespace QueryCompiler

/-- A binary64 floating-point number, given by its bits. -/
structure Double where
  bits : UInt64
deriving DecidableEq, Repr

namespace Double

/-! ## Fields -/

def isNegative (x : Double) : Bool :=
  2 ^ 63 ≤ x.bits.toNat

/-- The eleven bits of the exponent. -/
def exponentField (x : Double) : Nat :=
  x.bits.toNat / 2 ^ 52 % 2 ^ 11

/-- The fifty-two bits of the fraction. -/
def fractionField (x : Double) : Nat :=
  x.bits.toNat % 2 ^ 52

def isFinite (x : Double) : Bool :=
  x.exponentField < 2047

def isNaN (x : Double) : Bool :=
  x.exponentField == 2047 && x.fractionField != 0

/-- The significand of a finite double, with the leading bit that the fraction leaves out. -/
def significand (x : Double) : Nat :=
  if x.exponentField = 0 then x.fractionField else 2 ^ 52 + x.fractionField

/-- The binary exponent of the significand. -/
def scale (x : Double) : Int :=
  (max x.exponentField 1 : Nat) - 1075

/-- Assembles a double from a sign and the bits below it. -/
def ofFields (negative : Bool) (rest : Nat) : Double :=
  ⟨UInt64.ofNat ((if negative then 2 ^ 63 else 0) + rest)⟩

def infinity (negative : Bool) : Double :=
  ofFields negative (2047 * 2 ^ 52)

/-! ## Rounding -/

/-- The quotient rounded to the nearest natural number, a half to the even one. -/
def roundDiv (num den : Nat) : Nat :=
  let q := num / den
  let r := num % den
  if den < 2 * r ∨ (2 * r = den ∧ q % 2 = 1) then q + 1 else q

/-- `num / den` divided by `2 ^ e`, again as a numerator and a denominator. -/
def unscale (num den : Nat) (e : Int) : Nat × Nat :=
  (num * Nat.pow 2 (-e).toNat, den * Nat.pow 2 e.toNat)

/-- The exponent at which the positive quotient `num / den` has a significand of 53 bits, or the
least exponent of all. -/
def scaleFor (num den : Nat) : Int :=
  let rough := max ((Nat.log2 num : Int) - Nat.log2 den - 53) (-1074)
  let (n, d) := unscale num den rough
  if 2 ^ 53 ≤ n / d then rough + 1 else rough

/-- The double nearest to the quotient `num / den`, infinite when that is beyond all doubles. -/
def ofRatio (negative : Bool) (num den : Nat) : Double :=
  if num = 0 then ofFields negative 0
  else
    let e := scaleFor num den
    let (n, d) := unscale num den e
    let m := roundDiv n d
    if m < 2 ^ 52 then ofFields negative m
    else
      let rest := (e + 1075).toNat * 2 ^ 52 + (m - 2 ^ 52)
      if 2047 * 2 ^ 52 ≤ rest then infinity negative else ofFields negative rest

/-- The double nearest to `digits · 10 ^ exponent`. Beyond four hundred decimal places every number
is infinite or zero, so that a huge exponent costs nothing. -/
def ofDecimal (negative : Bool) (digits : Nat) (exponent : Int) : Double :=
  let magnitude := (Nat.toDigits 10 digits).length + exponent
  if digits = 0 ∨ magnitude < -400 then ofFields negative 0
  else if 400 < magnitude then infinity negative
  else ofRatio negative (digits * Nat.pow 10 exponent.toNat) (Nat.pow 10 (-exponent).toNat)

/-- The double nearest to an integer. -/
def ofInt (n : Int) : Double :=
  ofRatio (n < 0) n.natAbs 1

end Double

end QueryCompiler
