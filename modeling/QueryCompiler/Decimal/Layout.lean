-- SUMMARY: The two ways in which a double is written out.
import QueryCompiler.Decimal.Shortest

/-!
# Layouts of a number

A layout decides how the digits of a shortest decimal are written: where an
exponent takes over from the plain form, whether a whole number keeps a point,
where ties go, and what stands for the numbers that are not finite.
-/

namespace QueryCompiler.Decimal

/-- How a double is written. The *point* of a decimal is the number of its digits before the decimal
point; it is not positive for numbers below a tenth. -/
structure Layout where
  tie : Tie
  /-- The least and the greatest point at which the plain form is used; `none` when it always is. -/
  plainPoints : Option (Int × Int)
  /-- Written after a whole number in plain form. -/
  wholeEnding : String
  nan : String
  infinity : String
deriving DecidableEq, Repr

/-- Literals have the plain form from five places after the point up to sixteen before it, and a whole
number ends in `.0`; a tie goes to the even digit. -/
def literalLayout : Layout where
  tie := .even
  plainPoints := some (-4, 16)
  wholeEnding := ".0"
  nan := "NaN"
  infinity := "Infinity"

/-- For display the plain form is always used, and a whole number has no point. -/
def displayLayout : Layout where
  tie := .up
  plainPoints := none
  wholeEnding := ""
  nan := "NaN"
  infinity := "inf"

namespace Layout

/-- A decimal without an exponent. -/
def plain (layout : Layout) (d : Decimal) : String :=
  let digits := Nat.toDigits 10 d.digits
  let point := digits.length + d.exponent
  if 0 ≤ d.exponent then
    String.ofList (digits ++ List.replicate d.exponent.toNat '0') ++ layout.wholeEnding
  else if 0 < point then
    String.ofList (digits.take point.toNat ++ '.' :: digits.drop point.toNat)
  else
    String.ofList ('0' :: '.' :: List.replicate (-point).toNat '0' ++ digits)

/-- A decimal with one digit before the point and an exponent. -/
def scientific (d : Decimal) : String :=
  let digits := Nat.toDigits 10 d.digits
  let power := digits.length + d.exponent - 1
  match digits with
  | first :: second :: rest =>
    String.ofList (first :: '.' :: second :: rest) ++ "e" ++ toString power
  | _ => String.ofList digits ++ "e" ++ toString power

def decimal (layout : Layout) (d : Decimal) : String :=
  let point := (Nat.toDigits 10 d.digits).length + d.exponent
  match layout.plainPoints with
  | none => layout.plain d
  | some (least, greatest) =>
    if least ≤ point ∧ point ≤ greatest then layout.plain d else scientific d

/-- The text of a double. -/
def write (layout : Layout) (x : Double) : String :=
  let sign := if x.isNegative then "-" else ""
  if x.isNaN then layout.nan
  else if !x.isFinite then sign ++ layout.infinity
  else match shortest? layout.tie x with
    | none => sign ++ "0" ++ layout.wholeEnding
    | some d => sign ++ layout.decimal d

end Layout

end QueryCompiler.Decimal
