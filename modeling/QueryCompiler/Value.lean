-- SUMMARY: Bound values, their literals and their display.
import QueryCompiler.Decimal.Layout
import QueryCompiler.Dialect.Profile

/-!
# Values

A value is bound next to the SQL text and reaches the text only as a literal in
the inline form of a statement. A literal depends on the profile.
-/

namespace QueryCompiler

inductive Value where
  | null
  | bool (b : Bool)
  | int (n : Int64)
  | float (x : Double)
  | string (s : String)
  | bytes (bs : List UInt8)
deriving DecidableEq, Repr

namespace Value

def isNull : Value → Bool
  | .null => true
  | _ => false

/-! ## Parts of literals -/

/-- A text in single quotes, with every single quote written twice. -/
def quoted (s : String) : String :=
  String.ofList ('\'' :: (s.toList.flatMap fun c => if c = '\'' then [c, c] else [c]) ++ ['\''])

/-- A string literal. -/
def stringLiteral (p : Profile) (s : String) : String :=
  if p.marksUnicode && s.toList.any (fun c => 128 ≤ c.toNat) then "N" ++ quoted s else quoted s

/-- A hexadecimal digit below sixteen, in upper case. -/
def hexDigit (n : Nat) : Char :=
  (Nat.digitChar n).toUpper

/-- Two hexadecimal digits for each byte. -/
def hex (bs : List UInt8) : String :=
  String.ofList (bs.flatMap fun b => [hexDigit (b.toNat / 16), hexDigit (b.toNat % 16)])

/-- A number literal, when finite numbers are written in this way. The others have none and stand in quotes. -/
def floatLiteralWith (write : Double → String) (x : Double) : String :=
  if x.isFinite then write x
  else if x.isNaN then quoted "NaN"
  else if x.isNegative then quoted "-Infinity"
  else quoted "Infinity"

def floatLiteral (x : Double) : String :=
  floatLiteralWith Decimal.literalLayout.write x

/-! ## Literals and display -/

/-- The literal of a value, when finite numbers are written in this way. -/
def literalWith (write : Double → String) (p : Profile) : Value → String
  | .null => "NULL"
  | .bool b => p.boolLiteral b
  | .int n => toString n.toInt
  | .float x => floatLiteralWith write x
  | .string s => stringLiteral p s
  | .bytes bs => p.bytesOpening ++ hex bs ++ p.bytesClosing

/-- The literal of a value. -/
def literal (p : Profile) (v : Value) : String :=
  v.literalWith Decimal.literalLayout.write p

/-- The text of a value for readers, without quotes. -/
def display : Value → String
  | .null => "NULL"
  | .bool b => if b then "true" else "false"
  | .int n => toString n.toInt
  | .float x => Decimal.displayLayout.write x
  | .string s => s
  | .bytes bs => "0x" ++ hex bs

end Value

end QueryCompiler
