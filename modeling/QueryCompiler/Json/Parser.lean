-- SUMMARY: The reader of JSON text.
import QueryCompiler.Json.Basic

/-!
# Reading JSON text

`Json.parse?` accepts exactly one value with blanks around it. Each reader takes
the characters from where it stands and returns what it read with the
characters that follow. Of members with equal names the last one counts.
-/

namespace QueryCompiler.Json

/-- The text without the blanks that may stand between tokens. -/
def skipBlanks (cs : List Char) : List Char :=
  cs.dropWhile fun c => c = ' ' || c = '\n' || c = '\t' || c = '\r'

/-! ## Strings -/

def hexDigit? (c : Char) : Option Nat :=
  if '0' ≤ c ∧ c ≤ '9' then some (c.toNat - 48)
  else if 'a' ≤ c ∧ c ≤ 'f' then some (c.toNat - 87)
  else if 'A' ≤ c ∧ c ≤ 'F' then some (c.toNat - 55)
  else none

/-- The number written by four hexadecimal digits. -/
def hex4? (a b c d : Char) : Option Nat := do
  return ((← hexDigit? a) * 16 + (← hexDigit? b)) * 256 + (← hexDigit? c) * 16 + (← hexDigit? d)

/-- The character of a code unit that is no half of a surrogate pair. -/
def charOfUnit? (unit : Nat) : Option Char :=
  if 0xD800 ≤ unit ∧ unit < 0xE000 then none else some (Char.ofNat unit)

/-- The character of a surrogate pair. -/
def charOfPair? (high low : Nat) : Option Char :=
  if 0xD800 ≤ high ∧ high < 0xDC00 ∧ 0xDC00 ≤ low ∧ low < 0xE000 then
    some (Char.ofNat (0x10000 + (high - 0xD800) * 0x400 + (low - 0xDC00)))
  else none

/-- The character that a backslash and `c` stand for. -/
def escape? (c : Char) : Option Char :=
  match c with
  | '"' => some '"'
  | '\\' => some '\\'
  | '/' => some '/'
  | 'b' => some '\x08'
  | 'f' => some '\x0c'
  | 'n' => some '\n'
  | 'r' => some '\r'
  | 't' => some '\t'
  | _ => none

/-- The rest of a string after its opening quote; `done` holds what was read so far, backwards. -/
def stringBody (done : List Char) : List Char → Option (String × List Char)
  | '"' :: rest => some (String.ofList done.reverse, rest)
  | '\\' :: 'u' :: a :: b :: c :: d :: rest =>
    match hex4? a b c d with
    | none => none
    | some unit =>
      match charOfUnit? unit with
      | some ch => stringBody (ch :: done) rest
      | none =>
        match rest with
        | '\\' :: 'u' :: e :: f :: g :: h :: rest =>
          match (hex4? e f g h).bind (charOfPair? unit) with
          | some ch => stringBody (ch :: done) rest
          | none => none
        | _ => none
  | '\\' :: c :: rest =>
    match escape? c with
    | some ch => stringBody (ch :: done) rest
    | none => none
  | c :: rest => if c.toNat < 32 then none else stringBody (c :: done) rest
  | [] => none

/-! ## Numbers -/

/-- The number written by decimal digits. -/
def digitsValue (digits : List Char) : Nat :=
  digits.foldl (fun n c => n * 10 + (c.toNat - 48)) 0

/-- The digits at the start, at least one. -/
def digits1? (cs : List Char) : Option (List Char × List Char) :=
  match cs.span Char.isDigit with
  | ([], _) => none
  | (digits, rest) => some (digits, rest)

/-- The digits after a point, none of them when there is no point. -/
def fraction? : List Char → Option (List Char × List Char)
  | '.' :: rest => digits1? rest
  | cs => some ([], cs)

/-- The exponent, when there is one. -/
def exponent? : List Char → Option (Option Int × List Char)
  | c :: rest =>
    if c = 'e' ∨ c = 'E' then
      match rest with
      | '-' :: rest => (digits1? rest).map fun (ds, rest) => (some (-(digitsValue ds : Int)), rest)
      | '+' :: rest => (digits1? rest).map fun (ds, rest) => (some (digitsValue ds : Int), rest)
      | rest => (digits1? rest).map fun (ds, rest) => (some (digitsValue ds : Int), rest)
    else some (none, c :: rest)
  | [] => some (none, [])

/-- An integer as long as it fits 64 bits, otherwise a double. The zero with a sign is a double. -/
def ofDigits (negative : Bool) (n : Nat) : Json :=
  if negative then
    if n = 0 ∨ 2 ^ 63 < n then .float (Double.ofDecimal true n 0) else .int (-n)
  else if n < 2 ^ 64 then .int n else .float (Double.ofDecimal false n 0)

/-- A number after its sign. Its first digit is zero only when it is the only one before the point. -/
def number? (negative : Bool) (cs : List Char) : Option (Json × List Char) := do
  let (whole, rest) ← digits1? cs
  if whole.head? = some '0' ∧ 1 < whole.length then none
  let (fraction, rest) ← fraction? rest
  let (exponent, rest) ← exponent? rest
  match fraction, exponent with
  | [], none => return (ofDigits negative (digitsValue whole), rest)
  | _, _ =>
    let power := exponent.getD 0 - fraction.length
    return (.float (Double.ofDecimal negative (digitsValue (whole ++ fraction)) power), rest)

/-! ## Values -/

mutual

/-- One value. The fuel bounds the number of nested steps. -/
def value : Nat → List Char → Option (Json × List Char)
  | 0, _ => none
  | fuel + 1, cs =>
    match skipBlanks cs with
    | 'n' :: 'u' :: 'l' :: 'l' :: rest => some (.null, rest)
    | 't' :: 'r' :: 'u' :: 'e' :: rest => some (.bool true, rest)
    | 'f' :: 'a' :: 'l' :: 's' :: 'e' :: rest => some (.bool false, rest)
    | '"' :: rest => (stringBody [] rest).map fun (s, rest) => (.str s, rest)
    | '-' :: rest => number? true rest
    | '[' :: rest =>
      match skipBlanks rest with
      | ']' :: rest => some (.arr [], rest)
      | rest => items fuel [] rest
    | '\x7b' :: rest =>
      match skipBlanks rest with
      | '\x7d' :: rest => some (.obj [], rest)
      | rest => members fuel [] rest
    | rest => number? false rest

/-- The items of an array from the next one on, and its closing bracket. -/
def items : Nat → List Json → List Char → Option (Json × List Char)
  | 0, _, _ => none
  | fuel + 1, done, cs =>
    match value fuel cs with
    | none => none
    | some (item, rest) =>
      match skipBlanks rest with
      | ',' :: rest => items fuel (item :: done) rest
      | ']' :: rest => some (.arr (item :: done).reverse, rest)
      | _ => none

/-- The members of an object from the next one on, and its closing brace. -/
def members : Nat → List (String × Json) → List Char → Option (Json × List Char)
  | 0, _, _ => none
  | fuel + 1, done, cs =>
    match skipBlanks cs with
    | '"' :: rest =>
      match stringBody [] rest with
      | none => none
      | some (name, rest) =>
        match skipBlanks rest with
        | ':' :: rest =>
          match value fuel rest with
          | none => none
          | some (contents, rest) =>
            match skipBlanks rest with
            | ',' :: rest => members fuel ((name, contents) :: done) rest
            | '\x7d' :: rest => some (.obj (distinct ((name, contents) :: done).reverse), rest)
            | _ => none
        | _ => none
    | _ => none

end

/-- The value that a text writes. -/
def parse? (text : String) : Option Json :=
  let cs := text.toList
  match value (2 * cs.length + 2) cs with
  | some (json, rest) => if (skipBlanks rest).isEmpty then some json else none
  | none => none

end QueryCompiler.Json
