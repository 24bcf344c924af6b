-- SUMMARY: The scalars of TOML: strings, numbers, dates and times.
import QueryCompiler.Json.Parser
import QueryCompiler.Toml.Basic

/-!
# TOML scalars

Strings come in four forms, in double or single quotes and on one or several
lines. What is no string is a word of letters, digits and a few signs, and is
read as a whole: it is a boolean, an integer, a float or a date or time, or the
document is refused. A number that is written well may still be out of range.
-/

namespace QueryCompiler.Toml

/-! ## Characters -/

def isSpace (c : Char) : Bool :=
  c = ' ' || c = '\t'

/-- The characters that may stand in comments and, quotes and backslashes apart, in strings of one
line: no control characters but the tab. -/
def isPrintable (c : Char) : Bool :=
  c = '\t' || (32 ≤ c.toNat && c.toNat ≠ 127)

/-! ## Strings of one line -/

/-- The number written by hexadecimal digits. -/
def hexValue? (digits : List Char) : Option Nat :=
  digits.foldlM (fun n c => (Json.hexDigit? c).map (n * 16 + ·)) 0

/-- The character with a code point, when there is one. -/
def scalar? (n : Nat) : Option Char :=
  if n < 0xD800 ∨ (0xE000 ≤ n ∧ n < 0x110000) then some (Char.ofNat n) else none

/-- The character that a backslash and `c` stand for. -/
def escape? (c : Char) : Option Char :=
  match c with
  | '"' => some '"'
  | '\\' => some '\\'
  | 'b' => some '\x08'
  | 'e' => some '\x1b'
  | 'f' => some '\x0c'
  | 'n' => some '\n'
  | 'r' => some '\r'
  | 't' => some '\t'
  | _ => none

/-- The character of an escape, after its backslash, and the text that follows. -/
def escaped? : List Char → Option (Char × List Char)
  | 'x' :: a :: b :: rest => ((hexValue? [a, b]).bind scalar?).map fun ch => (ch, rest)
  | 'u' :: a :: b :: c :: d :: rest =>
    ((hexValue? [a, b, c, d]).bind scalar?).map fun ch => (ch, rest)
  | 'U' :: a :: b :: c :: d :: e :: f :: g :: h :: rest =>
    ((hexValue? [a, b, c, d, e, f, g, h]).bind scalar?).map fun ch => (ch, rest)
  | c :: rest => (escape? c).map fun ch => (ch, rest)
  | [] => none

/-- The rest of a string in double quotes. The fuel is at least the length of the text. -/
def basicString (fuel : Nat) (done : List Char) (cs : List Char) : Option (String × List Char) :=
  match fuel, cs with
  | 0, _ => none
  | _, [] => none
  | _, '"' :: rest => some (String.ofList done.reverse, rest)
  | fuel + 1, '\\' :: rest =>
    match escaped? rest with
    | some (c, rest) => basicString fuel (c :: done) rest
    | none => none
  | fuel + 1, c :: rest => if isPrintable c then basicString fuel (c :: done) rest else none

/-- The rest of a string in single quotes, which has no escapes. -/
def literalString (done : List Char) : List Char → Option (String × List Char)
  | [] => none
  | c :: rest =>
    if c = '\'' then some (String.ofList done.reverse, rest)
    else if isPrintable c then literalString (c :: done) rest
    else none

/-! ## Strings of several lines -/

/-- The text without the line end that may follow the opening quotes. -/
def skipLineEnd : List Char → List Char
  | '\n' :: rest => rest
  | '\r' :: '\n' :: rest => rest
  | cs => cs

/-- The text behind blanks and line ends. A carriage return alone ends no line. -/
def skipBlankLines : List Char → List Char
  | '\r' :: '\n' :: rest => skipBlankLines rest
  | c :: rest => if isSpace c || c = '\n' then skipBlankLines rest else c :: rest
  | [] => []

/-- The text after a backslash at the end of a line, without the blanks that it folds away. -/
def folded? (cs : List Char) : Option (List Char) :=
  match cs.dropWhile isSpace with
  | '\n' :: rest => some (skipBlankLines rest)
  | '\r' :: '\n' :: rest => some (skipBlankLines rest)
  | _ => none

/-- The quotes that end a string of several lines, of which up to two belong to the string, and the
text that follows. -/
def closingQuotes? (quote : Char) (cs : List Char) : Option (List Char × List Char) :=
  match cs with
  | a :: b :: c :: rest =>
    if a = quote ∧ b = quote ∧ c = quote then
      let more := (rest.takeWhile (· = quote)).take 2
      some (more, rest.drop more.length)
    else none
  | _ => none

/-- The rest of a string of several lines, whose line ends are kept as they are written. The fuel is
at least the length of the text. -/
def multilineString (quote : Char) (fuel : Nat) (done : List Char) (cs : List Char) :
    Option (String × List Char) :=
  match fuel with
  | 0 => none
  | fuel + 1 =>
    match closingQuotes? quote cs with
    | some (more, rest) => some (String.ofList (more.reverse ++ done).reverse, rest)
    | none =>
      match cs with
      | [] => none
      | '\r' :: '\n' :: rest => multilineString quote fuel ('\n' :: '\r' :: done) rest
      | '\n' :: rest => multilineString quote fuel ('\n' :: done) rest
      | c :: rest =>
        if c = '\\' && quote = '"' then
          match folded? rest with
          | some rest => multilineString quote fuel done rest
          | none =>
            match escaped? rest with
            | some (c, rest) => multilineString quote fuel (c :: done) rest
            | none => none
        else if isPrintable c then multilineString quote fuel (c :: done) rest
        else none

/-- A string from its opening quotes on. -/
def string? (cs : List Char) : Option (String × List Char) :=
  let fuel := cs.length + 1
  match cs with
  | '"' :: '"' :: '"' :: rest => multilineString '"' fuel [] (skipLineEnd rest)
  | '\'' :: '\'' :: '\'' :: rest => multilineString '\'' fuel [] (skipLineEnd rest)
  | '"' :: rest => basicString fuel [] rest
  | '\'' :: rest => literalString [] rest
  | _ => none

/-! ## Integers and floats -/

/-- The parts of a text between occurrences of a character. -/
def splitOn (c : Char) : List Char → List (List Char)
  | [] => [[]]
  | d :: rest =>
    if d = c then [] :: splitOn c rest
    else
      match splitOn c rest with
      | [] => [[d]]
      | part :: parts => (d :: part) :: parts

/-- The digits of a text in which single underscores may stand between digits. -/
def digits? (isDigit : Char → Bool) (cs : List Char) : Option (List Char) :=
  let groups := splitOn '_' cs
  if groups.all fun group => !group.isEmpty && group.all isDigit then some groups.flatten else none

/-- The digits of a decimal number without superfluous zeros in front. -/
def decimalDigits? (cs : List Char) : Option (List Char) :=
  match digits? Char.isDigit cs with
  | some ('0' :: _ :: _) => none
  | result => result

/-- The sign of a number, true for minus, and what follows it. -/
def sign : List Char → Bool × List Char
  | '+' :: rest => (false, rest)
  | '-' :: rest => (true, rest)
  | cs => (false, cs)

/-- Integers are in range when they fit 128 bits, with or without a sign. -/
def integer (negative : Bool) (n : Nat) : Toml :=
  if negative then if n ≤ 2 ^ 127 then .int (-n) else .outOfRange
  else if n < 2 ^ 128 then .int n else .outOfRange

/-- The number written by digits in a base up to sixteen. -/
def digitsValue (base : Nat) (digits : List Char) : Nat :=
  digits.foldl (fun n c => n * base + (Json.hexDigit? c).getD 0) 0

/-- The rule for digits in a base. -/
def isBaseDigit (base : Nat) (c : Char) : Bool :=
  match Json.hexDigit? c with
  | some n => n < base
  | none => false

/-- The integer written by digits in a base after its mark. The mark alone is a number out of range. -/
def baseInteger? (base : Nat) (cs : List Char) : Option Toml :=
  if cs.isEmpty then some .outOfRange
  else (digits? (isBaseDigit base) cs).map fun ds => integer false (digitsValue base ds)

def integer? : List Char → Option Toml
  | '0' :: 'x' :: rest => baseInteger? 16 rest
  | '0' :: 'o' :: rest => baseInteger? 8 rest
  | '0' :: 'b' :: rest => baseInteger? 2 rest
  | cs =>
    let (negative, rest) := sign cs
    (decimalDigits? rest).map fun ds => integer negative (digitsValue 10 ds)

/-- The mantissa and the exponent of a number, cut at the letter between them. -/
def cutExponent (cs : List Char) : List Char × Option (List Char) :=
  match cs.span fun c => c ≠ 'e' && c ≠ 'E' with
  | (mantissa, _ :: exponent) => (mantissa, some exponent)
  | (mantissa, []) => (mantissa, none)

/-- A float in digits has a point with digits on both sides or an exponent. It is out of range when the
nearest double is infinite. -/
def finiteFloat? (cs : List Char) : Option Toml := do
  let (negative, rest) := sign cs
  let (mantissa, exponent) := cutExponent rest
  let power ← match exponent with
    | none => some 0
    | some text =>
      let (below, ds) := sign text
      (digits? Char.isDigit ds).map fun ds =>
        let n : Int := digitsValue 10 ds
        if below then -n else n
  let (whole, fraction) ← match splitOn '.' mantissa with
    | [whole] => if exponent.isSome then some (whole, []) else none
    | [whole, fraction] => (digits? Char.isDigit fraction).map fun ds => (whole, ds)
    | _ => none
  let whole ← decimalDigits? whole
  let x := Double.ofDecimal negative (digitsValue 10 (whole ++ fraction)) (power - fraction.length)
  return if x.isFinite then .float x else .outOfRange

def float? (cs : List Char) : Option Toml :=
  let (negative, rest) := sign cs
  if rest = ['i', 'n', 'f'] then some (.float (Double.infinity negative))
  else if rest = ['n', 'a', 'n'] then some (.float (Double.ofFields negative (2047 * 2 ^ 52 + 2 ^ 51)))
  else finiteFloat? cs

/-! ## Dates and times -/

/-- A number of exactly as many digits as the text has. -/
def field? (cs : List Char) : Option Nat :=
  if !cs.isEmpty && cs.all Char.isDigit then some (digitsValue 10 cs) else none

def isLeapYear (year : Nat) : Bool :=
  year % 4 = 0 && (year % 100 ≠ 0 || year % 400 = 0)

def daysIn (year month : Nat) : Nat :=
  if month = 2 then if isLeapYear year then 29 else 28
  else if month = 4 ∨ month = 6 ∨ month = 9 ∨ month = 11 then 30
  else 31

/-- Whether a text is a date of the calendar, such as `1979-05-27`. -/
def isDate : List Char → Bool
  | [y₁, y₂, y₃, y₄, '-', m₁, m₂, '-', d₁, d₂] =>
    match field? [y₁, y₂, y₃, y₄], field? [m₁, m₂], field? [d₁, d₂] with
    | some year, some month, some day =>
      1 ≤ month && month ≤ 12 && 1 ≤ day && day ≤ daysIn year month
    | _, _, _ => false
  | _ => false

/-- The text after hours and minutes, when there are such. -/
def afterMinutes? : List Char → Option (List Char)
  | h₁ :: h₂ :: ':' :: m₁ :: m₂ :: rest =>
    match field? [h₁, h₂], field? [m₁, m₂] with
    | some hour, some minute => if hour ≤ 23 ∧ minute ≤ 59 then some rest else none
    | _, _ => none
  | _ => none

/-- The text after a fraction of a second, which has at least one digit when it is there. -/
def afterFraction? : List Char → Option (List Char)
  | '.' :: rest =>
    match rest.span Char.isDigit with
    | ([], _) => none
    | (_, rest) => some rest
  | cs => some cs

/-- The text after a time of day, such as `07:32:00.5`. The seconds may be left out, and a minute may
have a leap second. -/
def afterTime? (cs : List Char) : Option (List Char) :=
  match afterMinutes? cs with
  | some (':' :: s₁ :: s₂ :: rest) =>
    match field? [s₁, s₂] with
    | some second => if second ≤ 60 then afterFraction? rest else none
    | none => none
  | some (':' :: _) => none
  | result => result

/-- Whether a text is a distance from universal time, such as `Z` or `-07:00`. -/
def isOffset : List Char → Bool
  | ['Z'] => true
  | ['z'] => true
  | c :: rest => (c = '+' || c = '-') && afterMinutes? rest = some []
  | [] => false

/-- Whether a text is a date, a time, or both with an offset or without one. -/
def isDatetime (cs : List Char) : Bool :=
  let afterDate := cs.drop 10
  if isDate (cs.take 10) then
    match afterDate with
    | [] => true
    | c :: rest =>
      (c = 'T' || c = 't' || c = ' ') &&
        match afterTime? rest with
        | some [] => true
        | some offset => isOffset offset
        | none => false
  else afterTime? cs = some []

/-! ## Words -/

/-- The characters of words. -/
def isWordChar (c : Char) : Bool :=
  c.isAlphanum || c = '_' || c = '+' || c = '-' || c = '.' || c = ':'

/-- The word at the start and the text after it. Between a date and a time stands one blank. -/
def word (cs : List Char) : List Char × List Char :=
  match cs.span isWordChar with
  | (first, ' ' :: c :: rest) =>
    if isDate first && c.isDigit then
      let (second, rest) := (c :: rest).span isWordChar
      (first ++ ' ' :: second, rest)
    else (first, ' ' :: c :: rest)
  | result => result

/-- The value of a word. -/
def wordValue? (cs : List Char) : Option Toml :=
  if cs = ['t', 'r', 'u', 'e'] then some (.bool true)
  else if cs = ['f', 'a', 'l', 's', 'e'] then some (.bool false)
  else if isDatetime cs then some (.datetime (String.ofList cs))
  else
    match integer? cs with
    | some value => some value
    | none => float? cs

end QueryCompiler.Toml
