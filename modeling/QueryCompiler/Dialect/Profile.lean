-- SUMMARY: What the compiler has to know about one database engine, as plain data.
import QueryCompiler.Identifier.Quote

/-!
# Dialect profiles

Engines differ in spelling (quotes, placeholders, literals) and in what they
support. A profile holds these differences as data, so that one compiler serves
every engine. Only paging needs different constructs, named by `Paging`.
-/

-- Powers of literals are those of the core library, also beside an algebra that brings its own.
attribute [default_instance high + 1] instPowNat

namespace QueryCompiler

/-- How a bound parameter is spelled. -/
inductive PlaceholderForm where
  /-- A lead and the index from zero: `@p0`. -/
  | indexed (lead : String)
  /-- A dollar sign and the index from one: `$1`. -/
  | dollar
  /-- The same question mark for every parameter. -/
  | mark
deriving DecidableEq, Repr

/-- The construct that limits a result to a page. -/
inductive Paging where
  /-- `LIMIT n OFFSET m` after everything else. -/
  | limitOffset
  /-- `TOP (n)` in front of the columns; with an offset, numbered rows. -/
  | topCount
  /-- Rows numbered by `ROW_NUMBER()` in an inner query. -/
  | rowNumber
  /-- The pseudo-column `ROWNUM` of an inner query. -/
  | rowNum
deriving DecidableEq, Repr

/-- What `LIMIT n OFFSET m` becomes when there is an offset and no limit. -/
inductive LoneOffset where
  /-- The offset stands on its own. -/
  | bare
  /-- A limit has to come first; this one keeps all rows. -/
  | afterLimit (rows : String)
deriving DecidableEq, Repr

/-- How a pattern is matched without regard to case. -/
inductive CaselessMatch where
  /-- `column ILIKE pattern`. -/
  | ilike
  /-- `LOWER(column) LIKE pattern` with the pattern in lower case. -/
  | lowerCase
deriving DecidableEq, Repr

structure Profile where
  name : String
  quotes : QuotePair
  placeholderForm : PlaceholderForm
  paging : Paging
  loneOffset : LoneOffset
  trueLiteral : String
  falseLiteral : String
  /-- String literals beyond ASCII are marked with `N`. -/
  marksUnicode : Bool
  /-- What stands around the hexadecimal digits of a binary literal. -/
  bytesOpening : String
  bytesClosing : String
  caselessMatch : CaselessMatch
  /-- A table alias follows `AS`. -/
  tableAliasAs : Bool
  hasIntersect : Bool
  hasExcept : Bool
  /-- The keyword of the set difference. -/
  exceptKeyword : String
  hasFullJoin : Bool
  hasRightJoin : Bool
  /-- An operand of a set operation may stand in parentheses. -/
  hasOperandParens : Bool
  /-- The most parameters that a statement may bind. -/
  maxBindings : Nat
deriving DecidableEq, Repr

namespace Profile

/-- The placeholder of the parameter with an index from zero. An index is a word of 64 bits, so the
number after the dollar sign goes on with zero behind the greatest word. -/
def placeholder (p : Profile) (index : Nat) : String :=
  match p.placeholderForm with
  | .indexed lead => lead ++ toString index
  | .dollar => "$" ++ toString ((index + 1) % 2 ^ 64)
  | .mark => "?"

/-- One identifier in quotes. -/
def quoteIdentifier (p : Profile) (name : String) : String :=
  String.ofList (p.quotes.quote name.toList)

def boolLiteral (p : Profile) (b : Bool) : String :=
  if b then p.trueLiteral else p.falseLiteral

end Profile

end QueryCompiler
