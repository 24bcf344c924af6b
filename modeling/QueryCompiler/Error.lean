-- SUMMARY: Why a query does not compile, and how that is said.

/-!
# Compile errors

A query compiles as a whole or not at all. Each error names its cause; the
wording is in the `message` functions and nowhere else.
-/

namespace QueryCompiler

/-- What is wrong with a column shorthand. -/
inductive ShorthandFlaw where
  | unbalancedBraces
  | emptyPrefix
  | strayBrace
  | emptyEntry
deriving DecidableEq, Repr

def ShorthandFlaw.message : ShorthandFlaw → String
  | .unbalancedBraces => "unbalanced braces"
  | .emptyPrefix => "empty prefix"
  | .strayBrace => "nested or unbalanced braces"
  | .emptyEntry => "empty entry"

/-- The places where a name may not be blank. -/
inductive NamePlace where
  | select
  | aggregate
  | subqueryColumn
  | from
  | join
  | derivedTable
  | condition
  | groupBy
  | orderBy
  | cte
deriving DecidableEq, Repr

def NamePlace.message : NamePlace → String
  | .select => "SELECT"
  | .aggregate => "aggregate"
  | .subqueryColumn => "subquery column alias"
  | .from => "FROM"
  | .join => "JOIN"
  | .derivedTable => "derived table alias"
  | .condition => "WHERE"
  | .groupBy => "GROUP BY"
  | .orderBy => "ORDER BY"
  | .cte => "WITH"

/-- What is wrong with the conditions of a join. -/
inductive JoinFlaw where
  | conditionsOnCross
  | missingCondition
deriving DecidableEq, Repr

def JoinFlaw.message : JoinFlaw → String
  | .conditionsOnCross => "CROSS JOIN takes no ON conditions"
  | .missingCondition => "missing ON condition"

/-- What some dialects do not support. -/
inductive Feature where
  | fullJoin
  | rightJoin
  | intersect
  | except
  | pagedOperand
deriving DecidableEq, Repr

def Feature.message : Feature → String
  | .fullJoin => "FULL OUTER JOIN"
  | .rightJoin => "RIGHT JOIN"
  | .intersect => "INTERSECT"
  | .except => "EXCEPT"
  | .pagedOperand => "ordered or paginated set operation operand"

inductive CompileError where
  /-- A column specification with braces that is no shorthand. -/
  | badShorthand (spec : String) (flaw : ShorthandFlaw)
  /-- A blank name. -/
  | blankName (place : NamePlace)
  /-- A query without a source. -/
  | noSource
  /-- A raw fragment with more or fewer markers than bindings. -/
  | markerMismatch (text : String) (markers bindings : Nat)
  | badJoin (label : String) (flaw : JoinFlaw)
  | notSupported (dialect : String) (feature : Feature)
  | tooManyBindings (dialect : String) (limit count : Nat)
deriving DecidableEq, Repr

namespace CompileError

/-- What is said about an error. -/
def message : CompileError → String
  | .badShorthand spec flaw => "Malformed column shorthand \x60" ++ spec ++ "\x60: " ++ flaw.message
  | .blankName place => place.message ++ " clause references no column or table"
  | .noSource => "Query has no FROM source"
  | .markerMismatch text markers bindings =>
    "Raw fragment \x60" ++ text ++ "\x60 has " ++ toString markers ++ " placeholder(s) but "
      ++ toString bindings ++ " binding(s)"
  | .badJoin label flaw => "Invalid join on \x60" ++ label ++ "\x60: " ++ flaw.message
  | .notSupported dialect feature =>
    feature.message ++ " is not supported by the " ++ dialect ++ " dialect"
  | .tooManyBindings dialect limit count =>
    "Statement binds " ++ toString count ++ " parameters but " ++ dialect ++ " allows at most "
      ++ toString limit

end CompileError

end QueryCompiler
