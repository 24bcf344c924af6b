-- SUMMARY: The description of a query as a list of clauses, in which further queries are nested.
import QueryCompiler.Value

/-!
# Queries

A query is an ordered list of clauses, and nothing about it is checked before
it is compiled. Queries nest in many places: derived tables, subquery columns,
operands, `IN` and `EXISTS`, set operations, common table expressions. The types
of this module take the type `σ` of nested queries as a parameter; `Query` ties
the knot. What one level of a query means can thus be said once, over whatever
the nested queries have been turned into.
-/

namespace QueryCompiler

/-! ## Raw fragments -/

/-- SQL text written by hand. Every question mark without a backslash before it is a marker for the
next binding. -/
structure Fragment where
  text : String
  bindings : List Value := []
deriving DecidableEq, Repr

/-! ## Columns and terms -/

/-- A column of the select list. -/
structure Column where
  /-- The table or alias in front of the name. -/
  source : Option String := none
  name : String
  aliasName : Option String := none
deriving DecidableEq, Repr

/-- The name of a column behind its source. -/
def Column.qualifiedName (c : Column) : String :=
  match c.source with
  | some source => source ++ "." ++ c.name
  | none => c.name

inductive Aggregate where
  | count
  | sum
  | avg
  | min
  | max
deriving DecidableEq, Repr

def Aggregate.sqlName : Aggregate → String
  | .count => "COUNT"
  | .sum => "SUM"
  | .avg => "AVG"
  | .min => "MIN"
  | .max => "MAX"

/-- What rows are grouped or ordered by. -/
inductive Term where
  | column (name : String)
  | raw (fragment : Fragment)
deriving DecidableEq, Repr

inductive Direction where
  | asc
  | desc
deriving DecidableEq, Repr

/-! ## Conditions -/

/-- How a condition is connected to the one before it. -/
inductive Connector where
  | and
  | or
deriving DecidableEq, Repr

inductive Comparison where
  | eq
  | ne
  | lt
  | le
  | gt
  | ge
deriving DecidableEq, Repr

/-- The right-hand side of a comparison. -/
inductive Operand (σ : Type) where
  | value (v : Value)
  | column (name : String)
  | query (query : σ)
  | raw (fragment : Fragment)
deriving DecidableEq, Repr

/-- What a condition asks, over the type `κ` of the conditions in a group. -/
inductive Predicate (σ κ : Type) where
  | compare (column : String) (op : Comparison) (operand : Operand σ)
  | inValues (column : String) (values : List Value)
  | inQuery (column : String) (query : σ)
  | between (column : String) (low high : Value)
  | isNull (column : String)
  | like (column pattern : String) (caseSensitive : Bool)
  | exists (query : σ)
  | group (members : List κ)
  | raw (fragment : Fragment)
deriving DecidableEq, Repr

/-- A predicate, possibly negated, and its connection to the condition before it. -/
structure Condition (σ : Type) where
  connector : Connector := .and
  negated : Bool := false
  predicate : Predicate σ (Condition σ)

/-! ## Sources -/

/-- What rows are read from. -/
inductive Source (σ : Type) where
  | table (name : String) (aliasName : Option String)
  | subquery (query : σ) (aliasName : String)
  | raw (fragment : Fragment)
deriving DecidableEq, Repr

/-- How a source is called in messages. -/
def Source.label {σ : Type} : Source σ → String
  | .table name _ => name
  | .subquery _ aliasName => aliasName
  | .raw fragment => fragment.text

inductive JoinKind where
  | inner
  | left
  | right
  | full
  | cross
deriving DecidableEq, Repr

structure Join (σ : Type) where
  kind : JoinKind
  source : Source σ
  conditions : List (Condition σ) := []

/-! ## Clauses -/

inductive SetOperator where
  | union
  | intersect
  | except
deriving DecidableEq, Repr

inductive Clause (σ : Type) where
  /-- A column specification that is still to be expanded. -/
  | select (spec : String)
  | column (column : Column)
  | rawColumn (fragment : Fragment)
  | aggregate (function : Aggregate) (column : String) (aliasName : Option String)
  | subqueryColumn (query : σ) (aliasName : String)
  | from (source : Source σ)
  | join (join : Join σ)
  | filter (condition : Condition σ)
  | groupBy (term : Term)
  | having (condition : Condition σ)
  | orderBy (term : Term) (direction : Direction)
  /-- The greatest number of rows; zero means all of them. -/
  | limit (rows : UInt64)
  /-- The number of rows to skip; a negative number means none. -/
  | offset (rows : Int64)
  | distinct
  | setOperation (operand : σ) (operator : SetOperator) (all : Bool)
  /-- A common table expression. -/
  | cte (name : String) (query : σ)

structure Query where
  clauses : List (Clause Query)

end QueryCompiler
