-- SUMMARY: Building queries and conditions step by step.
import QueryCompiler.Query.Basic

/-!
# Building queries

Each step appends clauses to a query and checks nothing.
-/

namespace QueryCompiler

/-! ## Fragments and sources -/

/-- A table under its own name. -/
def Source.ofTable {σ : Type} (name : String) : Source σ :=
  .table name none

/-! ## Conditions -/

namespace Condition

variable {σ : Type}

/-- A predicate as a condition of its own. -/
def ofPredicate (predicate : Predicate σ (Condition σ)) : Condition σ :=
  ⟨.and, false, predicate⟩

/-- A comparison of a column with an operand. -/
def compare (column : String) (op : Comparison) (operand : Operand σ) : Condition σ :=
  ofPredicate (.compare column op operand)

/-- A comparison of a column with a bound value. -/
def value (column : String) (op : Comparison) (v : Value) : Condition σ :=
  compare column op (.value v)

def eq (column : String) (v : Value) : Condition σ :=
  value column .eq v

/-- A comparison of two columns. -/
def columns (left : String) (op : Comparison) (right : String) : Condition σ :=
  compare left op (.column right)

def isIn (column : String) (values : List Value) : Condition σ :=
  ofPredicate (.inValues column values)

def isInQuery (column : String) (q : σ) : Condition σ :=
  ofPredicate (.inQuery column q)

def between (column : String) (low high : Value) : Condition σ :=
  ofPredicate (.between column low high)

def isNull (column : String) : Condition σ :=
  ofPredicate (.isNull column)

/-- A match that tells capital from small letters. -/
def like (column pattern : String) : Condition σ :=
  ofPredicate (.like column pattern true)

/-- A match that does not tell capital from small letters. -/
def ilike (column pattern : String) : Condition σ :=
  ofPredicate (.like column pattern false)

def existsIn (q : σ) : Condition σ :=
  ofPredicate (.exists q)

def group (members : List (Condition σ)) : Condition σ :=
  ofPredicate (.group members)

def raw (fragment : Fragment) : Condition σ :=
  ofPredicate (.raw fragment)

/-- The condition connected by `OR` to the one before it. -/
def or (condition : Condition σ) : Condition σ :=
  { condition with connector := .or }

/-- The opposite condition. -/
def not (condition : Condition σ) : Condition σ :=
  { condition with negated := !condition.negated }

end Condition

/-! ## Queries -/

namespace Query

def empty : Query := ⟨[]⟩

/-- Appends a clause. -/
def push (q : Query) (clause : Clause Query) : Query :=
  ⟨q.clauses ++ [clause]⟩

/-- Sets the table to read from. -/
def fromTable (q : Query) (name : String) : Query :=
  q.push (.from (.ofTable name))

/-- The query of all rows of a table. -/
def table (name : String) : Query :=
  empty.fromTable name

/-! ### Columns -/

/-- Adds column specifications. -/
def select (q : Query) (specs : List String) : Query :=
  ⟨q.clauses ++ specs.map .select⟩

def column (q : Query) (c : Column) : Query :=
  q.push (.column c)

def selectRaw (q : Query) (text : String) (bindings : List Value) : Query :=
  q.push (.rawColumn ⟨text, bindings⟩)

def aggregate (q : Query) (function : Aggregate) (name : String) (aliasName : Option String) : Query :=
  q.push (.aggregate function name aliasName)

def selectSubquery (q : Query) (nested : Query) (aliasName : String) : Query :=
  q.push (.subqueryColumn nested aliasName)

def distinct (q : Query) : Query :=
  q.push .distinct

/-! ### Sources and joins -/

def fromAs (q : Query) (name aliasName : String) : Query :=
  q.push (.from (.table name (some aliasName)))

def fromSubquery (q : Query) (nested : Query) (aliasName : String) : Query :=
  q.push (.from (.subquery nested aliasName))

def fromRaw (q : Query) (text : String) (bindings : List Value) : Query :=
  q.push (.from (.raw ⟨text, bindings⟩))

def join (q : Query) (kind : JoinKind) (source : Source Query) (conditions : List (Condition Query)) :
    Query :=
  q.push (.join ⟨kind, source, conditions⟩)

/-- An inner join on the equality of two columns. -/
def innerJoin (q : Query) (name left right : String) : Query :=
  q.join .inner (.ofTable name) [.columns left .eq right]

/-- A left join on the equality of two columns. -/
def leftJoin (q : Query) (name left right : String) : Query :=
  q.join .left (.ofTable name) [.columns left .eq right]

def crossJoin (q : Query) (name : String) : Query :=
  q.join .cross (.ofTable name) []

/-! ### Filters, groups and order -/

def filter (q : Query) (condition : Condition Query) : Query :=
  q.push (.filter condition)

def filterEq (q : Query) (name : String) (v : Value) : Query :=
  q.filter (.eq name v)

def filterRaw (q : Query) (text : String) (bindings : List Value) : Query :=
  q.filter (.raw ⟨text, bindings⟩)

def groupBy (q : Query) (name : String) : Query :=
  q.push (.groupBy (.column name))

def groupByRaw (q : Query) (text : String) : Query :=
  q.push (.groupBy (.raw ⟨text, []⟩))

def having (q : Query) (condition : Condition Query) : Query :=
  q.push (.having condition)

def orderBy (q : Query) (name : String) : Query :=
  q.push (.orderBy (.column name) .asc)

def orderByDesc (q : Query) (name : String) : Query :=
  q.push (.orderBy (.column name) .desc)

def orderByRaw (q : Query) (text : String) (bindings : List Value) : Query :=
  q.push (.orderBy (.raw ⟨text, bindings⟩) .asc)

/-! ### Page -/

/-- Sets the limit; zero takes it away. -/
def limit (q : Query) (rows : UInt64) : Query :=
  q.push (.limit rows)

/-- Sets the offset; a number that is not positive takes it away. -/
def offset (q : Query) (rows : Int64) : Query :=
  q.push (.offset rows)

/-! ### Set operations and common table expressions -/

def union (q operand : Query) : Query :=
  q.push (.setOperation operand .union false)

def unionAll (q operand : Query) : Query :=
  q.push (.setOperation operand .union true)

def intersect (q operand : Query) : Query :=
  q.push (.setOperation operand .intersect false)

def except (q operand : Query) : Query :=
  q.push (.setOperation operand .except false)

/-- Adds a common table expression. -/
def withCte (q : Query) (name : String) (nested : Query) : Query :=
  q.push (.cte name nested)

end Query

end QueryCompiler
