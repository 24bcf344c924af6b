-- SUMMARY: The clauses of one level sorted into the sections of a statement.
import QueryCompiler.Column.Specification
import QueryCompiler.Query.View

/-!
# Sections

A statement has a fixed order of sections, whatever the order of the clauses.
Sorting expands the column specifications; it fails at the first one that is
malformed, before anything else is looked at.
-/

namespace QueryCompiler

variable {σ : Type}

/-- An entry of the select list. -/
inductive Selection (σ : Type) where
  | column (column : Column)
  | raw (fragment : Fragment)
  | aggregate (function : Aggregate) (column : String) (aliasName : Option String)
  | subquery (query : σ) (aliasName : String)

namespace Selection

/-- An expanded specification as an entry. -/
def ofSpecification : Specification.Item → Selection σ
  | .column c => .column c
  | .raw fragment => .raw fragment

/-- The entries that a clause adds to the select list. -/
def ofClause : Clause σ → Except CompileError (List (Selection σ))
  | .select spec => (Specification.expand spec).map (List.map ofSpecification)
  | .column c => .ok [.column c]
  | .rawColumn fragment => .ok [.raw fragment]
  | .aggregate function name aliasName => .ok [.aggregate function name aliasName]
  | .subqueryColumn q aliasName => .ok [.subquery q aliasName]
  | _ => .ok []

/-- The entries of a whole clause list. -/
def ofClauses (clauses : Clauses σ) : Except CompileError (List (Selection σ)) :=
  (clauses.mapM ofClause).map List.flatten

end Selection

/-- An operand of a set operation and how it is combined with what stands before it. -/
structure Arm (σ : Type) where
  operator : SetOperator
  all : Bool
  operand : σ

/-- The arm that a clause adds. -/
def Arm.ofClause? : Clause σ → Option (Arm σ)
  | .setOperation operand operator all => some ⟨operator, all, operand⟩
  | _ => none

structure Sections (σ : Type) where
  ctes : List (String × σ)
  items : List (Selection σ)
  distinct : Bool
  source : Option (Source σ)
  joins : List (Join σ)
  filters : List (Condition σ)
  groups : List Term
  havings : List (Condition σ)
  orders : List (Term × Direction)
  page : Page
  arms : List (Arm σ)

namespace Sections

/-- The sections of a clause list, given its select list. -/
def ofItems (items : List (Selection σ)) (clauses : Clauses σ) : Sections σ where
  ctes := clauses.filterMap Clause.cte?
  items := items
  distinct := clauses.isDistinct
  source := clauses.source
  joins := clauses.filterMap Clause.join?
  filters := clauses.filterMap Clause.filter?
  groups := clauses.filterMap Clause.group?
  havings := clauses.filterMap Clause.having?
  orders := clauses.orders
  page := clauses.page
  arms := clauses.filterMap Arm.ofClause?

/-- The sections of a clause list. -/
def ofClauses (clauses : Clauses σ) : Except CompileError (Sections σ) :=
  (Selection.ofClauses clauses).map fun items => ofItems items clauses

/-- Whether the statement has to be delimited before it can be an operand. -/
def isDelimited (s : Sections σ) : Bool :=
  !s.orders.isEmpty || s.page.isPartial

end Sections

end QueryCompiler
