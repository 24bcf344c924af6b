-- SUMMARY: What a list of clauses says: the page, the flags and the clauses of each kind.
import QueryCompiler.Page
import QueryCompiler.Query.Basic

/-!
# Views of a clause list

Of the clauses that set one thing, the last one counts; of the others, all
count in their order. Each view looks at its own kind of clause only, so the
order between different kinds means nothing.
-/

namespace QueryCompiler

variable {σ : Type}

/-! ## Clauses of one kind -/

namespace Clause

def source? : Clause σ → Option (Source σ)
  | .from source => some source
  | _ => none

def join? : Clause σ → Option (Join σ)
  | .join j => some j
  | _ => none

def filter? : Clause σ → Option (Condition σ)
  | .filter condition => some condition
  | _ => none

def group? : Clause σ → Option Term
  | .groupBy term => some term
  | _ => none

def having? : Clause σ → Option (Condition σ)
  | .having condition => some condition
  | _ => none

def order? : Clause σ → Option (Term × Direction)
  | .orderBy term direction => some (term, direction)
  | _ => none

def limit? : Clause σ → Option UInt64
  | .limit rows => some rows
  | _ => none

def offset? : Clause σ → Option Int64
  | .offset rows => some rows
  | _ => none

def isDistinct : Clause σ → Bool
  | .distinct => true
  | _ => false

def isSetOperation : Clause σ → Bool
  | .setOperation .. => true
  | _ => false

def cte? : Clause σ → Option (String × σ)
  | .cte name q => some (name, q)
  | _ => none

end Clause

/-! ## The whole list -/

/-- The clauses of one level. -/
abbrev Clauses (σ : Type) := List (Clause σ)

namespace Clauses

/-- The limit in effect: the last one, unless it is zero. -/
def limit (clauses : Clauses σ) : Option Nat :=
  match (clauses.filterMap Clause.limit?).getLast? with
  | some rows => if rows.toNat = 0 then none else some rows.toNat
  | none => none

/-- The offset in effect: the last one, unless it skips nothing. -/
def offset (clauses : Clauses σ) : Option Nat :=
  match (clauses.filterMap Clause.offset?).getLast? with
  | some rows => if rows.toInt ≤ 0 then none else some rows.toInt.toNat
  | none => none

/-- The page in effect. -/
def page (clauses : Clauses σ) : Page :=
  ⟨clauses.limit, clauses.offset⟩

/-- The last source. -/
def source (clauses : Clauses σ) : Option (Source σ) :=
  (clauses.filterMap Clause.source?).getLast?

def orders (clauses : Clauses σ) : List (Term × Direction) :=
  clauses.filterMap Clause.order?

def isDistinct (clauses : Clauses σ) : Bool :=
  clauses.any Clause.isDistinct

def isOrdered (clauses : Clauses σ) : Bool :=
  !clauses.orders.isEmpty

def isPaged (clauses : Clauses σ) : Bool :=
  clauses.page.isPartial

def hasSetOperations (clauses : Clauses σ) : Bool :=
  clauses.any Clause.isSetOperation

end Clauses

/-! ## Queries -/

namespace Query

/-- The limit in effect. -/
def limit? (q : Query) : Option Nat :=
  Clauses.limit q.clauses

/-- The offset in effect. -/
def offset? (q : Query) : Option Nat :=
  Clauses.offset q.clauses

def isDistinct (q : Query) : Bool :=
  Clauses.isDistinct q.clauses

def isOrdered (q : Query) : Bool :=
  Clauses.isOrdered q.clauses

def hasSetOperations (q : Query) : Bool :=
  Clauses.hasSetOperations q.clauses

def isPaged (q : Query) : Bool :=
  Clauses.isPaged q.clauses

end Query

end QueryCompiler
