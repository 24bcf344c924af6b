-- SUMMARY: Emitting a single SELECT, from its columns to its order.
import QueryCompiler.Options
import QueryCompiler.Statement.Condition
import QueryCompiler.Statement.Sections

/-!
# Selects

The sections of a SELECT are emitted in the order of the text. Paging may ask
for another shape than the plain one: a count in front of the columns, a column
of row numbers that takes the order into its window, or no order at all.
-/

namespace QueryCompiler

/-! ## Terms -/

/-- Emits a term. -/
def Term.emit (p : Profile) (place : NamePlace) : Term → Emitter (List (Token Nat))
  | .column name => p.checkedReference place name
  | .raw fragment => fragment.emit

/-- Emits a term of an order. Ascending is what an order is when nothing is said. -/
def emitDirected (p : Profile) (order : Term × Direction) : Emitter (List (Token Nat)) := do
  let tokens ← order.1.emit p .orderBy
  return match order.2 with
    | .asc => tokens
    | .desc => tokens ++ [.space, .keyword .desc]

/-- Emits an order, nothing without terms. -/
def emitOrdering (p : Profile) (orders : List (Term × Direction)) : Emitter (List (Token Nat)) := do
  return Token.commaSeparated (← orders.mapM (emitDirected p))

/-- Emits a grouping, nothing without terms. -/
def emitGrouping (p : Profile) (groups : List Term) : Emitter (List (Token Nat)) := do
  return Token.commaSeparated (← groups.mapM (Term.emit p .groupBy))

/-! ## Select list -/

/-- `AS` and the alias, when there is one. -/
def aliasTokens {α : Type} (p : Profile) : Option String → List (Token α)
  | some aliasName => Token.spaced .as ++ [p.aliasToken aliasName]
  | none => []

/-- Emits an entry of the select list. -/
def Selection.emit (p : Profile) : Selection Subquery → Emitter (List (Token Nat))
  | .column c => do
    checkName .select c.name
    return p.reference c.qualifiedName ++ aliasTokens p c.aliasName
  | .raw fragment => fragment.emit
  | .aggregate function name aliasName => do
    let column ← p.checkedReference .aggregate name
    return .function function.sqlName :: Token.parenthesized column ++ aliasTokens p aliasName
  | .subquery q aliasName => do
    checkName .subqueryColumn aliasName
    let query ← q.emitParenthesized
    return query ++ aliasTokens p (some aliasName)

/-- Emits a select list; without entries it is all columns. -/
def emitSelection (p : Profile) (items : List (Selection Subquery)) : Emitter (List (Token Nat)) :=
  if items.isEmpty then return [.symbol .star]
  else do return Token.commaSeparated (← items.mapM (Selection.emit p))

/-! ## Sources and joins -/

/-- Emits a source. -/
def Source.emit (p : Profile) (place : NamePlace) : Source Subquery → Emitter (List (Token Nat))
  | .table name aliasName => do
    checkName place name
    return p.table name aliasName
  | .subquery q aliasName => do
    checkName .derivedTable aliasName
    let query ← q.emitParenthesized
    return query ++ p.tableAlias aliasName
  | .raw fragment => fragment.emit

/-- The keywords of a join. -/
def JoinKind.tokens {α : Type} : JoinKind → List (Token α)
  | .inner => [.keyword .inner]
  | .left => [.keyword .left]
  | .right => [.keyword .right]
  | .full => [.keyword .full, .space, .keyword .outer]
  | .cross => [.keyword .cross]

/-- Refuses a join that the dialect does not have, and conditions on a cross join. -/
def Join.check {σ : Type} (p : Profile) (j : Join σ) : Except CompileError Unit :=
  match j.kind with
  | .full => if p.hasFullJoin then .ok () else .error (p.notSupported .fullJoin)
  | .right => if p.hasRightJoin then .ok () else .error (p.notSupported .rightJoin)
  | .cross =>
    if j.conditions.isEmpty then .ok ()
    else .error (.badJoin j.source.label .conditionsOnCross)
  | .inner | .left => .ok ()

/-- Emits the conditions of a join. Every join but the cross join needs one. -/
def Join.emitConditions (p : Profile) (j : Join Subquery) : Emitter (List (Token Nat)) :=
  if j.kind = .cross then return []
  else do
    let tokens ← Condition.emitList p j.conditions
    if tokens.isEmpty then throw (.badJoin j.source.label .missingCondition)
    return Token.spaced .on ++ tokens

/-- Emits a join. -/
def Join.emit (p : Profile) (j : Join Subquery) : Emitter (List (Token Nat)) := do
  j.check p
  let source ← j.source.emit p .join
  let conditions ← j.emitConditions p
  return .space :: j.kind.tokens ++ Token.spaced .join ++ source ++ conditions

/-! ## Row numbers -/

/-- The tokens of the column that numbers the rows in an order, given the tokens of the order. -/
def numberingColumn {α : Type} (t : Target) (order : List (Token α)) : List (Token α) :=
  .function "ROW_NUMBER" :: Token.parenthesized [] ++ Token.spaced .over
    ++ Token.parenthesized ([.keyword .orderBy, .space] ++ order)
    ++ aliasTokens t.profile (some t.options.rowNumberAlias)

/-- Emits the column that numbers the rows in an order. Without an order any order will do. -/
def emitNumbering (t : Target) (orders : List (Term × Direction)) : Emitter (List (Token Nat)) := do
  let order ←
    if orders.isEmpty then pure (Token.parenthesized [.keyword .select, .space, .litInt 0])
    else emitOrdering t.profile orders
  return numberingColumn t order

/-! ## The whole SELECT -/

/-- What paging asks of a SELECT. -/
inductive Shape where
  | plain
  /-- `TOP` with a number of rows. -/
  | top (rows : Nat)
  /-- A column of row numbers, which takes over the order. -/
  | numbered
  /-- No order; a query around this one applies it. -/
  | unordered
deriving DecidableEq, Repr

/-- Emits what stands between `SELECT` and the select list besides `DISTINCT`. -/
def Shape.emitTop : Shape → Emitter (List (Token Nat))
  | .top rows => do
    let count ← Emitter.param (.int (Page.bound rows))
    return [.space, .keyword .top, .space] ++ Token.parenthesized [count]
  | _ => return []

/-- Emits what stands behind the select list. -/
def Shape.emitNumber (t : Target) (orders : List (Term × Direction)) : Shape → Emitter (List (Token Nat))
  | .numbered => do
    let column ← emitNumbering t orders
    return [.symbol .comma, .space] ++ column
  | _ => return []

/-- Emits the order at the end of the SELECT. -/
def Shape.emitOrder (p : Profile) (orders : List (Term × Direction)) : Shape → Emitter (List (Token Nat))
  | .plain | .top _ => emitOrdering p orders
  | .numbered | .unordered => return []

/-- Emits the source, which a query has to have. -/
def emitFrom (p : Profile) : Option (Source Subquery) → Emitter (List (Token Nat))
  | some source => do
    let tokens ← source.emit p .from
    return Token.spaced .from ++ tokens
  | none => throw .noSource

/-- Emits a SELECT without the page around it. -/
def emitSelect (t : Target) (s : Sections Subquery) (shape : Shape) : Emitter (List (Token Nat)) := do
  let p := t.profile
  let top ← shape.emitTop
  let items ← emitSelection p s.items
  let number ← shape.emitNumber t s.orders
  let source ← emitFrom p s.source
  let joins ← s.joins.mapM (Join.emit p)
  let filter ← Condition.emitList p s.filters
  let groups ← emitGrouping p s.groups
  let having ← Condition.emitList p s.havings
  let order ← shape.emitOrder p s.orders
  return .keyword .select :: (if s.distinct then [.space, .keyword .distinct] else [])
    ++ top ++ [.space] ++ items ++ number ++ source ++ joins.flatten
    ++ Token.sectionOf .where_ filter ++ Token.sectionOf .groupBy groups
    ++ Token.sectionOf .having having ++ Token.sectionOf .orderBy order

end QueryCompiler
