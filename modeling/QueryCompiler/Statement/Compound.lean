-- SUMMARY: Emitting whole statements: common table expressions, a head, and the arms of set operations; and queries, by folding.
import QueryCompiler.Query.Fold
import QueryCompiler.Statement.Paged

/-!
# Statements

A statement may begin with common table expressions and go on with set
operations. An operand that is ordered, paged or itself a set operation stands in
parentheses, where the dialect has them. `Query.emit` emits a query with
everything nested in it.
-/

namespace QueryCompiler

/-! ## Common table expressions -/

/-- Emits a common table expression. -/
def emitCte (p : Profile) (cte : String × Subquery) : Emitter (List (Token Nat)) := do
  checkName .cte cte.1
  let query ← cte.2.emitParenthesized
  return p.aliasToken cte.1 :: Token.spaced .as ++ query

/-- Emits `WITH` and the common table expressions, when there are any. -/
def emitWith (p : Profile) (ctes : List (String × Subquery)) : Emitter (List (Token Nat)) :=
  if ctes.isEmpty then return []
  else do
    let list ← ctes.mapM (emitCte p)
    return [.keyword .with_, .space] ++ Token.commaSeparated list ++ [.space]

/-! ## Set operations -/

/-- The keyword of a set operator, where the dialect has it. -/
def SetOperator.keyword (p : Profile) : SetOperator → Except CompileError Keyword
  | .union => .ok .union
  | .intersect => if p.hasIntersect then .ok .intersect else .error (p.notSupported .intersect)
  | .except => if p.hasExcept then .ok .except else .error (p.notSupported .except)

/-- An operand, in parentheses when it has to be delimited. -/
def operandTokens {α : Type} (p : Profile) (isDelimited : Bool) (tokens : List (Token α)) :
    Except CompileError (List (Token α)) :=
  if !isDelimited then .ok tokens
  else if p.hasOperandParens then .ok (Token.parenthesized tokens)
  else .error (p.notSupported .pagedOperand)

/-- Emits an arm with its operator. -/
def Arm.emit (p : Profile) (arm : Arm Subquery) : Emitter (List (Token Nat)) := do
  let keyword ← arm.operator.keyword p
  let statement ← arm.operand.emit
  let operand ← operandTokens p arm.operand.isDelimited statement
  return [.space, .keyword keyword] ++ (if arm.all then [.space, .keyword .all] else [])
    ++ [.space] ++ operand

/-! ## Statements -/

/-- Emits a statement from its sections. -/
def emitSections (t : Target) (s : Sections Subquery) : Emitter (List (Token Nat)) := do
  let p := t.profile
  let ctes ← emitWith p s.ctes
  let head ← emitPaged t s ((← Emitter.isOutermost) && s.arms.isEmpty)
  if s.arms.isEmpty then return ctes ++ head
  let head ← operandTokens p s.isDelimited head
  let arms ← s.arms.mapM (Arm.emit p)
  return ctes ++ head ++ arms.flatten

/-- Emits a statement from its clauses. -/
def emitStatement (t : Target) (clauses : Clauses Subquery) : Emitter (List (Token Nat)) := do
  let sections ← Sections.ofClauses clauses
  emitSections t sections

/-- A level of a query as the level around it sees it. -/
def Subquery.ofClauses (t : Target) (clauses : Clauses Subquery) : Subquery where
  emit := Emitter.deeper (emitStatement t clauses)
  isDelimited := clauses.isOrdered || clauses.isPaged || clauses.hasSetOperations

/-- A query as the statement around it sees it. -/
def Query.subquery (t : Target) (q : Query) : Subquery :=
  q.fold (Subquery.ofClauses t)

/-- Emits a query with everything nested in it. -/
def Query.emit (t : Target) (q : Query) : Emitter (List (Token Nat)) :=
  (q.subquery t).emit

end QueryCompiler
