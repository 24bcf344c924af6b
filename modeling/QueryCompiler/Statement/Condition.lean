-- SUMMARY: Emitting conditions.
import QueryCompiler.Statement.Fragment
import QueryCompiler.Text.CaseMap

/-!
# Conditions

A list of conditions is emitted without its empty groups, and the connector of
the first condition that is left has nothing to connect. A comparison for
equality with null becomes a test for null, and membership in no values becomes a
comparison of constants.
-/

namespace QueryCompiler

variable {σ : Type}

def Comparison.symbol : Comparison → Symbol
  | .eq => .eq
  | .ne => .ne
  | .lt => .lt
  | .le => .le
  | .gt => .gt
  | .ge => .ge

def Connector.keyword : Connector → Keyword
  | .and => .and
  | .or => .or

/-! ## Empty groups -/

mutual

/-- Whether a condition is a group of nothing but empty groups. -/
def Condition.isVacuous : Condition σ → Bool
  | ⟨_, _, predicate⟩ => Predicate.isVacuous predicate

def Predicate.isVacuous : Predicate σ (Condition σ) → Bool
  | .group members => Condition.allVacuous members
  | _ => false

def Condition.allVacuous : List (Condition σ) → Bool
  | [] => true
  | condition :: rest => condition.isVacuous && Condition.allVacuous rest

end

/-! ## Single predicates -/

/-- Emits the right-hand side of a comparison. -/
def Operand.emit (p : Profile) : Operand Subquery → Emitter (List (Token Nat))
  | .value v => return [← Emitter.param v]
  | .column name => p.checkedReference .condition name
  | .query q => q.emitParenthesized
  | .raw fragment => fragment.emit

/-- The test for null that a comparison stands for, and whether it is for null itself. -/
def Comparison.nullTest? (op : Comparison) (operand : Operand σ) : Option Bool :=
  match operand, op with
  | .value .null, .eq => some true
  | .value .null, .ne => some false
  | _, _ => none

/-- The tokens of a test for null. -/
def nullTest {α : Type} (column : List (Token α)) (isNull : Bool) : List (Token α) :=
  column ++ [.space, .keyword (if isNull then .isNull else .isNotNull)]

/-- Emits a comparison. -/
def emitComparison (p : Profile) (negated : Bool) (column : String) (op : Comparison)
    (operand : Operand Subquery) : Emitter (List (Token Nat)) := do
  let column ← p.checkedReference .condition column
  match op.nullTest? operand with
  | some isNull => return nullTest column (isNull != negated)
  | none =>
    let operand ← operand.emit p
    let tokens := column ++ [.space, .symbol op.symbol, .space] ++ operand
    return if negated then Token.notBefore true ++ Token.parenthesized tokens else tokens

/-- The comparison that stands for membership in no values. -/
def constantTest {α : Type} (holds : Bool) : List (Token α) :=
  [.litInt 1, .space, .symbol .eq, .space, .litInt (if holds then 1 else 0)]

/-- Emits a membership in a list of values. -/
def emitMembership (p : Profile) (negated : Bool) (column : String) (values : List Value) :
    Emitter (List (Token Nat)) := do
  let column ← p.checkedReference .condition column
  if values.isEmpty then return constantTest negated
  let params ← values.mapM Emitter.param
  return column ++ Token.notAfter negated ++ Token.spaced .in_
    ++ Token.parenthesized (Token.commaSeparated (params.map fun t => [t]))

/-- Emits a pattern match. -/
def emitPatternMatch (p : Profile) (negated : Bool) (column pattern : String) (caseSensitive : Bool) :
    Emitter (List (Token Nat)) := do
  let column ← p.checkedReference .condition column
  let (subject, keyword, pattern) :=
    if caseSensitive then (column, Keyword.like, pattern)
    else
      match p.caselessMatch with
      | .ilike => (column, Keyword.ilike, pattern)
      | .lowerCase => (.function "LOWER" :: Token.parenthesized column, Keyword.like, Text.lower pattern)
  let param ← Emitter.param (.string pattern)
  return subject ++ Token.notAfter negated ++ Token.spaced keyword ++ [param]

/-! ## Lists -/

/-- The emitted conditions of a list with their connectors between them. -/
def connect {α : Type} : List (Connector × List (Token α)) → List (Token α)
  | [] => []
  | (_, first) :: rest =>
    first ++ rest.flatMap fun (connector, tokens) => Token.spaced connector.keyword ++ tokens

mutual

/-- Emits a condition that is no empty group. -/
def Condition.emit (p : Profile) : Condition Subquery → Emitter (List (Token Nat))
  | ⟨_, negated, predicate⟩ => Predicate.emit p negated predicate

def Predicate.emit (p : Profile) (negated : Bool) :
    Predicate Subquery (Condition Subquery) → Emitter (List (Token Nat))
  | .compare column op operand => emitComparison p negated column op operand
  | .inValues column values => emitMembership p negated column values
  | .inQuery column q => do
    let column ← p.checkedReference .condition column
    let query ← q.emitParenthesized
    return column ++ Token.notAfter negated ++ Token.spaced .in_ ++ query
  | .between column low high => do
    let column ← p.checkedReference .condition column
    let low ← Emitter.param low
    let high ← Emitter.param high
    return column ++ Token.notAfter negated ++ Token.spaced .between ++ [low] ++ Token.spaced .and ++ [high]
  | .isNull column => do
    let column ← p.checkedReference .condition column
    return nullTest column (!negated)
  | .like column pattern caseSensitive => emitPatternMatch p negated column pattern caseSensitive
  | .exists q => do
    let query ← q.emitParenthesized
    return Token.notBefore negated ++ [.keyword .exists, .space] ++ query
  | .group members => do
    let members ← Condition.emitEach p members
    return Token.notBefore negated ++ Token.parenthesized (connect members)
  | .raw fragment => do
    let tokens ← fragment.emit
    return if negated then Token.notBefore true ++ Token.parenthesized tokens else tokens

/-- Emits the conditions of a list that are no empty groups, with their connectors. -/
def Condition.emitEach (p : Profile) :
    List (Condition Subquery) → Emitter (List (Connector × List (Token Nat)))
  | [] => return []
  | condition :: rest =>
    if condition.isVacuous then Condition.emitEach p rest
    else do
      let tokens ← condition.emit p
      let more ← Condition.emitEach p rest
      return (condition.connector, tokens) :: more

end

/-- Emits a list of conditions; nothing when it has only empty groups. -/
def Condition.emitList (p : Profile) (list : List (Condition Subquery)) : Emitter (List (Token Nat)) := do
  return connect (← Condition.emitEach p list)

end QueryCompiler
