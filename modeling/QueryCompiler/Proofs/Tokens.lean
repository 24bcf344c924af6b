-- SUMMARY: The tokens of every part of a statement, with the value itself at each parameter.
import QueryCompiler.Statement.Compound

/-!
# Tokens with their values

Emitters bind values in a context that all of them share. The tokens of this module
need none: each value stands at its own parameter, and a part of a statement is
described by itself, as its tokens or as the error that it is refused for. What the
emitters do is this, with the parameters numbered in the order of the text.
-/

namespace QueryCompiler

/-- The tokens of a part of a statement, or why it has none. -/
abbrev Emission := Except CompileError (List (Token Value))

/-- A nested query, as the statement around it sees it. -/
structure Nested where
  statement : Emission
  /-- It is ordered, paged or a set operation, and so has to be delimited as an operand. -/
  isDelimited : Bool

/-- A nested query in parentheses. -/
def Nested.tokens (n : Nested) : Emission :=
  n.statement.map Token.parenthesized

/-- A bound value. -/
def Token.value (v : Value) : Token Value :=
  .param v

/-! ## Fragments -/

namespace Fragment

/-- Fills the markers with values. The values run out exactly when there are fewer of them. -/
def fill : List Part → List Value → List (Token Value)
  | [], _ => []
  | .text cs :: rest, values => .raw (String.ofList cs) :: fill rest values
  | .marker :: rest, v :: values => .param v :: fill rest values
  | .marker :: rest, [] => fill rest []

/-- The tokens of a fragment, which has to have one binding for each marker. -/
def tokens (f : Fragment) : Emission :=
  if f.markerCount = f.bindings.length then .ok (fill (parts f.text.toList) f.bindings)
  else .error (.markerMismatch f.text f.markerCount f.bindings.length)

end Fragment

/-! ## Conditions -/

/-- The tokens of the right-hand side of a comparison. -/
def Operand.tokens (p : Profile) : Operand Nested → Emission
  | .value v => .ok [Token.value v]
  | .column name => p.checkedReference .condition name
  | .query q => q.tokens
  | .raw fragment => fragment.tokens

/-- The tokens of a comparison. -/
def comparison (p : Profile) (negated : Bool) (column : String) (op : Comparison)
    (operand : Operand Nested) : Emission := do
  let column ← p.checkedReference .condition column
  match op.nullTest? operand with
  | some isNull => return nullTest column (isNull != negated)
  | none =>
    let operand ← operand.tokens p
    let tokens := column ++ [.space, .symbol op.symbol, .space] ++ operand
    return if negated then Token.notBefore true ++ Token.parenthesized tokens else tokens

/-- The tokens of a membership in a list of values. -/
def membership (p : Profile) (negated : Bool) (column : String) (values : List Value) : Emission := do
  let column ← p.checkedReference .condition column
  if values.isEmpty then return constantTest negated
  return column ++ Token.notAfter negated ++ Token.spaced .in_
    ++ Token.parenthesized (Token.commaSeparated (values.map fun v => [Token.value v]))

/-- The tokens of a pattern match. -/
def patternMatch (p : Profile) (negated : Bool) (column pattern : String) (caseSensitive : Bool) :
    Emission := do
  let column ← p.checkedReference .condition column
  let (subject, keyword, pattern) :=
    if caseSensitive then (column, Keyword.like, pattern)
    else
      match p.caselessMatch with
      | .ilike => (column, Keyword.ilike, pattern)
      | .lowerCase => (.function "LOWER" :: Token.parenthesized column, Keyword.like, Text.lower pattern)
  return subject ++ Token.notAfter negated ++ Token.spaced keyword ++ [Token.value (.string pattern)]

mutual

/-- The tokens of a condition that is no empty group. -/
def Condition.tokens (p : Profile) : Condition Nested → Emission
  | ⟨_, negated, predicate⟩ => Predicate.tokens p negated predicate

def Predicate.tokens (p : Profile) (negated : Bool) : Predicate Nested (Condition Nested) → Emission
  | .compare column op operand => comparison p negated column op operand
  | .inValues column values => membership p negated column values
  | .inQuery column q => do
    let column ← p.checkedReference .condition column
    let query ← q.tokens
    return column ++ Token.notAfter negated ++ Token.spaced .in_ ++ query
  | .between column low high => do
    let column ← p.checkedReference .condition column
    return column ++ Token.notAfter negated ++ Token.spaced .between ++ [Token.value low]
      ++ Token.spaced .and ++ [Token.value high]
  | .isNull column => do
    let column ← p.checkedReference .condition column
    return nullTest column (!negated)
  | .like column pattern caseSensitive => patternMatch p negated column pattern caseSensitive
  | .exists q => do
    let query ← q.tokens
    return Token.notBefore negated ++ [.keyword .exists, .space] ++ query
  | .group members => do
    let members ← Condition.tokensEach p members
    return Token.notBefore negated ++ Token.parenthesized (connect members)
  | .raw fragment => do
    let tokens ← fragment.tokens
    return if negated then Token.notBefore true ++ Token.parenthesized tokens else tokens

/-- The conditions of a list that are no empty groups, emitted with their connectors. -/
def Condition.tokensEach (p : Profile) :
    List (Condition Nested) → Except CompileError (List (Connector × List (Token Value)))
  | [] => .ok []
  | condition :: rest =>
    if condition.isVacuous then Condition.tokensEach p rest
    else do
      let tokens ← condition.tokens p
      let more ← Condition.tokensEach p rest
      return (condition.connector, tokens) :: more

end

/-- The tokens of a list of conditions, none when it has only empty groups. -/
def Condition.listTokens (p : Profile) (list : List (Condition Nested)) : Emission :=
  (Condition.tokensEach p list).map connect

/-! ## Selects -/

/-- The tokens of a term. -/
def Term.tokens (p : Profile) (place : NamePlace) : Term → Emission
  | .column name => p.checkedReference place name
  | .raw fragment => fragment.tokens

/-- The tokens of a term of an order. Ascending is what an order is when nothing is said. -/
def directedTokens (p : Profile) (order : Term × Direction) : Emission := do
  let tokens ← order.1.tokens p .orderBy
  return match order.2 with
    | .asc => tokens
    | .desc => tokens ++ [.space, .keyword .desc]

/-- The tokens of an order, none without terms. -/
def orderingTokens (p : Profile) (orders : List (Term × Direction)) : Emission :=
  (orders.mapM (directedTokens p)).map Token.commaSeparated

/-- The tokens of a grouping, none without terms. -/
def groupingTokens (p : Profile) (groups : List Term) : Emission :=
  (groups.mapM (Term.tokens p .groupBy)).map Token.commaSeparated

/-- The tokens of an entry of the select list. -/
def Selection.tokens (p : Profile) : Selection Nested → Emission
  | .column c => do
    checkName .select c.name
    return p.reference c.qualifiedName ++ aliasTokens p c.aliasName
  | .raw fragment => fragment.tokens
  | .aggregate function name aliasName => do
    let column ← p.checkedReference .aggregate name
    return .function function.sqlName :: Token.parenthesized column ++ aliasTokens p aliasName
  | .subquery q aliasName => do
    checkName .subqueryColumn aliasName
    let query ← q.tokens
    return query ++ aliasTokens p (some aliasName)

/-- The tokens of a select list; without entries it is all columns. -/
def selectionTokens (p : Profile) (items : List (Selection Nested)) : Emission :=
  if items.isEmpty then .ok [.symbol .star]
  else (items.mapM (Selection.tokens p)).map Token.commaSeparated

/-- The tokens of a source. -/
def Source.tokens (p : Profile) (place : NamePlace) : Source Nested → Emission
  | .table name aliasName => do
    checkName place name
    return p.table name aliasName
  | .subquery q aliasName => do
    checkName .derivedTable aliasName
    let query ← q.tokens
    return query ++ p.tableAlias aliasName
  | .raw fragment => fragment.tokens

/-- The conditions of a join. Every join but the cross join needs one. -/
def Join.conditionTokens (p : Profile) (j : Join Nested) : Emission :=
  if j.kind = .cross then .ok []
  else do
    let tokens ← Condition.listTokens p j.conditions
    if tokens.isEmpty then .error (.badJoin j.source.label .missingCondition)
    return Token.spaced .on ++ tokens

/-- The tokens of a join. -/
def Join.tokens (p : Profile) (j : Join Nested) : Emission := do
  j.check p
  let source ← j.source.tokens p .join
  let conditions ← j.conditionTokens p
  return .space :: j.kind.tokens ++ Token.spaced .join ++ source ++ conditions

/-- The tokens of the column that numbers the rows in an order. Without an order any order will
do. -/
def numberingTokens (t : Target) (orders : List (Term × Direction)) : Emission := do
  let order ← orderingTokens t.profile orders
  let order :=
    if orders.isEmpty then Token.parenthesized [.keyword .select, .space, .litInt 0] else order
  return numberingColumn t order

/-- What stands between `SELECT` and the select list besides `DISTINCT`. -/
def Shape.topTokens : Shape → List (Token Value)
  | .top rows =>
    [.space, .keyword .top, .space] ++ Token.parenthesized [Token.value (.int (Page.bound rows))]
  | _ => []

/-- What stands behind the select list. -/
def Shape.numberTokens (t : Target) (orders : List (Term × Direction)) : Shape → Emission
  | .numbered => do
    let column ← numberingTokens t orders
    return [.symbol .comma, .space] ++ column
  | _ => .ok []

/-- The order at the end of the SELECT. -/
def Shape.orderTokens (p : Profile) (orders : List (Term × Direction)) : Shape → Emission
  | .plain | .top _ => orderingTokens p orders
  | .numbered | .unordered => .ok []

/-- The tokens of the source, which a query has to have. -/
def fromTokens (p : Profile) : Option (Source Nested) → Emission
  | some source => do
    let tokens ← source.tokens p .from
    return Token.spaced .from ++ tokens
  | none => .error .noSource

/-- The tokens of a SELECT without the page around it. -/
def selectTokens (t : Target) (s : Sections Nested) (shape : Shape) : Emission := do
  let p := t.profile
  let items ← selectionTokens p s.items
  let number ← shape.numberTokens t s.orders
  let source ← fromTokens p s.source
  let joins ← s.joins.mapM (Join.tokens p)
  let filter ← Condition.listTokens p s.filters
  let groups ← groupingTokens p s.groups
  let having ← Condition.listTokens p s.havings
  let order ← shape.orderTokens p s.orders
  return .keyword .select :: (if s.distinct then [.space, .keyword .distinct] else [])
    ++ shape.topTokens ++ [.space] ++ items ++ number ++ source ++ joins.flatten
    ++ Token.sectionOf .where_ filter ++ Token.sectionOf .groupBy groups
    ++ Token.sectionOf .having having ++ Token.sectionOf .orderBy order

/-! ## Pages -/

/-- The tokens of the distinct rows of a query with their numbers. -/
def numberedDistinct (t : Target) (s : Sections Nested) : Emission := do
  let p := t.profile
  let number ← numberingTokens t (s.orders.map fun (term, direction) => (term.output p s.items, direction))
  let inner ← selectTokens t s .unordered
  return [.keyword .select, .space, .symbol .star, .symbol .comma, .space] ++ number
    ++ Token.spaced .from ++ Token.parenthesized inner ++ p.tableAlias distinctTable

/-- The tokens of the rows of a query with their numbers. -/
def numberedRows (t : Target) (s : Sections Nested) : Emission :=
  if s.distinct then numberedDistinct t s else selectTokens t s .numbered

/-- A comparison of row numbers with a bound. -/
def ordinalTest (ordinal : Token Value) (op : Symbol) (bound : Int64) : List (Token Value) :=
  [ordinal, .space, .symbol op, .space, Token.value (.int bound)]

/-- The test that a row number lies on a page. -/
def pageTest (ordinal : Token Value) (page : Page) : List (Token Value) :=
  match page.offset, page.limit with
  | some offset, some limit =>
    ordinalTest ordinal .ge (Page.firstRow offset) ++ Token.spaced .and
      ++ ordinalTest ordinal .lt (Page.pastLastRow offset limit)
  | some offset, none => ordinalTest ordinal .ge (Page.firstRow offset)
  | none, some limit => ordinalTest ordinal .le (Page.bound limit)
  | none, none => []

/-- `LIMIT` and `OFFSET` at the end. -/
def limitTokens (p : Profile) (page : Page) : List (Token Value) :=
  let limit :=
    match page.limit, page.offset, p.loneOffset with
    | some limit, _, _ => Token.spaced .limit ++ [Token.value (.int (Page.bound limit))]
    | none, some _, .afterLimit rows => Token.spaced .limit ++ [.raw rows]
    | none, _, _ => []
  let offset :=
    match page.offset with
    | some offset => Token.spaced .offset ++ [Token.value (.int (Page.bound offset))]
    | none => []
  limit ++ offset

/-- The rows of a page by `ROW_NUMBER()`. The order is repeated outside only where nothing else is
around the statement. -/
def rowNumberPage (t : Target) (s : Sections Nested) (page : Page) (outermost : Bool) : Emission := do
  let p := t.profile
  let inner ← numberedRows t s
  let ordinal := p.aliasToken t.options.rowNumberAlias
  let order := if outermost && !s.orders.isEmpty then Token.spaced .orderBy ++ [ordinal] else []
  return selectAllFrom inner ++ p.tableAlias t.options.wrapperAlias
    ++ Token.spaced .where_ ++ pageTest ordinal page ++ order

/-- The rows of a page by `ROWNUM`. An offset needs the numbers as a column of a further query, since
the pseudo-column counts only the rows that are kept. -/
def rowNumPage (t : Target) (s : Sections Nested) (page : Page) : Emission := do
  let inner ← selectTokens t s .plain
  match page.offset with
  | none => return selectAllFrom inner ++ Token.spaced .where_ ++ pageTest rowNumToken page
  | some _ =>
    return selectAllFrom (rowNumRows t inner) ++ Token.spaced .where_
      ++ pageTest (t.profile.aliasToken t.options.rowNumberAlias) page

/-- The tokens of a SELECT with its page cut out. -/
def pagedTokens (t : Target) (s : Sections Nested) (outermost : Bool) : Emission :=
  match Plan.ofPage t.profile.paging s.page with
  | .whole => selectTokens t s .plain
  | .limitOffset page => (selectTokens t s .plain).map (· ++ limitTokens t.profile page)
  | .top rows => selectTokens t s (.top rows)
  | .rowNumber page => rowNumberPage t s page outermost
  | .rowNum page => rowNumPage t s page

/-! ## Statements -/

/-- The tokens of a common table expression. -/
def cteTokens (p : Profile) (cte : String × Nested) : Emission := do
  checkName .cte cte.1
  let query ← cte.2.tokens
  return p.aliasToken cte.1 :: Token.spaced .as ++ query

/-- `WITH` and the common table expressions, when there are any. -/
def withTokens (p : Profile) (ctes : List (String × Nested)) : Emission :=
  if ctes.isEmpty then .ok []
  else do
    let list ← ctes.mapM (cteTokens p)
    return [.keyword .with_, .space] ++ Token.commaSeparated list ++ [.space]

/-- The tokens of an arm with its operator. -/
def Arm.tokens (p : Profile) (arm : Arm Nested) : Emission := do
  let keyword ← arm.operator.keyword p
  let statement ← arm.operand.statement
  let operand ← operandTokens p arm.operand.isDelimited statement
  return [.space, .keyword keyword] ++ (if arm.all then [.space, .keyword .all] else [])
    ++ [.space] ++ operand

/-- The tokens of a statement from its sections. -/
def sectionTokens (t : Target) (s : Sections Nested) (outermost : Bool) : Emission := do
  let p := t.profile
  let ctes ← withTokens p s.ctes
  if s.arms.isEmpty then
    let head ← pagedTokens t s outermost
    return ctes ++ head
  else
    let head ← pagedTokens t s false
    let head ← operandTokens p s.isDelimited head
    let arms ← s.arms.mapM (Arm.tokens p)
    return ctes ++ head ++ arms.flatten

/-- The tokens of a statement from its clauses. `outermost` says that no statement is around it. -/
def statementTokens (t : Target) (outermost : Bool) (clauses : Clauses Nested) : Emission := do
  let sections ← Sections.ofClauses clauses
  sectionTokens t sections outermost

/-- A level of a query as the level around it sees it. -/
def Nested.ofClauses (t : Target) (clauses : Clauses Nested) : Nested where
  statement := statementTokens t false clauses
  isDelimited := clauses.isOrdered || clauses.isPaged || clauses.hasSetOperations

/-- A query as the statement around it sees it. -/
def Query.nested (t : Target) (q : Query) : Nested :=
  q.fold (Nested.ofClauses t)

/-- The tokens of a query that stands on its own. -/
def Query.tokens (t : Target) (q : Query) : Emission :=
  statementTokens t true (q.clauses.map (Clause.map (Query.nested t)))

end QueryCompiler
