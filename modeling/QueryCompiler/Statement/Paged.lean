-- SUMMARY: Emitting a SELECT with its page cut out.
import QueryCompiler.Statement.Select

/-!
# Paged selects

A dialect without a native page numbers the rows of an inner query and filters
on the numbers outside it. Duplicates have to be gone before rows are numbered,
so a distinct query is nested once more, and its order then refers to the columns
of that derived table.
-/

namespace QueryCompiler

/-! ## Order over distinct rows -/

/-- The derived table of distinct rows. -/
def distinctTable : String := "distinct_rows"

/-- The last segment of a compound name. -/
def Profile.baseName (p : Profile) (name : String) : String :=
  String.ofList ((p.quotes.split name.toList).getLastD [])

/-- The name under which an entry of the select list is seen from outside, when `name` refers to it. -/
def Selection.outputName? {σ : Type} (p : Profile) (name : String) : Selection σ → Option String
  | .column c =>
    if c.qualifiedName = name ∨ c.aliasName = some name then some (c.aliasName.getD (p.baseName c.name))
    else none
  | .aggregate _ _ aliasName => if aliasName = some name then some name else none
  | _ => none

/-- The name under which a column of the order is seen from outside: that of the first entry of the
select list that it refers to, otherwise its own last segment. -/
def outputName {σ : Type} (p : Profile) (items : List (Selection σ)) (name : String) : String :=
  (items.findSome? (Selection.outputName? p name)).getD (p.baseName name)

/-- A term of the order as it is seen from outside. -/
def Term.output {σ : Type} (p : Profile) (items : List (Selection σ)) : Term → Term
  | .column name => .column (outputName p items name)
  | .raw fragment => .raw fragment

/-! ## Numbered rows -/

/-- `SELECT * FROM` and a query in parentheses. -/
def selectAllFrom {α : Type} (inner : List (Token α)) : List (Token α) :=
  [.keyword .select, .space, .symbol .star] ++ Token.spaced .from ++ Token.parenthesized inner

/-- Emits the distinct rows of a query with their numbers. -/
def emitNumberedDistinct (t : Target) (s : Sections Subquery) : Emitter (List (Token Nat)) := do
  let p := t.profile
  let number ← emitNumbering t (s.orders.map fun (term, direction) => (term.output p s.items, direction))
  let inner ← emitSelect t s .unordered
  return [.keyword .select, .space, .symbol .star, .symbol .comma, .space] ++ number
    ++ Token.spaced .from ++ Token.parenthesized inner ++ p.tableAlias distinctTable

/-- Emits the rows of a query with their numbers. -/
def emitNumberedRows (t : Target) (s : Sections Subquery) : Emitter (List (Token Nat)) :=
  if s.distinct then emitNumberedDistinct t s else emitSelect t s .numbered

/-- Emits a comparison of row numbers with a bound. -/
def emitOrdinalTest (ordinal : Token Nat) (op : Symbol) (bound : Int64) : Emitter (List (Token Nat)) := do
  let bound ← Emitter.param (.int bound)
  return [ordinal, .space, .symbol op, .space, bound]

/-- Emits the test that a row number lies on a page. -/
def emitPageTest (ordinal : Token Nat) (page : Page) : Emitter (List (Token Nat)) :=
  match page.offset, page.limit with
  | some offset, some limit => do
    let lower ← emitOrdinalTest ordinal .ge (Page.firstRow offset)
    let upper ← emitOrdinalTest ordinal .lt (Page.pastLastRow offset limit)
    return lower ++ Token.spaced .and ++ upper
  | some offset, none => emitOrdinalTest ordinal .ge (Page.firstRow offset)
  | none, some limit => emitOrdinalTest ordinal .le (Page.bound limit)
  | none, none => return []

/-! ## The constructs -/

/-- Emits a keyword with a number of rows. -/
def emitRows (k : Keyword) (rows : Nat) : Emitter (List (Token Nat)) := do
  let rows ← Emitter.param (.int (Page.bound rows))
  return Token.spaced k ++ [rows]

/-- Emits `LIMIT` and `OFFSET` at the end. -/
def emitLimit (p : Profile) (page : Page) : Emitter (List (Token Nat)) := do
  let limit ←
    match page.limit, page.offset, p.loneOffset with
    | some limit, _, _ => emitRows .limit limit
    | none, some _, .afterLimit rows => pure (Token.spaced .limit ++ [.raw rows])
    | none, _, _ => pure []
  let offset ←
    match page.offset with
    | some offset => emitRows .offset offset
    | none => pure []
  return limit ++ offset

/-- Emits the rows of a page by `ROW_NUMBER()`. The order is repeated outside only where nothing else
is around the statement. -/
def emitRowNumberPage (t : Target) (s : Sections Subquery) (page : Page) (outermost : Bool) :
    Emitter (List (Token Nat)) := do
  let p := t.profile
  let inner ← emitNumberedRows t s
  let ordinal := p.aliasToken t.options.rowNumberAlias
  let test ← emitPageTest ordinal page
  let order := if outermost && !s.orders.isEmpty then Token.spaced .orderBy ++ [ordinal] else []
  return selectAllFrom inner ++ p.tableAlias t.options.wrapperAlias ++ Token.spaced .where_ ++ test ++ order

/-- The pseudo-column that numbers rows as they come. -/
def rowNumToken {α : Type} : Token α :=
  .raw "ROWNUM"

/-- The rows of a query with the pseudo-column as a column of their own. -/
def rowNumRows {α : Type} (t : Target) (inner : List (Token α)) : List (Token α) :=
  let p := t.profile
  [.keyword .select, .space, p.aliasToken t.options.wrapperAlias, .symbol .dot, .symbol .star,
      .symbol .comma, .space, rowNumToken] ++ Token.spaced .as ++ [p.aliasToken t.options.rowNumberAlias]
    ++ Token.spaced .from ++ Token.parenthesized inner ++ p.tableAlias t.options.wrapperAlias

/-- Emits the rows of a page by `ROWNUM`. An offset needs the numbers as a column of a further query,
since the pseudo-column counts only the rows that are kept. -/
def emitRowNumPage (t : Target) (s : Sections Subquery) (page : Page) : Emitter (List (Token Nat)) := do
  let inner ← emitSelect t s .plain
  match page.offset with
  | none =>
    let test ← emitPageTest rowNumToken page
    return selectAllFrom inner ++ Token.spaced .where_ ++ test
  | some _ =>
    let test ← emitPageTest (t.profile.aliasToken t.options.rowNumberAlias) page
    return selectAllFrom (rowNumRows t inner) ++ Token.spaced .where_ ++ test

/-- Emits a SELECT with its page cut out. -/
def emitPaged (t : Target) (s : Sections Subquery) (outermost : Bool) : Emitter (List (Token Nat)) :=
  match Plan.ofPage t.profile.paging s.page with
  | .whole => emitSelect t s .plain
  | .limitOffset page => do
    let tokens ← emitSelect t s .plain
    let limit ← emitLimit t.profile page
    return tokens ++ limit
  | .top rows => emitSelect t s (.top rows)
  | .rowNumber page => emitRowNumberPage t s page outermost
  | .rowNum page => emitRowNumPage t s page

end QueryCompiler
