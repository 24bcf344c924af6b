-- SUMMARY: Reading queries from JSON.
import QueryCompiler.Json.Basic
import QueryCompiler.Query.Name

/-!
# Reading queries from JSON

The reader accepts what the writer produces, with fields in any order, fields
that have a default left out, and fields that it does not know. Each level is
read with a reader for the queries nested in it; the depth of the JSON bounds how
often levels nest.
-/

namespace QueryCompiler

/-! ## Values and fragments -/

/-- A value from its kind and its contents. -/
def Value.ofKind? (contents : Json) : String → Option Value
  | "Null" => match contents with
    | .null => some .null
    | _ => none
  | "Bool" => contents.bool?.map .bool
  | "Int" => contents.int64?.map .int
  | "Float" => contents.double?.map .float
  | "String" => contents.str?.map .string
  | "Bytes" => (contents.list? Json.uint8?).map .bytes
  | _ => none

/-- The contents of a value may be left out when there are none. -/
def Value.ofJson? : Json → Option Value
  | .obj members => do
    let kind ← (members.lookup "type").bind Json.unitCase?
    ofKind? ((members.lookup "value").getD .null) kind
  | .arr [kind, contents] => kind.unitCase?.bind (ofKind? contents)
  | _ => none

def Fragment.ofJson? (json : Json) : Option Fragment := do
  let record ← json.record? ["text", "bindings"]
  let text ← record.field? "text" Json.str?
  let bindings ← record.fieldD? "bindings" [] (Json.list? Value.ofJson?)
  return ⟨text, bindings⟩

/-- Text that may be left out or `null`. -/
def Json.text? (json : Json) (name : String) : Option (Option String) :=
  json.fieldD? name none (Json.nullable? Json.str?)

def Column.ofJson? (json : Json) : Option Column := do
  let record ← json.record? ["source", "name", "alias"]
  let source ← record.text? "source"
  let name ← record.field? "name" Json.str?
  let aliasName ← record.text? "alias"
  return ⟨source, name, aliasName⟩

def Term.ofJson? (json : Json) : Option Term := do
  match ← json.case? with
  | ("Column", contents) => contents.str?.map .column
  | ("Raw", contents) => (Fragment.ofJson? contents).map .raw
  | _ => none

/-! ## One level, with a reader for nested queries -/

variable {σ κ : Type}

def Operand.ofJson? (query? : Json → Option σ) (json : Json) : Option (Operand σ) := do
  match ← json.case? with
  | ("Value", contents) => (Value.ofJson? contents).map .value
  | ("Column", contents) => contents.str?.map .column
  | ("Query", contents) => (query? contents).map .query
  | ("Raw", contents) => (Fragment.ofJson? contents).map .raw
  | _ => none

/-- Fields are read from an object only. -/
def Source.ofJson? (query? : Json → Option σ) (json : Json) : Option (Source σ) := do
  match ← json.case? with
  | ("Table", .obj fields) =>
    let name ← (Json.obj fields).field? "name" Json.str?
    let aliasName ← (Json.obj fields).text? "alias"
    return .table name aliasName
  | ("Subquery", .obj fields) =>
    let q ← (Json.obj fields).field? "query" query?
    let aliasName ← (Json.obj fields).field? "alias" Json.str?
    return .subquery q aliasName
  | ("Raw", contents) => (Fragment.ofJson? contents).map .raw
  | _ => none

/-- A predicate, with a reader for the members of a group. -/
def Predicate.ofJson? (query? : Json → Option σ) (member? : Json → Option κ) (json : Json) :
    Option (Predicate σ κ) := do
  match ← json.case? with
  | ("Compare", .obj fields) =>
    let column ← (Json.obj fields).field? "column" Json.str?
    let op ← (Json.obj fields).field? "op" (Json.kind? Comparison.ofName?)
    let operand ← (Json.obj fields).field? "operand" (Operand.ofJson? query?)
    return .compare column op operand
  | ("In", .obj fields) =>
    let column ← (Json.obj fields).field? "column" Json.str?
    let values ← (Json.obj fields).field? "values" (Json.list? Value.ofJson?)
    return .inValues column values
  | ("InQuery", .obj fields) =>
    let column ← (Json.obj fields).field? "column" Json.str?
    let q ← (Json.obj fields).field? "query" query?
    return .inQuery column q
  | ("Between", .obj fields) =>
    let column ← (Json.obj fields).field? "column" Json.str?
    let low ← (Json.obj fields).field? "low" Value.ofJson?
    let high ← (Json.obj fields).field? "high" Value.ofJson?
    return .between column low high
  | ("Null", .obj fields) =>
    let column ← (Json.obj fields).field? "column" Json.str?
    return .isNull column
  | ("Like", .obj fields) =>
    let column ← (Json.obj fields).field? "column" Json.str?
    let pattern ← (Json.obj fields).field? "pattern" Json.str?
    let caseSensitive ← (Json.obj fields).field? "case_sensitive" Json.bool?
    return .like column pattern caseSensitive
  | ("Exists", .obj fields) =>
    let q ← (Json.obj fields).field? "query" query?
    return .exists q
  | ("Group", contents) => (contents.list? member?).map .group
  | ("Raw", contents) => (Fragment.ofJson? contents).map .raw
  | _ => none

/-- A condition whose groups are nested less than `fuel` deep. -/
def Condition.ofJson? (query? : Json → Option σ) (fuel : Nat) (json : Json) :
    Option (Condition σ) :=
  match fuel with
  | 0 => none
  | fuel + 1 => do
    let record ← json.record? ["connector", "negated", "kind"]
    let connector ← record.fieldD? "connector" Connector.and (Json.kind? Connector.ofName?)
    let negated ← record.fieldD? "negated" false Json.bool?
    let predicate ← record.field? "kind" (Predicate.ofJson? query? (Condition.ofJson? query? fuel))
    return ⟨connector, negated, predicate⟩

def Join.ofJson? (query? : Json → Option σ) (condition? : Json → Option (Condition σ)) (json : Json) :
    Option (Join σ) := do
  let record ← json.record? ["kind", "source", "conditions"]
  let kind ← record.field? "kind" (Json.kind? JoinKind.ofName?)
  let source ← record.field? "source" (Source.ofJson? query?)
  let conditions ← record.fieldD? "conditions" [] (Json.list? condition?)
  return ⟨kind, source, conditions⟩

def Clause.ofJson? (query? : Json → Option σ) (condition? : Json → Option (Condition σ))
    (json : Json) : Option (Clause σ) := do
  match ← json.case? with
  | ("Select", contents) => contents.str?.map .select
  | ("Column", contents) => (Column.ofJson? contents).map .column
  | ("RawColumn", contents) => (Fragment.ofJson? contents).map .rawColumn
  | ("AggregateColumn", .obj fields) =>
    let function ← (Json.obj fields).field? "function" (Json.kind? Aggregate.ofName?)
    let name ← (Json.obj fields).field? "column" Json.str?
    let aliasName ← (Json.obj fields).text? "alias"
    return .aggregate function name aliasName
  | ("SubqueryColumn", .obj fields) =>
    let q ← (Json.obj fields).field? "query" query?
    let aliasName ← (Json.obj fields).field? "alias" Json.str?
    return .subqueryColumn q aliasName
  | ("From", contents) => (Source.ofJson? query? contents).map .from
  | ("Join", contents) => (Join.ofJson? query? condition? contents).map .join
  | ("Where", contents) => (condition? contents).map .filter
  | ("GroupBy", contents) => (Term.ofJson? contents).map .groupBy
  | ("Having", contents) => (condition? contents).map .having
  | ("OrderBy", .obj fields) =>
    let term ← (Json.obj fields).field? "expr" Term.ofJson?
    let direction ← (Json.obj fields).fieldD? "direction" Direction.asc (Json.kind? Direction.ofName?)
    return .orderBy term direction
  | ("Limit", contents) => contents.uint64?.map .limit
  | ("Offset", contents) => contents.int64?.map .offset
  | ("Distinct", .null) => some .distinct
  | ("Union", .obj fields) =>
    let operand ← (Json.obj fields).field? "query" query?
    let operator ← (Json.obj fields).field? "kind" (Json.kind? SetOperator.ofName?)
    let all ← (Json.obj fields).fieldD? "all" false Json.bool?
    return .setOperation operand operator all
  | ("Cte", .obj fields) =>
    let name ← (Json.obj fields).field? "name" Json.str?
    let q ← (Json.obj fields).field? "query" query?
    return .cte name q
  | _ => none

/-! ## Queries -/

/-- A query that is nested less than `fuel` deep. -/
def Query.ofJsonWithin? (fuel : Nat) (json : Json) : Option Query :=
  match fuel with
  | 0 => none
  | fuel + 1 =>
    let query? := Query.ofJsonWithin? fuel
    (json.list? (Clause.ofJson? query? (Condition.ofJson? query? fuel))).map Query.mk

/-- The query that JSON stands for. -/
def Query.ofJson? (json : Json) : Option Query :=
  Query.ofJsonWithin? json.depth json

/-- A clause that stands on its own. -/
def Clause.read? (json : Json) : Option (Clause Query) :=
  Clause.ofJson? Query.ofJson? (Condition.ofJson? Query.ofJson? json.depth) json

/-- A source that stands on its own. -/
def Source.read? (json : Json) : Option (Source Query) :=
  Source.ofJson? Query.ofJson? json

end QueryCompiler
