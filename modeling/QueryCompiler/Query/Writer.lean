-- SUMMARY: Queries as JSON.
import QueryCompiler.Json.Basic
import QueryCompiler.Query.Fold
import QueryCompiler.Query.Name

/-!
# Writing queries as JSON

A query is the array of its clauses. A kind with contents is an object whose only
member has the name of the kind, and every field of a record is written, also
those that may be left out.
-/

namespace QueryCompiler

/-- A kind with its contents. -/
def Json.tagged (name : String) (contents : Json) : Json :=
  .obj [(name, contents)]

/-- Text that may be absent. -/
def Json.ofText? (s : Option String) : Json :=
  Json.ofOption Json.str s

def Json.ofInt64 (n : Int64) : Json :=
  .int n.toInt

def Json.ofUInt64 (n : UInt64) : Json :=
  .int n.toNat

/-! ## Values and fragments -/

/-- The kind of a value beside its contents. -/
def Value.tagged (kind : String) (contents : Json) : Json :=
  .obj [("type", .str kind), ("value", contents)]

/-- A number that is not finite has no JSON and is written as `null`. -/
def Value.toJson : Value → Json
  | .null => .obj [("type", .str "Null")]
  | .bool b => Value.tagged "Bool" (.bool b)
  | .int n => Value.tagged "Int" (Json.ofInt64 n)
  | .float x => Value.tagged "Float" (if x.isFinite then .float x else .null)
  | .string s => Value.tagged "String" (.str s)
  | .bytes bs => Value.tagged "Bytes" (.arr (bs.map fun b => .int b.toNat))

def Fragment.toJson (f : Fragment) : Json :=
  .obj [("text", .str f.text), ("bindings", .arr (f.bindings.map Value.toJson))]

def Column.toJson (c : Column) : Json :=
  .obj [("source", Json.ofText? c.source), ("name", .str c.name), ("alias", Json.ofText? c.aliasName)]

def Term.toJson : Term → Json
  | .column name => .tagged "Column" (.str name)
  | .raw fragment => .tagged "Raw" fragment.toJson

/-! ## One level, with nested queries written already -/

def Operand.toJson : Operand Json → Json
  | .value v => .tagged "Value" v.toJson
  | .column name => .tagged "Column" (.str name)
  | .query q => .tagged "Query" q
  | .raw fragment => .tagged "Raw" fragment.toJson

def Source.toJson : Source Json → Json
  | .table name aliasName => .tagged "Table" (.obj [("name", .str name), ("alias", Json.ofText? aliasName)])
  | .subquery q aliasName => .tagged "Subquery" (.obj [("query", q), ("alias", .str aliasName)])
  | .raw fragment => .tagged "Raw" fragment.toJson

mutual

def Condition.toJson : Condition Json → Json
  | ⟨connector, negated, predicate⟩ =>
    .obj [("connector", .str connector.name), ("negated", .bool negated),
      ("kind", Predicate.toJson predicate)]

def Predicate.toJson : Predicate Json (Condition Json) → Json
  | .compare column op operand =>
    .tagged "Compare" (.obj [("column", .str column), ("op", .str op.name), ("operand", operand.toJson)])
  | .inValues column values =>
    .tagged "In" (.obj [("column", .str column), ("values", .arr (values.map Value.toJson))])
  | .inQuery column q => .tagged "InQuery" (.obj [("column", .str column), ("query", q)])
  | .between column low high =>
    .tagged "Between" (.obj [("column", .str column), ("low", low.toJson), ("high", high.toJson)])
  | .isNull column => .tagged "Null" (.obj [("column", .str column)])
  | .like column pattern caseSensitive =>
    .tagged "Like" (.obj [("column", .str column), ("pattern", .str pattern),
      ("case_sensitive", .bool caseSensitive)])
  | .exists q => .tagged "Exists" (.obj [("query", q)])
  | .group members => .tagged "Group" (.arr (Condition.listToJson members))
  | .raw fragment => .tagged "Raw" fragment.toJson

def Condition.listToJson : List (Condition Json) → List Json
  | [] => []
  | condition :: rest => condition.toJson :: Condition.listToJson rest

end

def Join.toJson (j : Join Json) : Json :=
  .obj [("kind", .str j.kind.name), ("source", j.source.toJson),
    ("conditions", .arr (Condition.listToJson j.conditions))]

def Clause.toJson : Clause Json → Json
  | .select spec => .tagged "Select" (.str spec)
  | .column c => .tagged "Column" c.toJson
  | .rawColumn fragment => .tagged "RawColumn" fragment.toJson
  | .aggregate function name aliasName =>
    .tagged "AggregateColumn" (.obj [("function", .str function.name), ("column", .str name),
      ("alias", Json.ofText? aliasName)])
  | .subqueryColumn q aliasName => .tagged "SubqueryColumn" (.obj [("query", q), ("alias", .str aliasName)])
  | .from source => .tagged "From" source.toJson
  | .join j => .tagged "Join" j.toJson
  | .filter condition => .tagged "Where" condition.toJson
  | .groupBy term => .tagged "GroupBy" term.toJson
  | .having condition => .tagged "Having" condition.toJson
  | .orderBy term direction =>
    .tagged "OrderBy" (.obj [("expr", term.toJson), ("direction", .str direction.name)])
  | .limit rows => .tagged "Limit" (Json.ofUInt64 rows)
  | .offset rows => .tagged "Offset" (Json.ofInt64 rows)
  | .distinct => .str "Distinct"
  | .setOperation operand operator all =>
    .tagged "Union" (.obj [("query", operand), ("kind", .str operator.name), ("all", .bool all)])
  | .cte name q => .tagged "Cte" (.obj [("name", .str name), ("query", q)])

/-- A query as JSON. -/
def Query.toJson (q : Query) : Json :=
  q.fold fun clauses => .arr (clauses.map Clause.toJson)

end QueryCompiler
