-- SUMMARY: The names of the kinds that occur in queries, as they stand in JSON.
import QueryCompiler.Query.Basic

/-!
# Names of kinds

Every kind without contents is written as its name and read back by it. Names
are case-sensitive.
-/

namespace QueryCompiler

def Aggregate.name : Aggregate → String
  | .count => "count"
  | .sum => "sum"
  | .avg => "avg"
  | .min => "min"
  | .max => "max"

def Aggregate.ofName? : String → Option Aggregate
  | "count" => some .count
  | "sum" => some .sum
  | "avg" => some .avg
  | "min" => some .min
  | "max" => some .max
  | _ => none

def JoinKind.name : JoinKind → String
  | .inner => "Inner"
  | .left => "Left"
  | .right => "Right"
  | .full => "Full"
  | .cross => "Cross"

def JoinKind.ofName? : String → Option JoinKind
  | "Inner" => some .inner
  | "Left" => some .left
  | "Right" => some .right
  | "Full" => some .full
  | "Cross" => some .cross
  | _ => none

def Connector.name : Connector → String
  | .and => "And"
  | .or => "Or"

def Connector.ofName? : String → Option Connector
  | "And" => some .and
  | "Or" => some .or
  | _ => none

def Comparison.name : Comparison → String
  | .eq => "Eq"
  | .ne => "NotEq"
  | .lt => "Lt"
  | .le => "Lte"
  | .gt => "Gt"
  | .ge => "Gte"

def Comparison.ofName? : String → Option Comparison
  | "Eq" => some .eq
  | "NotEq" => some .ne
  | "Lt" => some .lt
  | "Lte" => some .le
  | "Gt" => some .gt
  | "Gte" => some .ge
  | _ => none

def Direction.name : Direction → String
  | .asc => "Asc"
  | .desc => "Desc"

def Direction.ofName? : String → Option Direction
  | "Asc" => some .asc
  | "Desc" => some .desc
  | _ => none

def SetOperator.name : SetOperator → String
  | .union => "Union"
  | .intersect => "Intersect"
  | .except => "Except"

def SetOperator.ofName? : String → Option SetOperator
  | "Union" => some .union
  | "Intersect" => some .intersect
  | "Except" => some .except
  | _ => none

/-! ## Reading back -/

@[simp] theorem Aggregate.ofName?_name (a : Aggregate) : ofName? a.name = some a := by
  cases a <;> rfl

@[simp] theorem JoinKind.ofName?_name (k : JoinKind) : ofName? k.name = some k := by
  cases k <;> rfl

@[simp] theorem Connector.ofName?_name (c : Connector) : ofName? c.name = some c := by
  cases c <;> rfl

@[simp] theorem Comparison.ofName?_name (c : Comparison) : ofName? c.name = some c := by
  cases c <;> rfl

@[simp] theorem Direction.ofName?_name (d : Direction) : ofName? d.name = some d := by
  cases d <;> rfl

@[simp] theorem SetOperator.ofName?_name (o : SetOperator) : ofName? o.name = some o := by
  cases o <;> rfl

end QueryCompiler
