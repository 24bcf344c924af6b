-- SUMMARY: Mapping over the queries nested in a clause, folding whole queries, and induction on queries.
import QueryCompiler.Query.Basic

/-!
# Recursion on queries

`Clause.map` replaces the nested queries of a clause and `Clause.nested` lists
them. `Query.fold` turns a query into a result from the clauses of each level,
in which the nested queries have already been turned into results. Every
recursion on queries is such a fold, and `Query.induction` is the principle that
goes with it.
-/

namespace QueryCompiler

variable {σ τ υ : Type}

/-! ## Mapping -/

def Operand.map (f : σ → τ) : Operand σ → Operand τ
  | .value v => .value v
  | .column name => .column name
  | .query q => .query (f q)
  | .raw fragment => .raw fragment

def Source.map (f : σ → τ) : Source σ → Source τ
  | .table name aliasName => .table name aliasName
  | .subquery q aliasName => .subquery (f q) aliasName
  | .raw fragment => .raw fragment

mutual

def Condition.map (f : σ → τ) : Condition σ → Condition τ
  | ⟨connector, negated, predicate⟩ => ⟨connector, negated, Predicate.map f predicate⟩

def Predicate.map (f : σ → τ) : Predicate σ (Condition σ) → Predicate τ (Condition τ)
  | .compare column op operand => .compare column op (operand.map f)
  | .inValues column values => .inValues column values
  | .inQuery column q => .inQuery column (f q)
  | .between column low high => .between column low high
  | .isNull column => .isNull column
  | .like column pattern caseSensitive => .like column pattern caseSensitive
  | .exists q => .exists (f q)
  | .group members => .group (Condition.mapList f members)
  | .raw fragment => .raw fragment

def Condition.mapList (f : σ → τ) : List (Condition σ) → List (Condition τ)
  | [] => []
  | condition :: rest => condition.map f :: Condition.mapList f rest

end

theorem Condition.mapList_eq_map (f : σ → τ) (list : List (Condition σ)) :
    Condition.mapList f list = list.map (Condition.map f) := by
  induction list with
  | nil => rfl
  | cons condition rest ih => simp [Condition.mapList, ih]

def Join.map (f : σ → τ) (j : Join σ) : Join τ :=
  ⟨j.kind, j.source.map f, Condition.mapList f j.conditions⟩

def Clause.map (f : σ → τ) : Clause σ → Clause τ
  | .select spec => .select spec
  | .column c => .column c
  | .rawColumn fragment => .rawColumn fragment
  | .aggregate function name aliasName => .aggregate function name aliasName
  | .subqueryColumn q aliasName => .subqueryColumn (f q) aliasName
  | .from source => .from (source.map f)
  | .join j => .join (j.map f)
  | .filter condition => .filter (condition.map f)
  | .groupBy term => .groupBy term
  | .having condition => .having (condition.map f)
  | .orderBy term direction => .orderBy term direction
  | .limit rows => .limit rows
  | .offset rows => .offset rows
  | .distinct => .distinct
  | .setOperation operand operator all => .setOperation (f operand) operator all
  | .cte name q => .cte name (f q)

/-! ### Mapping twice -/

theorem Operand.map_map (f : σ → τ) (g : τ → υ) (operand : Operand σ) :
    (operand.map f).map g = operand.map (g ∘ f) := by
  cases operand <;> rfl

theorem Source.map_map (f : σ → τ) (g : τ → υ) (source : Source σ) :
    (source.map f).map g = source.map (g ∘ f) := by
  cases source <;> rfl

mutual

theorem Condition.map_map (f : σ → τ) (g : τ → υ) (condition : Condition σ) :
    (condition.map f).map g = condition.map (g ∘ f) := by
  obtain ⟨connector, negated, predicate⟩ := condition
  simp only [Condition.map, Predicate.map_map f g predicate]

theorem Predicate.map_map (f : σ → τ) (g : τ → υ) (predicate : Predicate σ (Condition σ)) :
    Predicate.map g (Predicate.map f predicate) = Predicate.map (g ∘ f) predicate := by
  match predicate with
  | .compare .. => simp only [Predicate.map, Operand.map_map]
  | .group members => simp only [Predicate.map, Condition.mapList_mapList f g members]
  | .inValues .. | .inQuery .. | .between .. | .isNull .. | .like .. | .exists .. | .raw .. => rfl

theorem Condition.mapList_mapList (f : σ → τ) (g : τ → υ) (list : List (Condition σ)) :
    Condition.mapList g (Condition.mapList f list) = Condition.mapList (g ∘ f) list := by
  match list with
  | [] => rfl
  | condition :: rest =>
    simp only [Condition.mapList, Condition.map_map f g condition, Condition.mapList_mapList f g rest]

end

theorem Clause.map_map (f : σ → τ) (g : τ → υ) (clause : Clause σ) :
    (clause.map f).map g = clause.map (g ∘ f) := by
  cases clause <;>
    simp only [Clause.map, Join.map, Source.map_map, Condition.map_map, Condition.mapList_mapList,
      Function.comp_apply]

/-! ## Nested queries -/

def Operand.nested : Operand σ → List σ
  | .query q => [q]
  | _ => []

def Source.nested : Source σ → List σ
  | .subquery q _ => [q]
  | _ => []

mutual

def Condition.nested : Condition σ → List σ
  | ⟨_, _, predicate⟩ => Predicate.nested predicate

def Predicate.nested : Predicate σ (Condition σ) → List σ
  | .compare _ _ operand => operand.nested
  | .inQuery _ q => [q]
  | .exists q => [q]
  | .group members => Condition.nestedList members
  | _ => []

def Condition.nestedList : List (Condition σ) → List σ
  | [] => []
  | condition :: rest => condition.nested ++ Condition.nestedList rest

end

def Join.nested (j : Join σ) : List σ :=
  j.source.nested ++ Condition.nestedList j.conditions

/-- The queries nested in a clause, in the order of its text. -/
def Clause.nested : Clause σ → List σ
  | .subqueryColumn q _ => [q]
  | .from source => source.nested
  | .join j => j.nested
  | .filter condition => condition.nested
  | .having condition => condition.nested
  | .setOperation operand _ _ => [operand]
  | .cte _ q => [q]
  | _ => []

/-! ## Folding -/

namespace Query

variable {β : Type}

mutual

/-- The result of a query, from the results of the queries nested in it. -/
def fold (f : List (Clause β) → β) : Query → β
  | ⟨clauses⟩ => f (foldClauses f clauses)

def foldClauses (f : List (Clause β) → β) : List (Clause Query) → List (Clause β)
  | [] => []
  | clause :: rest => foldClause f clause :: foldClauses f rest

def foldClause (f : List (Clause β) → β) : Clause Query → Clause β
  | .select spec => .select spec
  | .column c => .column c
  | .rawColumn fragment => .rawColumn fragment
  | .aggregate function name aliasName => .aggregate function name aliasName
  | .subqueryColumn q aliasName => .subqueryColumn (fold f q) aliasName
  | .from source => .from (foldSource f source)
  | .join ⟨kind, source, conditions⟩ => .join ⟨kind, foldSource f source, foldConditions f conditions⟩
  | .filter condition => .filter (foldCondition f condition)
  | .groupBy term => .groupBy term
  | .having condition => .having (foldCondition f condition)
  | .orderBy term direction => .orderBy term direction
  | .limit rows => .limit rows
  | .offset rows => .offset rows
  | .distinct => .distinct
  | .setOperation operand operator all => .setOperation (fold f operand) operator all
  | .cte name q => .cte name (fold f q)

def foldSource (f : List (Clause β) → β) : Source Query → Source β
  | .table name aliasName => .table name aliasName
  | .subquery q aliasName => .subquery (fold f q) aliasName
  | .raw fragment => .raw fragment

def foldConditions (f : List (Clause β) → β) : List (Condition Query) → List (Condition β)
  | [] => []
  | condition :: rest => foldCondition f condition :: foldConditions f rest

def foldCondition (f : List (Clause β) → β) : Condition Query → Condition β
  | ⟨connector, negated, predicate⟩ => ⟨connector, negated, foldPredicate f predicate⟩

def foldPredicate (f : List (Clause β) → β) :
    Predicate Query (Condition Query) → Predicate β (Condition β)
  | .compare column op operand => .compare column op (foldOperand f operand)
  | .inValues column values => .inValues column values
  | .inQuery column q => .inQuery column (fold f q)
  | .between column low high => .between column low high
  | .isNull column => .isNull column
  | .like column pattern caseSensitive => .like column pattern caseSensitive
  | .exists q => .exists (fold f q)
  | .group members => .group (foldConditions f members)
  | .raw fragment => .raw fragment

def foldOperand (f : List (Clause β) → β) : Operand Query → Operand β
  | .value v => .value v
  | .column name => .column name
  | .query q => .query (fold f q)
  | .raw fragment => .raw fragment

end

/-! ## What a fold does at each level -/

variable (f : List (Clause β) → β)

theorem foldOperand_eq_map (operand : Operand Query) :
    foldOperand f operand = operand.map (fold f) := by
  cases operand <;> rfl

theorem foldSource_eq_map (source : Source Query) : foldSource f source = source.map (fold f) := by
  cases source <;> rfl

mutual

theorem foldCondition_eq_map (condition : Condition Query) :
    foldCondition f condition = condition.map (fold f) := by
  obtain ⟨connector, negated, predicate⟩ := condition
  simp only [foldCondition, Condition.map, foldPredicate_eq_map predicate]

theorem foldPredicate_eq_map (predicate : Predicate Query (Condition Query)) :
    foldPredicate f predicate = Predicate.map (fold f) predicate := by
  match predicate with
  | .compare .. => simp only [foldPredicate, Predicate.map, foldOperand_eq_map]
  | .group members => simp only [foldPredicate, Predicate.map, foldConditions_eq_mapList members]
  | .inValues .. | .inQuery .. | .between .. | .isNull .. | .like .. | .exists .. | .raw .. => rfl

theorem foldConditions_eq_mapList (list : List (Condition Query)) :
    foldConditions f list = Condition.mapList (fold f) list := by
  match list with
  | [] => rfl
  | condition :: rest =>
    simp only [foldConditions, Condition.mapList, foldCondition_eq_map condition,
      foldConditions_eq_mapList rest]

end

theorem foldClause_eq_map (clause : Clause Query) : foldClause f clause = clause.map (fold f) := by
  cases clause <;>
    simp only [foldClause, Clause.map, Join.map, foldSource_eq_map, foldCondition_eq_map,
      foldConditions_eq_mapList]

/-- A fold applies its step to the clauses of the query, each with its nested queries folded. -/
theorem fold_mk (clauses : List (Clause Query)) :
    fold f ⟨clauses⟩ = f (clauses.map (Clause.map (fold f))) := by
  have h : ∀ list, foldClauses f list = list.map (Clause.map (fold f)) := by
    intro list
    induction list with
    | nil => rfl
    | cons clause rest ih => simp [foldClauses, foldClause_eq_map, ih]
  rw [fold, h]

/-! ## Induction -/

section

variable {motive : Query → Prop}

mutual

/-- What holds of a query whenever it holds of the queries nested in its clauses holds of every
query. -/
theorem induction
    (step : ∀ clauses : List (Clause Query),
      (∀ clause ∈ clauses, ∀ q ∈ clause.nested, motive q) → motive ⟨clauses⟩)
    (q : Query) : motive q :=
  match q with
  | ⟨clauses⟩ => step clauses (induction_clauses step clauses)

theorem induction_clauses
    (step : ∀ clauses : List (Clause Query),
      (∀ clause ∈ clauses, ∀ q ∈ clause.nested, motive q) → motive ⟨clauses⟩)
    (clauses : List (Clause Query)) : ∀ clause ∈ clauses, ∀ q ∈ clause.nested, motive q :=
  match clauses with
  | [] => by simp
  | clause :: rest => List.forall_mem_cons.2 ⟨induction_clause step clause, induction_clauses step rest⟩

theorem induction_clause
    (step : ∀ clauses : List (Clause Query),
      (∀ clause ∈ clauses, ∀ q ∈ clause.nested, motive q) → motive ⟨clauses⟩)
    (clause : Clause Query) : ∀ q ∈ clause.nested, motive q :=
  match clause with
  | .subqueryColumn q _ => List.forall_mem_singleton.2 (induction step q)
  | .setOperation q _ _ => List.forall_mem_singleton.2 (induction step q)
  | .cte _ q => List.forall_mem_singleton.2 (induction step q)
  | .from source => induction_source step source
  | .join ⟨_, source, conditions⟩ =>
    List.forall_mem_append.2 ⟨induction_source step source, induction_conditions step conditions⟩
  | .filter condition => induction_condition step condition
  | .having condition => induction_condition step condition
  | .select _ | .column _ | .rawColumn _ | .aggregate .. | .groupBy _ | .orderBy .. | .limit _
  | .offset _ | .distinct => by simp [Clause.nested]

theorem induction_source
    (step : ∀ clauses : List (Clause Query),
      (∀ clause ∈ clauses, ∀ q ∈ clause.nested, motive q) → motive ⟨clauses⟩)
    (source : Source Query) : ∀ q ∈ source.nested, motive q :=
  match source with
  | .subquery q _ => List.forall_mem_singleton.2 (induction step q)
  | .table .. | .raw _ => by simp [Source.nested]

theorem induction_conditions
    (step : ∀ clauses : List (Clause Query),
      (∀ clause ∈ clauses, ∀ q ∈ clause.nested, motive q) → motive ⟨clauses⟩)
    (list : List (Condition Query)) : ∀ q ∈ Condition.nestedList list, motive q :=
  match list with
  | [] => by simp [Condition.nestedList]
  | condition :: rest =>
    List.forall_mem_append.2 ⟨induction_condition step condition, induction_conditions step rest⟩

theorem induction_condition
    (step : ∀ clauses : List (Clause Query),
      (∀ clause ∈ clauses, ∀ q ∈ clause.nested, motive q) → motive ⟨clauses⟩)
    (condition : Condition Query) : ∀ q ∈ condition.nested, motive q :=
  match condition with
  | ⟨_, _, predicate⟩ => induction_predicate step predicate

theorem induction_predicate
    (step : ∀ clauses : List (Clause Query),
      (∀ clause ∈ clauses, ∀ q ∈ clause.nested, motive q) → motive ⟨clauses⟩)
    (predicate : Predicate Query (Condition Query)) : ∀ q ∈ Predicate.nested predicate, motive q :=
  match predicate with
  | .compare _ _ operand => induction_operand step operand
  | .inQuery _ q => List.forall_mem_singleton.2 (induction step q)
  | .exists q => List.forall_mem_singleton.2 (induction step q)
  | .group members => induction_conditions step members
  | .inValues .. | .between .. | .isNull _ | .like .. | .raw _ => by simp [Predicate.nested]

theorem induction_operand
    (step : ∀ clauses : List (Clause Query),
      (∀ clause ∈ clauses, ∀ q ∈ clause.nested, motive q) → motive ⟨clauses⟩)
    (operand : Operand Query) : ∀ q ∈ operand.nested, motive q :=
  match operand with
  | .query q => List.forall_mem_singleton.2 (induction step q)
  | .value _ | .column _ | .raw _ => by simp [Operand.nested]

end

end

end Query

end QueryCompiler
