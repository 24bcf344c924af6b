-- SUMMARY: The raw fragments and the nested queries that a part of a query contains, at one level and at every level.
import QueryCompiler.Proofs.Outcome
import QueryCompiler.Query.Fold
import QueryCompiler.Statement.Sections

/-!
# Contents

What is emitted for a query is made of fixed words, of names, of raw fragments
and of nested queries. `fragments` and `nested` list the last two for each kind
of part. Sorting clauses into sections loses none of them and adds none, so a
property of all fragments and all nested queries of the clauses is one of the
sections. `Query.Everywhere` says a property of the clauses at every level.
-/

namespace QueryCompiler

variable {σ τ : Type}

/-! ## Raw fragments -/

def Operand.fragments : Operand σ → List Fragment
  | .raw fragment => [fragment]
  | _ => []

def Term.fragments : Term → List Fragment
  | .raw fragment => [fragment]
  | .column _ => []

def Source.fragments : Source σ → List Fragment
  | .raw fragment => [fragment]
  | _ => []

mutual

def Condition.fragments : Condition σ → List Fragment
  | ⟨_, _, predicate⟩ => Predicate.fragments predicate

def Predicate.fragments : Predicate σ (Condition σ) → List Fragment
  | .compare _ _ operand => operand.fragments
  | .group members => Condition.fragmentsList members
  | .raw fragment => [fragment]
  | _ => []

def Condition.fragmentsList : List (Condition σ) → List Fragment
  | [] => []
  | condition :: rest => condition.fragments ++ Condition.fragmentsList rest

end

def Join.fragments (j : Join σ) : List Fragment :=
  j.source.fragments ++ Condition.fragmentsList j.conditions

def Selection.fragments : Selection σ → List Fragment
  | .raw fragment => [fragment]
  | _ => []

/-- The fragment that a raw specification stands for. -/
def Specification.fragments (spec : String) : List Fragment :=
  match Specification.afterRawMark? spec.toList with
  | some text => [⟨String.ofList text, []⟩]
  | none => []

/-- The raw fragments of a clause itself, not of the queries nested in it. -/
def Clause.fragments : Clause σ → List Fragment
  | .select spec => Specification.fragments spec
  | .rawColumn fragment => [fragment]
  | .from source => source.fragments
  | .join j => j.fragments
  | .filter condition => condition.fragments
  | .having condition => condition.fragments
  | .groupBy term => term.fragments
  | .orderBy term _ => term.fragments
  | _ => []

/-! ## Nested queries of the other parts -/

def Selection.nested : Selection σ → List σ
  | .subquery q _ => [q]
  | _ => []

/-! ## Contents of a mapped part -/

variable (f : σ → τ)

theorem Operand.nested_map (operand : Operand σ) :
    (operand.map f).nested = operand.nested.map f := by
  cases operand <;> rfl

theorem Operand.fragments_map (operand : Operand σ) :
    (operand.map f).fragments = operand.fragments := by
  cases operand <;> rfl

theorem Source.nested_map (source : Source σ) : (source.map f).nested = source.nested.map f := by
  cases source <;> rfl

theorem Source.fragments_map (source : Source σ) : (source.map f).fragments = source.fragments := by
  cases source <;> rfl

mutual

theorem Condition.nested_map (condition : Condition σ) :
    (condition.map f).nested = condition.nested.map f := by
  obtain ⟨connector, negated, predicate⟩ := condition
  simp only [Condition.map, Condition.nested, Predicate.nested_map predicate]

theorem Predicate.nested_map (predicate : Predicate σ (Condition σ)) :
    Predicate.nested (Predicate.map f predicate) = (Predicate.nested predicate).map f := by
  match predicate with
  | .compare _ _ operand => exact operand.nested_map f
  | .group members => exact Condition.nestedList_mapList members
  | .inValues .. | .inQuery .. | .between .. | .isNull .. | .like .. | .exists .. | .raw .. => rfl

theorem Condition.nestedList_mapList (list : List (Condition σ)) :
    Condition.nestedList (Condition.mapList f list) = (Condition.nestedList list).map f := by
  match list with
  | [] => rfl
  | condition :: rest =>
    simp only [Condition.mapList, Condition.nestedList, Condition.nested_map condition,
      Condition.nestedList_mapList rest, List.map_append]

end

mutual

theorem Condition.fragments_map (condition : Condition σ) :
    (condition.map f).fragments = condition.fragments := by
  obtain ⟨connector, negated, predicate⟩ := condition
  simp only [Condition.map, Condition.fragments, Predicate.fragments_map predicate]

theorem Predicate.fragments_map (predicate : Predicate σ (Condition σ)) :
    Predicate.fragments (Predicate.map f predicate) = Predicate.fragments predicate := by
  match predicate with
  | .compare _ _ operand => exact operand.fragments_map f
  | .group members => exact Condition.fragmentsList_mapList members
  | .inValues .. | .inQuery .. | .between .. | .isNull .. | .like .. | .exists .. | .raw .. => rfl

theorem Condition.fragmentsList_mapList (list : List (Condition σ)) :
    Condition.fragmentsList (Condition.mapList f list) = Condition.fragmentsList list := by
  match list with
  | [] => rfl
  | condition :: rest =>
    simp only [Condition.mapList, Condition.fragmentsList, Condition.fragments_map condition,
      Condition.fragmentsList_mapList rest]

end

theorem Clause.nested_map (clause : Clause σ) : (clause.map f).nested = clause.nested.map f := by
  cases clause with
  | «from» source => exact source.nested_map f
  | join j =>
    simp only [Clause.map, Clause.nested, Join.map, Join.nested, Source.nested_map,
      Condition.nestedList_mapList, List.map_append]
  | filter condition => exact condition.nested_map f
  | having condition => exact condition.nested_map f
  | _ => rfl

theorem Clause.fragments_map (clause : Clause σ) : (clause.map f).fragments = clause.fragments := by
  cases clause with
  | «from» source => exact source.fragments_map f
  | join j =>
    simp only [Clause.map, Clause.fragments, Join.map, Join.fragments, Source.fragments_map,
      Condition.fragmentsList_mapList]
  | filter condition => exact condition.fragments_map f
  | having condition => exact condition.fragments_map f
  | _ => rfl

/-! ## Contents of sections -/

/-- A part holds only nested queries with `G` and only raw fragments with `F`. -/
def Clause.Holds (G : σ → Prop) (F : Fragment → Prop) (clause : Clause σ) : Prop :=
  (∀ q ∈ clause.nested, G q) ∧ ∀ fragment ∈ clause.fragments, F fragment

variable {G : σ → Prop} {F : Fragment → Prop}

namespace Sections

/-- The sections hold only nested queries with `G` and only raw fragments with `F`. -/
structure Holds (G : σ → Prop) (F : Fragment → Prop) (s : Sections σ) : Prop where
  ctes : ∀ cte ∈ s.ctes, G cte.2
  items : ∀ item ∈ s.items, (∀ q ∈ item.nested, G q) ∧ ∀ fragment ∈ item.fragments, F fragment
  source : ∀ source ∈ s.source, (∀ q ∈ source.nested, G q) ∧ ∀ fragment ∈ source.fragments, F fragment
  joins : ∀ j ∈ s.joins, (∀ q ∈ j.nested, G q) ∧ ∀ fragment ∈ j.fragments, F fragment
  filters : ∀ c ∈ s.filters, (∀ q ∈ c.nested, G q) ∧ ∀ fragment ∈ c.fragments, F fragment
  groups : ∀ term ∈ s.groups, ∀ fragment ∈ term.fragments, F fragment
  havings : ∀ c ∈ s.havings, (∀ q ∈ c.nested, G q) ∧ ∀ fragment ∈ c.fragments, F fragment
  orders : ∀ order ∈ s.orders, ∀ fragment ∈ order.1.fragments, F fragment
  arms : ∀ arm ∈ s.arms, G arm.operand

end Sections

theorem Specification.column_of_expandBlock {spec : String} {source body : List Char}
    {items : List Specification.Item} {item : Specification.Item}
    (h : Specification.expandBlock spec source body = .ok items) (hitem : item ∈ items) :
    ∃ c, item = .column c := by
  unfold Specification.expandBlock at h
  dsimp only at h
  split at h
  · cases h
  split at h
  · cases h
  obtain ⟨piece, -, hpiece⟩ := exists_of_mem_mapM h hitem
  unfold Specification.entry at hpiece
  dsimp only at hpiece
  split at hpiece
  · cases hpiece
  · exact ⟨_, (Except.ok.inj hpiece).symm⟩

theorem Specification.column_of_expandTrimmed {spec : String} {cs : List Char}
    {items : List Specification.Item} {item : Specification.Item}
    (h : Specification.expandTrimmed spec cs = .ok items) (hitem : item ∈ items) :
    ∃ c, item = .column c := by
  unfold Specification.expandTrimmed at h
  split at h
  · cases h
  split at h
  · exact column_of_expandBlock h hitem
  · split at h
    · cases h
    · cases h
      exact ⟨_, List.mem_singleton.1 hitem⟩

/-- An expanded specification holds a fragment only when it is raw, and then that one. -/
theorem Specification.fragments_of_expand {spec : String} {items : List Specification.Item}
    {item : Specification.Item} (h : Specification.expand spec = .ok items) (hitem : item ∈ items) :
    (∃ c, item = .column c) ∨ ∃ fragment ∈ Specification.fragments spec, item = .raw fragment := by
  rw [Specification.expand] at h
  rw [Specification.fragments]
  cases htext : Specification.afterRawMark? spec.toList with
  | some text =>
    rw [htext] at h
    cases h
    exact .inr ⟨_, List.mem_singleton_self _, List.mem_singleton.1 hitem⟩
  | none =>
    rw [htext] at h
    exact .inl (column_of_expandTrimmed h hitem)

theorem Selection.holds_ofClause {clause : Clause σ} {items : List (Selection σ)}
    (hclause : clause.Holds G F) (h : Selection.ofClause clause = .ok items) :
    ∀ item ∈ items, (∀ q ∈ item.nested, G q) ∧ ∀ fragment ∈ item.fragments, F fragment := by
  intro item hitem
  cases clause with
  | select spec =>
    obtain ⟨list, hlist, rfl⟩ := map_eq_ok h
    obtain ⟨x, hx, rfl⟩ := List.mem_map.1 hitem
    rcases Specification.fragments_of_expand hlist hx with ⟨c, rfl⟩ | ⟨fragment, hmem, rfl⟩
    · simp [Selection.ofSpecification, Selection.nested, Selection.fragments]
    · simpa [Selection.ofSpecification, Selection.nested, Selection.fragments] using hclause.2 _ hmem
  | column c | rawColumn fragment | aggregate function name aliasName | subqueryColumn q aliasName =>
    cases h
    rw [List.mem_singleton.1 hitem]
    exact hclause
  | _ =>
    cases h
    cases hitem

/-- A clause that a view finds has every property that all clauses have. -/
private theorem of_mem_filterMap {α : Type} {view : Clause σ → Option α} {P : Clause σ → Prop}
    {clauses : Clauses σ} {a : α} (make : α → Clause σ) (h : ∀ c ∈ clauses, P c)
    (ha : a ∈ clauses.filterMap view)
    (hview : ∀ c a, view c = some a → c = make a := by intro c a h; cases c <;> cases h; rfl) :
    P (make a) := by
  obtain ⟨c, hc, hca⟩ := List.mem_filterMap.1 ha
  exact hview c a hca ▸ h c hc

theorem Sections.holds_ofClauses {clauses : Clauses σ} {s : Sections σ}
    (hclauses : ∀ clause ∈ clauses, clause.Holds G F) (h : Sections.ofClauses clauses = .ok s) :
    s.Holds G F := by
  obtain ⟨items, hitems, rfl⟩ := map_eq_ok h
  obtain ⟨lists, hlists, rfl⟩ := map_eq_ok hitems
  constructor
  case ctes =>
    intro cte hcte
    exact (of_mem_filterMap (fun c => .cte c.1 c.2) hclauses hcte).1 _ (List.mem_singleton_self _)
  case items =>
    intro item hitem
    obtain ⟨list, hlist, hitem⟩ := List.mem_flatten.1 hitem
    obtain ⟨clause, hclause, hlist⟩ := exists_of_mem_mapM hlists hlist
    exact Selection.holds_ofClause (hclauses clause hclause) hlist item hitem
  case source =>
    intro source hsource
    exact of_mem_filterMap .from hclauses (List.mem_of_getLast? hsource)
  case joins => exact fun j hj => of_mem_filterMap .join hclauses hj
  case filters => exact fun c hc => of_mem_filterMap .filter hclauses hc
  case groups => exact fun term hterm => (of_mem_filterMap .groupBy hclauses hterm).2
  case havings => exact fun c hc => of_mem_filterMap .having hclauses hc
  case orders =>
    intro order horder
    exact (of_mem_filterMap (fun o => .orderBy o.1 o.2) hclauses horder).2
  case arms =>
    intro arm harm
    exact (of_mem_filterMap (fun a => .setOperation a.operand a.operator a.all) hclauses harm).1 _
      (List.mem_singleton_self _)

/-! ## Every level -/

/-- A property holds of the clauses of a query at every level. -/
inductive Query.Everywhere (P : Clause Query → Prop) : Query → Prop where
  | mk {clauses : List (Clause Query)} (here : ∀ clause ∈ clauses, P clause)
      (below : ∀ clause ∈ clauses, ∀ q ∈ clause.nested, Query.Everywhere P q) :
      Query.Everywhere P ⟨clauses⟩

theorem Query.Everywhere.mono {P P' : Clause Query → Prop} {q : Query}
    (h : q.Everywhere P) (hP : ∀ clause, P clause → P' clause) : q.Everywhere P' := by
  induction h with
  | mk here _ ih => exact .mk (fun clause hclause => hP clause (here clause hclause)) ih

theorem Query.everywhere_of_forall {P : Clause Query → Prop} (h : ∀ clause, P clause) (q : Query) :
    q.Everywhere P :=
  q.induction fun _ ih => .mk (fun clause _ => h clause) ih

end QueryCompiler
