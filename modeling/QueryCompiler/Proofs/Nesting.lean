-- SUMMARY: The queries that are emitted inside a query, properties at every level, and the tokens of a query from its own sections.
import QueryCompiler.Proofs.Emission

/-!
# Nesting

Sorting clauses into sections does not look at the nested queries, so it can be
done before they are turned into anything: `Sections.ofClauses_map`. The sections
of a query thus hold queries, and of these exactly the ones that are emitted, since
a source is left out when another one follows. What is said at each level over the
sections holds of a whole query by `Query.AtEveryLevel`.
-/

namespace QueryCompiler

variable {σ τ υ : Type}

/-! ## Mapped sections -/

def Selection.map (f : σ → τ) : Selection σ → Selection τ
  | .column c => .column c
  | .raw fragment => .raw fragment
  | .aggregate function name aliasName => .aggregate function name aliasName
  | .subquery q aliasName => .subquery (f q) aliasName

theorem Join.conditions_map (f : σ → τ) (j : Join σ) :
    (j.map f).conditions = j.conditions.map (Condition.map f) :=
  Condition.mapList_eq_map f j.conditions

def Arm.map (f : σ → τ) (arm : Arm σ) : Arm τ :=
  ⟨arm.operator, arm.all, f arm.operand⟩

namespace Sections

@[simps]
def map (f : σ → τ) (s : Sections σ) : Sections τ where
  ctes := s.ctes.map (Prod.map id f)
  items := s.items.map (Selection.map f)
  distinct := s.distinct
  source := s.source.map (Source.map f)
  joins := s.joins.map (Join.map f)
  filters := Condition.mapList f s.filters
  groups := s.groups
  havings := Condition.mapList f s.havings
  orders := s.orders
  page := s.page
  arms := s.arms.map (Arm.map f)

/-- The queries nested in the SELECT itself. -/
def selectNested (s : Sections σ) : List σ :=
  s.items.flatMap Selection.nested ++ s.source.toList.flatMap Source.nested ++ s.joins.flatMap Join.nested
    ++ Condition.nestedList s.filters ++ Condition.nestedList s.havings

/-- The nested queries of the sections, in the order of the text. -/
def nested (s : Sections σ) : List σ :=
  s.ctes.map Prod.snd ++ s.selectNested ++ s.arms.map Arm.operand

end Sections

theorem Selection.ofClause_map (f : σ → τ) (clause : Clause σ) :
    Selection.ofClause (clause.map f) = (Selection.ofClause clause).map (List.map (Selection.map f)) := by
  cases clause with
  | select spec =>
    rw [Clause.map, ofClause, ofClause]
    cases Specification.expand spec with
    | error e => rfl
    | ok items =>
      refine congrArg Except.ok ?_
      rw [List.map_map]
      refine List.map_congr_left fun item _ => ?_
      cases item <;> rfl
  | _ => rfl

theorem Selection.ofClauses_map (f : σ → τ) (clauses : Clauses σ) :
    Selection.ofClauses (clauses.map (Clause.map f))
      = (Selection.ofClauses clauses).map (List.map (Selection.map f)) := by
  have hlists : (clauses.map (Clause.map f)).mapM Selection.ofClause
      = (clauses.mapM Selection.ofClause).map (List.map (List.map (Selection.map f))) := by
    induction clauses with
    | nil => rfl
    | cons clause rest ih =>
      rw [List.map_cons, List.mapM_cons, List.mapM_cons, ofClause_map, ih]
      cases Selection.ofClause clause with
      | error e => rfl
      | ok items => cases rest.mapM Selection.ofClause <;> rfl
  rw [ofClauses, ofClauses, hlists]
  cases clauses.mapM Selection.ofClause with
  | error e => rfl
  | ok lists => exact congrArg Except.ok List.map_flatten.symm

/-- What a view finds in mapped clauses is what it finds in the clauses, mapped. -/
private theorem filterMap_map {α β : Type} (view : Clause σ → Option α) {view' : Clause τ → Option β}
    (g : α → β) (f : σ → τ) (clauses : Clauses σ)
    (hview : ∀ clause, view' (clause.map f) = (view clause).map g := by intro clause; cases clause <;> rfl) :
    (clauses.map (Clause.map f)).filterMap view' = (clauses.filterMap view).map g := by
  rw [List.filterMap_map, List.map_filterMap]
  exact List.filterMap_congr fun clause _ => hview clause

private theorem any_map {view : Clause σ → Bool} {view' : Clause τ → Bool} (f : σ → τ) (clauses : Clauses σ)
    (hview : ∀ clause, view' (clause.map f) = view clause := by intro clause; cases clause <;> rfl) :
    (clauses.map (Clause.map f)).any view' = clauses.any view := by
  rw [List.any_map]
  exact congrArg clauses.any (funext hview)

namespace Clauses

variable (f : σ → τ) (clauses : Clauses σ)

theorem page_map : Clauses.page (clauses.map (Clause.map f)) = clauses.page := by
  rw [page, page, limit, limit, offset, offset, filterMap_map Clause.limit? id f,
    filterMap_map Clause.offset? id f, List.map_id, List.map_id]

theorem orders_map : Clauses.orders (clauses.map (Clause.map f)) = clauses.orders := by
  rw [orders, orders, filterMap_map Clause.order? id f, List.map_id]

theorem isDistinct_map : Clauses.isDistinct (clauses.map (Clause.map f)) = clauses.isDistinct :=
  any_map f clauses

theorem hasSetOperations_map :
    Clauses.hasSetOperations (clauses.map (Clause.map f)) = clauses.hasSetOperations :=
  any_map f clauses

theorem hasSetOperations_eq : clauses.hasSetOperations = !(clauses.filterMap Arm.ofClause?).isEmpty := by
  induction clauses with
  | nil => rfl
  | cons clause rest ih =>
    rw [hasSetOperations, List.any_cons, List.filterMap_cons]
    cases clause with
    | setOperation => rfl
    | _ => exact ih

end Clauses

namespace Sections

/-- Sorting does not look at the nested queries. -/
theorem ofClauses_map (f : σ → τ) (clauses : Clauses σ) :
    Sections.ofClauses (clauses.map (Clause.map f)) = (Sections.ofClauses clauses).map (Sections.map f) := by
  rw [ofClauses, ofClauses, Selection.ofClauses_map]
  cases Selection.ofClauses clauses with
  | error e => rfl
  | ok items =>
    refine congrArg Except.ok ?_
    have hsource : Clauses.source (clauses.map (Clause.map f)) = clauses.source.map (Source.map f) := by
      rw [Clauses.source, Clauses.source, filterMap_map Clause.source? (Source.map f) f,
        List.getLast?_map]
    have hfilters : (clauses.map (Clause.map f)).filterMap Clause.filter?
        = Condition.mapList f (clauses.filterMap Clause.filter?) := by
      rw [Condition.mapList_eq_map, filterMap_map Clause.filter? (Condition.map f) f]
    have hhavings : (clauses.map (Clause.map f)).filterMap Clause.having?
        = Condition.mapList f (clauses.filterMap Clause.having?) := by
      rw [Condition.mapList_eq_map, filterMap_map Clause.having? (Condition.map f) f]
    have hgroups :
        (clauses.map (Clause.map f)).filterMap Clause.group? = clauses.filterMap Clause.group? := by
      rw [filterMap_map Clause.group? id f, List.map_id]
    have hctes : (clauses.map (Clause.map f)).filterMap Clause.cte?
        = (clauses.filterMap Clause.cte?).map (Prod.map id f) := filterMap_map _ _ f clauses
    have hjoins : (clauses.map (Clause.map f)).filterMap Clause.join?
        = (clauses.filterMap Clause.join?).map (Join.map f) := filterMap_map _ _ f clauses
    have harms : (clauses.map (Clause.map f)).filterMap Arm.ofClause?
        = (clauses.filterMap Arm.ofClause?).map (Arm.map f) := filterMap_map _ _ f clauses
    simp only [ofItems, map, hctes, hsource, hjoins, hfilters, hgroups, hhavings, harms, Clauses.isDistinct_map,
      Clauses.orders_map, Clauses.page_map]

theorem forall_mem_selectNested {s : Sections σ} {G : σ → Prop} :
    (∀ q ∈ s.selectNested, G q) ↔
      (∀ item ∈ s.items, ∀ q ∈ item.nested, G q) ∧ (∀ source ∈ s.source, ∀ q ∈ source.nested, G q) ∧
        (∀ j ∈ s.joins, ∀ q ∈ j.nested, G q) ∧ (∀ q ∈ Condition.nestedList s.filters, G q) ∧
        ∀ q ∈ Condition.nestedList s.havings, G q := by
  simp only [selectNested, List.forall_mem_append, List.forall_mem_flatMap, Option.mem_toList,
    Option.mem_def, and_assoc]

theorem forall_mem_nested {s : Sections σ} {G : σ → Prop} :
    (∀ q ∈ s.nested, G q) ↔
      (∀ cte ∈ s.ctes, G cte.2) ∧ (∀ q ∈ s.selectNested, G q) ∧ ∀ arm ∈ s.arms, G arm.operand := by
  simp only [nested, List.forall_mem_append, List.forall_mem_map, and_assoc]

theorem nested_map (f : σ → τ) (s : Sections σ) : (s.map f).nested = s.nested.map f := by
  have hitem (item : Selection σ) : (item.map f).nested = item.nested.map f := by
    cases item <;> rfl
  have hjoin (j : Join σ) : (j.map f).nested = j.nested.map f := by
    rw [Join.nested, Join.map, Source.nested_map, Condition.nestedList_mapList, Join.nested,
      List.map_append]
  have hsource : (s.source.map (Source.map f)).toList.flatMap Source.nested
      = (s.source.toList.flatMap Source.nested).map f := by
    cases s.source with
    | none => rfl
    | some source => simp [Source.nested_map]
  have hcte : (fun cte : String × σ => (Prod.map id f cte).2) = fun cte => f cte.2 := rfl
  have harm : (fun arm : Arm σ => (arm.map f).operand) = fun arm => f arm.operand := rfl
  simp only [nested, selectNested, map_ctes, map_items, map_source, map_joins, map_filters, map_havings,
    map_arms,
    Condition.nestedList_mapList, List.flatMap_map, List.map_flatMap, List.map_map, List.map_append,
    Function.comp_def, hitem, hjoin, hsource, hcte, harm]

theorem Holds.nested {G : σ → Prop} {F : Fragment → Prop} {s : Sections σ} (hs : s.Holds G F) :
    ∀ q ∈ s.nested, G q := by
  refine forall_mem_nested.2 ⟨hs.ctes, forall_mem_selectNested.2 ⟨fun item hitem => (hs.items item hitem).1,
    fun source hsource => (hs.source source hsource).1, fun j hj => (hs.joins j hj).1, fun q hq => ?_,
    fun q hq => ?_⟩, hs.arms⟩
  · obtain ⟨c, hc, hq⟩ := Condition.mem_nestedList.1 hq
    exact (hs.filters c hc).1 q hq
  · obtain ⟨c, hc, hq⟩ := Condition.mem_nestedList.1 hq
    exact (hs.havings c hc).1 q hq

/-- Every query in the sections is nested in a clause. -/
theorem mem_nested_of_ofClauses {clauses : Clauses σ} {s : Sections σ}
    (h : Sections.ofClauses clauses = .ok s)
    {q : σ} (hq : q ∈ s.nested) : ∃ clause ∈ clauses, q ∈ clause.nested := by
  have hclauses : ∀ clause ∈ clauses,
      clause.Holds (fun q => ∃ clause ∈ clauses, q ∈ clause.nested) fun _ => True :=
    fun clause hclause => ⟨fun q hq => ⟨clause, hclause, hq⟩, fun _ _ => trivial⟩
  exact (Sections.holds_ofClauses hclauses h).nested q hq

end Sections

/-- The name of a term outside does not depend on what is nested in the select list. -/
theorem Term.output_map (p : Profile) (f : σ → τ) (items : List (Selection σ)) (term : Term) :
    term.output p (items.map (Selection.map f)) = term.output p items := by
  cases term with
  | column name =>
    have hitem : Selection.outputName? p name ∘ Selection.map f = Selection.outputName? p name := by
      funext item
      cases item <;> rfl
    rw [Term.output, Term.output, outputName, outputName, List.findSome?_map, hitem]
  | raw fragment => rfl

/-! ## Queries inside queries -/

namespace Query

/-- The sections of a query. -/
def sections (q : Query) : Except CompileError (Sections Query) :=
  Sections.ofClauses q.clauses

/-- The queries that are emitted directly inside a query. -/
def inside (q : Query) : List Query :=
  match q.sections with
  | .ok s => s.nested
  | .error _ => []

theorem inside_eq {q : Query} {s : Sections Query} (h : q.sections = .ok s) : q.inside = s.nested := by
  rw [inside, h]

/-- A property holds of a query and of every query that is emitted inside it, at any depth. -/
inductive AtEveryLevel (P : Query → Prop) : Query → Prop where
  | mk {q : Query} (here : P q) (below : ∀ inner ∈ q.inside, AtEveryLevel P inner) : AtEveryLevel P q

theorem atEveryLevel_iff {P : Query → Prop} {q : Query} :
    q.AtEveryLevel P ↔ P q ∧ ∀ inner ∈ q.inside, inner.AtEveryLevel P := by
  constructor
  · rintro ⟨here, below⟩
    exact ⟨here, below⟩
  · exact fun h => .mk h.1 h.2

/-- What holds of a query whenever it holds of the queries emitted inside it holds of every query. -/
theorem induction_inside {motive : Query → Prop}
    (step : ∀ q : Query, (∀ inner ∈ q.inside, motive inner) → motive q) (q : Query) : motive q := by
  induction q using Query.induction with
  | step clauses ih =>
    refine step ⟨clauses⟩ fun inner hinner => ?_
    cases hs : Query.sections ⟨clauses⟩ with
    | error e => simp [inside, hs] at hinner
    | ok s =>
      rw [inside_eq hs] at hinner
      obtain ⟨clause, hclause, hinner⟩ := Sections.mem_nested_of_ofClauses hs hinner
      exact ih clause hclause inner hinner

theorem atEveryLevel_of_forall {P : Query → Prop} (h : ∀ q, P q) (q : Query) : q.AtEveryLevel P := by
  induction q using induction_inside with
  | step q ih => exact .mk (h q) ih

theorem AtEveryLevel.mono {P Q : Query → Prop} (hPQ : ∀ q, P q → Q q) {q : Query} (h : q.AtEveryLevel P) :
    q.AtEveryLevel Q := by
  induction h with
  | mk here _ ih => exact .mk (hPQ _ here) ih

/-! ## Emission from sections -/

variable (t : Target) (q : Query)

theorem sections_map {β : Type} (f : Query → β) :
    Sections.ofClauses (q.clauses.map (Clause.map f)) = q.sections.map (Sections.map f) :=
  Sections.ofClauses_map f q.clauses

theorem nested_mk (clauses : Clauses Query) :
    Query.nested t ⟨clauses⟩ = Nested.ofClauses t (clauses.map (Clause.map (Query.nested t))) := by
  rw [Query.nested, Query.fold_mk]
  rfl

/-- The tokens of a query as the outermost one or inside a statement. -/
def tokensAt (outermost : Bool) : Emission :=
  if outermost then q.tokens t else (q.nested t).statement

theorem tokensAt_eq (outermost : Bool) :
    q.tokensAt t outermost = q.sections >>= fun s => sectionTokens t (s.map (Query.nested t)) outermost := by
  cases outermost with
  | true =>
    rw [tokensAt, if_pos rfl, Query.tokens, statementTokens, sections_map]
    cases q.sections <;> rfl
  | false =>
    obtain ⟨clauses⟩ := q
    have hmap := sections_map ⟨clauses⟩ (Query.nested t)
    rw [tokensAt, if_neg Bool.false_ne_true, nested_mk, Nested.ofClauses, statementTokens, hmap]
    cases Query.sections ⟨clauses⟩ <;> rfl

/-- It has to be delimited before it can be an operand of a set operation. -/
def isDelimited : Bool :=
  q.isOrdered || q.isPaged || q.hasSetOperations

theorem isDelimited_nested : (q.nested t).isDelimited = q.isDelimited := by
  obtain ⟨clauses⟩ := q
  rw [nested_mk, Nested.ofClauses, isDelimited, isOrdered, isPaged, hasSetOperations,
    Clauses.isOrdered, Clauses.isOrdered, Clauses.isPaged, Clauses.isPaged, Clauses.orders_map,
    Clauses.page_map, Clauses.hasSetOperations_map]

/-- It is asked of the clauses and not of the sections, with the same answer. -/
theorem isDelimited_eq (items : List (Selection Query)) :
    q.isDelimited
      = ((Sections.ofItems items q.clauses).isDelimited || !(Sections.ofItems items q.clauses).arms.isEmpty) := by
  rw [isDelimited, isOrdered, isPaged, hasSetOperations, Clauses.hasSetOperations_eq]
  rfl

variable {q} {s : Sections Query}

/-- The sections tell what a query is told by its clauses. -/
theorem orders_of_sections (h : q.sections = .ok s) : q.isOrdered = !s.orders.isEmpty := by
  obtain ⟨items, -, rfl⟩ := map_eq_ok h
  rfl

theorem page_of_sections (h : q.sections = .ok s) : s.page = Clauses.page q.clauses := by
  obtain ⟨items, -, rfl⟩ := map_eq_ok h
  rfl

theorem arms_of_sections (h : q.sections = .ok s) : q.hasSetOperations = !s.arms.isEmpty := by
  obtain ⟨items, -, rfl⟩ := map_eq_ok h
  exact Clauses.hasSetOperations_eq _

theorem isDelimited_of_sections (h : q.sections = .ok s) :
    q.isDelimited = (s.isDelimited || !s.arms.isEmpty) := by
  obtain ⟨items, -, rfl⟩ := map_eq_ok h
  exact isDelimited_eq q items

end Query

end QueryCompiler
