-- SUMMARY: When two queries have the same shape, that is differ only in the contents of their values and in the size of their pages.
import Mathlib.Data.List.Forall2
import QueryCompiler.Proofs.Outcome
import QueryCompiler.Query.Fold
import QueryCompiler.Statement.Sections

/-!
# Shapes

Two queries have the same shape when one becomes the other by exchanging values
for values. Lists of values keep their length, a test for equality with null
stays one, and a limit or an offset that is in effect stays in effect. As with
queries themselves, the relation is said for one level over a relation `R` of
nested queries, and `Query.SameShape` ties the knot.
-/

namespace QueryCompiler

variable {σ τ : Type}

/-! ## Parts -/

/-- Values that may stand for each other in a comparison: tests for equality look at whether a value
is null, the others do not. -/
def Comparison.SameShape (op : Comparison) (v v' : Value) : Prop :=
  op = .eq ∨ op = .ne → (v = .null ↔ v' = .null)

/-- The same text, with as many values. -/
structure Fragment.SameShape (f f' : Fragment) : Prop where
  text : f.text = f'.text
  bindings : f.bindings.length = f'.bindings.length

inductive Term.SameShape : Term → Term → Prop where
  | column (name : String) : SameShape (.column name) (.column name)
  | raw {f f' : Fragment} (h : f.SameShape f') : SameShape (.raw f) (.raw f')

/-- Operands that may stand for each other in a comparison. -/
inductive Operand.SameShape (R : σ → σ → Prop) : Operand σ → Operand σ → Comparison → Prop where
  | value {v v' : Value} {op : Comparison} (h : op.SameShape v v') :
      SameShape R (.value v) (.value v') op
  | column (name : String) {op : Comparison} : SameShape R (.column name) (.column name) op
  | query {q q' : σ} {op : Comparison} (h : R q q') : SameShape R (.query q) (.query q') op
  | raw {f f' : Fragment} {op : Comparison} (h : f.SameShape f') : SameShape R (.raw f) (.raw f') op

inductive Source.SameShape (R : σ → σ → Prop) : Source σ → Source σ → Prop where
  | table (name : String) (aliasName : Option String) :
      SameShape R (.table name aliasName) (.table name aliasName)
  | subquery {q q' : σ} (h : R q q') (aliasName : String) :
      SameShape R (.subquery q aliasName) (.subquery q' aliasName)
  | raw {f f' : Fragment} (h : f.SameShape f') : SameShape R (.raw f) (.raw f')

mutual

inductive Condition.SameShape (R : σ → σ → Prop) : Condition σ → Condition σ → Prop where
  | mk {connector : Connector} {negated : Bool} {predicate predicate' : Predicate σ (Condition σ)}
      (h : Predicate.SameShape R predicate predicate') :
      Condition.SameShape R ⟨connector, negated, predicate⟩ ⟨connector, negated, predicate'⟩

inductive Predicate.SameShape (R : σ → σ → Prop) :
    Predicate σ (Condition σ) → Predicate σ (Condition σ) → Prop where
  | compare (column : String) {op : Comparison} {operand operand' : Operand σ}
      (h : Operand.SameShape R operand operand' op) :
      Predicate.SameShape R (.compare column op operand) (.compare column op operand')
  | inValues (column : String) {values values' : List Value} (h : values.length = values'.length) :
      Predicate.SameShape R (.inValues column values) (.inValues column values')
  | inQuery (column : String) {q q' : σ} (h : R q q') :
      Predicate.SameShape R (.inQuery column q) (.inQuery column q')
  | between (column : String) (low high low' high' : Value) :
      Predicate.SameShape R (.between column low high) (.between column low' high')
  | isNull (column : String) : Predicate.SameShape R (.isNull column) (.isNull column)
  | like (column pattern pattern' : String) (caseSensitive : Bool) :
      Predicate.SameShape R (.like column pattern caseSensitive) (.like column pattern' caseSensitive)
  | exists {q q' : σ} (h : R q q') : Predicate.SameShape R (.exists q) (.exists q')
  | group {members members' : List (Condition σ)}
      (h : List.Forall₂ (Condition.SameShape R) members members') :
      Predicate.SameShape R (.group members) (.group members')
  | raw {f f' : Fragment} (h : f.SameShape f') : Predicate.SameShape R (.raw f) (.raw f')

end

inductive Join.SameShape (R : σ → σ → Prop) : Join σ → Join σ → Prop where
  | mk (kind : JoinKind) {source source' : Source σ} {conditions conditions' : List (Condition σ)}
      (hsource : Source.SameShape R source source')
      (hconditions : List.Forall₂ (Condition.SameShape R) conditions conditions') :
      SameShape R ⟨kind, source, conditions⟩ ⟨kind, source', conditions'⟩

/-! ## Clauses and queries -/

inductive Clause.SameShape (R : σ → σ → Prop) : Clause σ → Clause σ → Prop where
  | select (spec : String) : SameShape R (.select spec) (.select spec)
  | column (c : Column) : SameShape R (.column c) (.column c)
  | rawColumn {f f' : Fragment} (h : f.SameShape f') : SameShape R (.rawColumn f) (.rawColumn f')
  | aggregate (function : Aggregate) (name : String) (aliasName : Option String) :
      SameShape R (.aggregate function name aliasName) (.aggregate function name aliasName)
  | subqueryColumn {q q' : σ} (h : R q q') (aliasName : String) :
      SameShape R (.subqueryColumn q aliasName) (.subqueryColumn q' aliasName)
  | from {source source' : Source σ} (h : Source.SameShape R source source') :
      SameShape R (.from source) (.from source')
  | join {j j' : Join σ} (h : Join.SameShape R j j') : SameShape R (.join j) (.join j')
  | filter {c c' : Condition σ} (h : Condition.SameShape R c c') : SameShape R (.filter c) (.filter c')
  | groupBy {term term' : Term} (h : term.SameShape term') : SameShape R (.groupBy term) (.groupBy term')
  | having {c c' : Condition σ} (h : Condition.SameShape R c c') : SameShape R (.having c) (.having c')
  | orderBy {term term' : Term} (h : term.SameShape term') (direction : Direction) :
      SameShape R (.orderBy term direction) (.orderBy term' direction)
  /-- Two limits that are in effect, or the same one. -/
  | limit {n n' : UInt64} (h : n = n' ∨ 0 < n ∧ 0 < n') : SameShape R (.limit n) (.limit n')
  /-- Two offsets that are in effect, or the same one. -/
  | offset {n n' : Int64} (h : n = n' ∨ 0 < n ∧ 0 < n') : SameShape R (.offset n) (.offset n')
  | distinct : SameShape R .distinct .distinct
  | setOperation {q q' : σ} (h : R q q') (operator : SetOperator) (all : Bool) :
      SameShape R (.setOperation q operator all) (.setOperation q' operator all)
  | cte (name : String) {q q' : σ} (h : R q q') : SameShape R (.cte name q) (.cte name q')

/-- Queries that differ, at any depth, only in the contents of their values and in the size of their
pages. -/
inductive Query.SameShape : Query → Query → Prop where
  | mk {clauses clauses' : List (Clause Query)}
      (h : List.Forall₂ (Clause.SameShape Query.SameShape) clauses clauses') :
      SameShape ⟨clauses⟩ ⟨clauses'⟩

/-! ## Shapes of mapped parts -/

section

variable {R : σ → σ → Prop} {S : τ → τ → Prop} {f : σ → τ}

theorem Operand.SameShape.map {op : Comparison} {operand operand' : Operand σ}
    (h : Operand.SameShape R operand operand' op)
    (hf : ∀ q ∈ operand.nested, ∀ q', R q q' → S (f q) (f q')) :
    Operand.SameShape S (operand.map f) (operand'.map f) op := by
  cases h with
  | value h => exact .value h
  | column name => exact .column name
  | query h => exact .query (hf _ (List.mem_singleton_self _) _ h)
  | raw h => exact .raw h

theorem Source.SameShape.map {source source' : Source σ} (h : Source.SameShape R source source')
    (hf : ∀ q ∈ source.nested, ∀ q', R q q' → S (f q) (f q')) :
    Source.SameShape S (source.map f) (source'.map f) := by
  cases h with
  | table name aliasName => exact .table name aliasName
  | subquery h aliasName => exact .subquery (hf _ (List.mem_singleton_self _) _ h) aliasName
  | raw h => exact .raw h

mutual

theorem Condition.SameShape.map {c c' : Condition σ} (h : Condition.SameShape R c c')
    (hf : ∀ q ∈ c.nested, ∀ q', R q q' → S (f q) (f q')) :
    Condition.SameShape S (c.map f) (c'.map f) :=
  match c, c', h with
  | _, _, .mk h => .mk (Predicate.SameShape.map h hf)

theorem Predicate.SameShape.map {predicate predicate' : Predicate σ (Condition σ)}
    (h : Predicate.SameShape R predicate predicate')
    (hf : ∀ q ∈ Predicate.nested predicate, ∀ q', R q q' → S (f q) (f q')) :
    Predicate.SameShape S (Predicate.map f predicate) (Predicate.map f predicate') := by
  match predicate, predicate', h with
  | _, _, .compare column h => exact .compare column (h.map hf)
  | _, _, .inValues column h => exact .inValues column h
  | _, _, .inQuery column h => exact .inQuery column (hf _ (List.mem_singleton_self _) _ h)
  | _, _, .between column low high low' high' => exact .between column low high low' high'
  | _, _, .isNull column => exact .isNull column
  | _, _, .like column pattern pattern' caseSensitive => exact .like column pattern pattern' caseSensitive
  | _, _, .exists h => exact .exists (hf _ (List.mem_singleton_self _) _ h)
  | _, _, .group h => exact .group (Condition.sameShape_mapList h hf)
  | _, _, .raw h => exact .raw h

theorem Condition.sameShape_mapList {list list' : List (Condition σ)}
    (h : List.Forall₂ (Condition.SameShape R) list list')
    (hf : ∀ q ∈ Condition.nestedList list, ∀ q', R q q' → S (f q) (f q')) :
    List.Forall₂ (Condition.SameShape S) (Condition.mapList f list) (Condition.mapList f list') := by
  match list, list', h with
  | _, _, .nil => exact .nil
  | _, _, .cons h hrest =>
    have hf := List.forall_mem_append.1 hf
    exact .cons (Condition.SameShape.map h hf.1) (Condition.sameShape_mapList hrest hf.2)

end

theorem Clause.SameShape.map {c c' : Clause σ} (h : Clause.SameShape R c c')
    (hf : ∀ q ∈ c.nested, ∀ q', R q q' → S (f q) (f q')) : Clause.SameShape S (c.map f) (c'.map f) := by
  cases h with
  | select spec => exact .select spec
  | column c => exact .column c
  | rawColumn h => exact .rawColumn h
  | aggregate function name aliasName => exact .aggregate function name aliasName
  | subqueryColumn h aliasName => exact .subqueryColumn (hf _ (List.mem_singleton_self _) _ h) aliasName
  | «from» h => exact .from (h.map hf)
  | join h =>
    cases h with
    | mk kind hsource hconditions =>
      have hf := List.forall_mem_append.1 hf
      exact .join (.mk kind (hsource.map hf.1) (Condition.sameShape_mapList hconditions hf.2))
  | filter h => exact .filter (h.map hf)
  | groupBy h => exact .groupBy h
  | having h => exact .having (h.map hf)
  | orderBy h direction => exact .orderBy h direction
  | limit h => exact .limit h
  | offset h => exact .offset h
  | distinct => exact .distinct
  | setOperation h operator all => exact .setOperation (hf _ (List.mem_singleton_self _) _ h) operator all
  | cte name h => exact .cte name (hf _ (List.mem_singleton_self _) _ h)

end

/-! ## Sections -/

inductive Selection.SameShape (R : σ → σ → Prop) : Selection σ → Selection σ → Prop where
  | column (c : Column) : SameShape R (.column c) (.column c)
  | raw {f f' : Fragment} (h : f.SameShape f') : SameShape R (.raw f) (.raw f')
  | aggregate (function : Aggregate) (name : String) (aliasName : Option String) :
      SameShape R (.aggregate function name aliasName) (.aggregate function name aliasName)
  | subquery {q q' : σ} (h : R q q') (aliasName : String) :
      SameShape R (.subquery q aliasName) (.subquery q' aliasName)

/-- Pages that are cut out by the same construct. -/
structure Page.SameShape (page page' : Page) : Prop where
  limit : page.limit.isSome = page'.limit.isSome
  offset : page.offset.isSome = page'.offset.isSome

theorem Page.SameShape.isPartial_eq {page page' : Page} (h : page.SameShape page') :
    page.isPartial = page'.isPartial := by
  rw [isPartial, isPartial, h.limit, h.offset]

inductive Arm.SameShape (R : σ → σ → Prop) : Arm σ → Arm σ → Prop where
  | mk (operator : SetOperator) (all : Bool) {q q' : σ} (h : R q q') :
      SameShape R ⟨operator, all, q⟩ ⟨operator, all, q'⟩

structure Sections.SameShape (R : σ → σ → Prop) (s s' : Sections σ) : Prop where
  ctes : List.Forall₂ (fun c c' => c.1 = c'.1 ∧ R c.2 c'.2) s.ctes s'.ctes
  items : List.Forall₂ (Selection.SameShape R) s.items s'.items
  distinct : s.distinct = s'.distinct
  source : Option.Rel (Source.SameShape R) s.source s'.source
  joins : List.Forall₂ (Join.SameShape R) s.joins s'.joins
  filters : List.Forall₂ (Condition.SameShape R) s.filters s'.filters
  groups : List.Forall₂ Term.SameShape s.groups s'.groups
  havings : List.Forall₂ (Condition.SameShape R) s.havings s'.havings
  orders : List.Forall₂ (fun o o' => o.1.SameShape o'.1 ∧ o.2 = o'.2) s.orders s'.orders
  page : s.page.SameShape s'.page
  arms : List.Forall₂ (Arm.SameShape R) s.arms s'.arms

section

variable {R : σ → σ → Prop} {clauses clauses' : Clauses σ}

private theorem rel_getLast? {α : Type} {T : α → α → Prop} {xs ys : List α} (h : List.Forall₂ T xs ys) :
    Option.Rel T xs.getLast? ys.getLast? := by
  induction h with
  | nil => exact .none
  | cons hxy hrest ih =>
    cases hrest with
    | nil => exact .some hxy
    | cons hnext hrest => exact ih

private theorem any_eq_any {α : Type} {T : α → α → Prop} {p : α → Bool} {xs ys : List α}
    (hp : ∀ x y, T x y → p x = p y) (h : List.Forall₂ T xs ys) : xs.any p = ys.any p := by
  induction h with
  | nil => rfl
  | cons hxy _ ih => rw [List.any_cons, List.any_cons, hp _ _ hxy, ih]

theorem isEmpty_eq_isEmpty {α : Type} {T : α → α → Prop} {xs ys : List α}
    (h : List.Forall₂ T xs ys) : xs.isEmpty = ys.isEmpty := by
  cases h with
  | nil => rfl
  | cons => rfl

namespace Clauses

theorem isSome_limit (h : List.Forall₂ (Clause.SameShape R) clauses clauses') :
    clauses.limit.isSome = clauses'.limit.isSome := by
  have hlimits : List.Forall₂ (fun n n' : UInt64 => n = n' ∨ 0 < n ∧ 0 < n')
      (clauses.filterMap Clause.limit?) (clauses'.filterMap Clause.limit?) := by
    refine List.rel_filterMap (fun c c' hc => ?_) h
    cases hc with
    | limit hn => exact .some hn
    | _ => exact .none
  have hlast := rel_getLast? hlimits
  unfold Clauses.limit
  generalize (clauses.filterMap Clause.limit?).getLast? = last at hlast ⊢
  generalize (clauses'.filterMap Clause.limit?).getLast? = last' at hlast ⊢
  cases hlast with
  | none => rfl
  | @some n n' hn =>
    rcases hn with rfl | ⟨hn, hn'⟩
    · rfl
    · have hpos : n.toNat ≠ 0 := Nat.ne_of_gt (UInt64.lt_iff_toNat_lt.1 hn)
      have hpos' : n'.toNat ≠ 0 := Nat.ne_of_gt (UInt64.lt_iff_toNat_lt.1 hn')
      simp only [hpos, hpos', if_false, Option.isSome_some]

theorem isSome_offset (h : List.Forall₂ (Clause.SameShape R) clauses clauses') :
    clauses.offset.isSome = clauses'.offset.isSome := by
  have hoffsets : List.Forall₂ (fun n n' : Int64 => n = n' ∨ 0 < n ∧ 0 < n')
      (clauses.filterMap Clause.offset?) (clauses'.filterMap Clause.offset?) := by
    refine List.rel_filterMap (fun c c' hc => ?_) h
    cases hc with
    | offset hn => exact .some hn
    | _ => exact .none
  have hlast := rel_getLast? hoffsets
  unfold Clauses.offset
  generalize (clauses.filterMap Clause.offset?).getLast? = last at hlast ⊢
  generalize (clauses'.filterMap Clause.offset?).getLast? = last' at hlast ⊢
  cases hlast with
  | none => rfl
  | @some n n' hn =>
    rcases hn with rfl | ⟨hn, hn'⟩
    · rfl
    · have hpos : ¬ n.toInt ≤ 0 := Int.not_le.2 (Int64.lt_iff_toInt_lt.1 hn)
      have hpos' : ¬ n'.toInt ≤ 0 := Int.not_le.2 (Int64.lt_iff_toInt_lt.1 hn')
      simp only [hpos, hpos', if_false, Option.isSome_some]

theorem sameShape_page (h : List.Forall₂ (Clause.SameShape R) clauses clauses') :
    clauses.page.SameShape clauses'.page :=
  ⟨isSome_limit h, isSome_offset h⟩

theorem sameShape_orders (h : List.Forall₂ (Clause.SameShape R) clauses clauses') :
    List.Forall₂ (fun o o' => o.1.SameShape o'.1 ∧ o.2 = o'.2) clauses.orders clauses'.orders := by
  refine List.rel_filterMap (fun c c' hc => ?_) h
  cases hc with
  | orderBy hterm direction => exact .some ⟨hterm, rfl⟩
  | _ => exact .none

end Clauses

theorem Selection.sameShape_ofClause {c c' : Clause σ} (h : Clause.SameShape R c c') :
    Agree (List.Forall₂ (Selection.SameShape R)) (Selection.ofClause c) (Selection.ofClause c') := by
  cases h with
  | select spec =>
    refine Agree.map (Agree.of_eq (R := Eq) (fun _ => rfl) (Specification.expand spec)) ?_
    rintro items _ rfl
    refine List.forall₂_map_left_iff.2 (List.forall₂_map_right_iff.2 (List.forall₂_same.2 ?_))
    intro item _
    cases item with
    | column c => exact .column c
    | raw fragment => exact .raw ⟨rfl, rfl⟩
  | column c => exact .ok (.cons (.column c) .nil)
  | rawColumn h => exact .ok (.cons (.raw h) .nil)
  | aggregate function name aliasName => exact .ok (.cons (.aggregate function name aliasName) .nil)
  | subqueryColumn h aliasName => exact .ok (.cons (.subquery h aliasName) .nil)
  | _ => exact .ok .nil

theorem Selection.sameShape_ofClauses (h : List.Forall₂ (Clause.SameShape R) clauses clauses') :
    Agree (List.Forall₂ (Selection.SameShape R)) (Selection.ofClauses clauses)
      (Selection.ofClauses clauses') := by
  refine Agree.map (Agree.mapM (h.imp fun c c' hc => Selection.sameShape_ofClause hc)) ?_
  intro items items' hitems
  exact List.rel_flatten hitems

theorem Sections.sameShape_ofClauses (h : List.Forall₂ (Clause.SameShape R) clauses clauses') :
    Agree (Sections.SameShape R) (Sections.ofClauses clauses) (Sections.ofClauses clauses') := by
  apply Agree.map (Selection.sameShape_ofClauses h)
  intro items items' hitems
  have hview : ∀ {α : Type} {T : α → α → Prop} {view : Clause σ → Option α},
      (∀ c c', Clause.SameShape R c c' → Option.Rel T (view c) (view c')) →
      List.Forall₂ T (clauses.filterMap view) (clauses'.filterMap view) :=
    fun hview => List.rel_filterMap hview h
  constructor
  case ctes =>
    apply hview
    intro c c' hc
    cases hc with
    | cte name hq => exact .some ⟨rfl, hq⟩
    | _ => exact .none
  case items => exact hitems
  case distinct =>
    refine any_eq_any (fun c c' hc => ?_) h
    cases hc <;> rfl
  case source =>
    refine rel_getLast? (hview fun c c' hc => ?_)
    cases hc with
    | «from» hsource => exact .some hsource
    | _ => exact .none
  case joins =>
    apply hview
    intro c c' hc
    cases hc with
    | join hj => exact .some hj
    | _ => exact .none
  case filters =>
    apply hview
    intro c c' hc
    cases hc with
    | filter hcondition => exact .some hcondition
    | _ => exact .none
  case groups =>
    apply hview
    intro c c' hc
    cases hc with
    | groupBy hterm => exact .some hterm
    | _ => exact .none
  case havings =>
    apply hview
    intro c c' hc
    cases hc with
    | having hcondition => exact .some hcondition
    | _ => exact .none
  case orders => exact Clauses.sameShape_orders h
  case page => exact Clauses.sameShape_page h
  case arms =>
    apply hview
    intro c c' hc
    cases hc with
    | setOperation hq operator all => exact .some (.mk operator all hq)
    | _ => exact .none

/-- Whether a statement has to be delimited is a matter of its shape. -/
theorem Clauses.isDelimited_eq (h : List.Forall₂ (Clause.SameShape R) clauses clauses') :
    (clauses.isOrdered || clauses.isPaged || clauses.hasSetOperations)
      = (clauses'.isOrdered || clauses'.isPaged || clauses'.hasSetOperations) := by
  have hordered : clauses.isOrdered = clauses'.isOrdered := by
    rw [isOrdered, isOrdered, isEmpty_eq_isEmpty (sameShape_orders h)]
  have hpaged : clauses.isPaged = clauses'.isPaged := by
    rw [isPaged, isPaged, (sameShape_page h).isPartial_eq]
  have hoperations : clauses.hasSetOperations = clauses'.hasSetOperations := by
    refine any_eq_any (fun c c' hc => ?_) h
    cases hc <;> rfl
  rw [hordered, hpaged, hoperations]

theorem Sections.SameShape.isDelimited_eq {s s' : Sections σ} (h : Sections.SameShape R s s') :
    s.isDelimited = s'.isDelimited := by
  rw [isDelimited, isDelimited, isEmpty_eq_isEmpty h.orders, h.page.isPartial_eq]

end

end QueryCompiler
