-- SUMMARY: The queries that compile, told by their clauses: exactly the valid ones that bind no more values than they may.
import QueryCompiler.Proofs.Occurrence
import QueryCompiler.Proofs.Quoting
import QueryCompiler.Proofs.Values

/-!
# Validity

What a query has to be like in order to be compiled is told here without any
token. Each level has its own conditions, on the names it uses, on its fragments and
on what the dialect supports; no condition goes across levels but one, that an
operand is not delimited where no parentheses may stand around it. One lemma for each
emitter says that it succeeds exactly when its part is valid and all that is nested in
it is emitted.
-/

namespace QueryCompiler

variable {σ : Type}

/-! ## Valid parts -/

/-- A name that is not blank. -/
def IsName (name : String) : Prop :=
  Text.isVoid name = false

theorem isName_iff {name : String} : IsName name ↔ Text.trim name.toList ≠ [] := by
  rw [ne_eq, Text.trim_eq_nil_iff, IsName, Text.isVoid, ← Bool.not_eq_true, List.all_eq_true]

/-- A fragment with one binding for each marker. -/
def Fragment.IsValid (fragment : Fragment) : Prop :=
  fragment.markerCount = fragment.bindings.length

def Operand.IsValid : Operand σ → Prop
  | .column name => IsName name
  | .raw fragment => fragment.IsValid
  | .value _ | .query _ => True

mutual

def Condition.IsValid : Condition σ → Prop
  | ⟨_, _, predicate⟩ => Predicate.IsValid predicate

def Predicate.IsValid : Predicate σ (Condition σ) → Prop
  | .compare column _ operand => IsName column ∧ operand.IsValid
  | .inValues column _ | .inQuery column _ | .between column _ _ | .isNull column | .like column _ _ =>
    IsName column
  | .exists _ => True
  | .group members => Condition.AllValid members
  | .raw fragment => fragment.IsValid

def Condition.AllValid : List (Condition σ) → Prop
  | [] => True
  | condition :: rest => condition.IsValid ∧ Condition.AllValid rest

end

def Term.IsValid : Term → Prop
  | .column name => IsName name
  | .raw fragment => fragment.IsValid

def Selection.IsValid : Selection σ → Prop
  | .column c => IsName c.name
  | .raw fragment => fragment.IsValid
  | .aggregate _ name _ => IsName name
  | .subquery _ aliasName => IsName aliasName

def Source.IsValid : Source σ → Prop
  | .table name _ => IsName name
  | .subquery _ aliasName => IsName aliasName
  | .raw fragment => fragment.IsValid

/-- Whether the dialect has a kind of join. -/
def JoinKind.isSupported (p : Profile) : JoinKind → Bool
  | .full => p.hasFullJoin
  | .right => p.hasRightJoin
  | .inner | .left | .cross => true

/-- A join with the conditions that its kind asks for: none for a cross join, for every other join at
least one that is no empty group. -/
structure Join.IsValid (p : Profile) (j : Join σ) : Prop where
  kind : j.kind.isSupported p = true
  source : j.source.IsValid
  cross : j.kind = .cross → j.conditions = []
  joined : j.kind ≠ .cross → ∃ c ∈ j.conditions, c.isVacuous = false
  conditions : Condition.AllValid j.conditions

/-- Whether the dialect has a set operator. -/
def SetOperator.isSupported (p : Profile) : SetOperator → Bool
  | .union => true
  | .intersect => p.hasIntersect
  | .except => p.hasExcept

/-! ## Valid queries -/

/-- A term of the order as it is emitted: around distinct rows that are numbered, under the name that
it has outside. -/
def Sections.orderTerm (p : Profile) (s : Sections σ) (term : Term) : Term :=
  if s.distinct && (Plan.ofPage p.paging s.page).isRowNumber then term.output p s.items else term

/-- The parts of a SELECT other than its order are valid. -/
structure Sections.IsSelectable (p : Profile) (s : Sections σ) : Prop where
  items : ∀ item ∈ s.items, item.IsValid
  source : ∃ source ∈ s.source, source.IsValid
  joins : ∀ j ∈ s.joins, j.IsValid p
  filters : Condition.AllValid s.filters
  groups : ∀ term ∈ s.groups, term.IsValid
  havings : Condition.AllValid s.havings

/-- The sections of a level may be emitted. `isDelimited` tells of a nested query whether it has to be
delimited as an operand. -/
structure Sections.IsValid (p : Profile) (isDelimited : σ → Bool) (s : Sections σ) : Prop
    extends s.IsSelectable p where
  ctes : ∀ cte ∈ s.ctes, IsName cte.1
  orders : ∀ order ∈ s.orders, (s.orderTerm p order.1).IsValid
  operators : ∀ arm ∈ s.arms, arm.operator.isSupported p = true
  head : s.arms ≠ [] → s.isDelimited = true → p.hasOperandParens = true
  operands : ∀ arm ∈ s.arms, isDelimited arm.operand = true → p.hasOperandParens = true

/-- The clauses of a level are valid: its column specifications can be expanded, and the sections that
they are sorted into may be emitted. -/
structure Query.IsValidHere (p : Profile) (q : Query) : Prop where
  specifications : ∀ spec, Clause.select spec ∈ q.clauses → Succeeds (Specification.expand spec)
  sections : ∀ s, q.sections = .ok s → s.IsValid p Query.isDelimited

/-- A query is valid at every level. -/
def Query.IsValid (p : Profile) (q : Query) : Prop :=
  q.AtEveryLevel (Query.IsValidHere p)

/-! ## Emitters of names, fragments and conditions -/

section

variable {p : Profile} {f : σ → Nested}

theorem succeeds_checkName (place : NamePlace) {name : String} :
    Succeeds (checkName place name) ↔ IsName name := by
  unfold checkName IsName
  cases Text.isVoid name with
  | true => exact iff_of_false Succeeds.error (by simp)
  | false => exact iff_of_true (Succeeds.ok ()) rfl

theorem succeeds_checkedReference (p : Profile) (place : NamePlace) {name : String} :
    Succeeds (p.checkedReference place name : Emission) ↔ IsName name :=
  Succeeds.bind_ok_iff.trans (succeeds_checkName place)

theorem Fragment.succeeds_tokens {fragment : Fragment} : Succeeds fragment.tokens ↔ fragment.IsValid := by
  unfold tokens IsValid
  split
  next h => exact iff_of_true (Succeeds.ok _) h
  next h => exact iff_of_false Succeeds.error h

theorem Nested.succeeds_tokens {n : Nested} : Succeeds n.tokens ↔ Succeeds n.statement :=
  Succeeds.map_iff

theorem Operand.succeeds_tokens {operand : Operand σ} :
    Succeeds ((operand.map f).tokens p) ↔ operand.IsValid ∧ ∀ q ∈ operand.nested, Succeeds (f q).statement := by
  cases operand with
  | value v => exact iff_of_true (Succeeds.ok _) (by simp [IsValid, nested])
  | column name => exact (succeeds_checkedReference p _).trans (by simp [IsValid, nested])
  | query q => exact Nested.succeeds_tokens.trans (by simp [IsValid, nested])
  | raw fragment => exact Fragment.succeeds_tokens.trans (by simp [IsValid, nested])

theorem succeeds_comparison {negated : Bool} {column : String} {op : Comparison} {operand : Operand σ} :
    Succeeds (comparison p negated column op (operand.map f)) ↔
      (IsName column ∧ operand.IsValid) ∧ ∀ q ∈ operand.nested, Succeeds (f q).statement := by
  rw [and_assoc, ← succeeds_checkedReference p .condition]
  refine Succeeds.bind_iff fun subject _ => ?_
  rw [Comparison.nullTest?_map]
  cases htest : op.nullTest? operand with
  | some isNull =>
    refine iff_of_true (Succeeds.ok _) ?_
    unfold Comparison.nullTest? at htest
    split at htest <;> cases htest <;> simp [Operand.IsValid, Operand.nested]
  | none => exact Succeeds.bind_ok_iff.trans Operand.succeeds_tokens

theorem succeeds_membership {negated : Bool} {column : String} {values : List Value} :
    Succeeds (membership p negated column values) ↔ IsName column := by
  refine Iff.trans (Succeeds.bind_iff (P := True) fun subject _ => ?_)
    ((and_iff_left trivial).trans (succeeds_checkedReference p _))
  split <;> exact iff_true_intro (Succeeds.ok _)

theorem succeeds_patternMatch {negated : Bool} {column pattern : String} {caseSensitive : Bool} :
    Succeeds (patternMatch p negated column pattern caseSensitive) ↔ IsName column :=
  Succeeds.bind_ok_iff.trans (succeeds_checkedReference p _)

mutual

/-- A group of empty groups is valid. -/
theorem Condition.isValid_of_isVacuous {condition : Condition σ} (h : condition.isVacuous = true) :
    condition.IsValid :=
  match condition with
  | ⟨_, _, _⟩ => Predicate.isValid_of_isVacuous h

theorem Predicate.isValid_of_isVacuous {predicate : Predicate σ (Condition σ)}
    (h : Predicate.isVacuous predicate = true) : Predicate.IsValid predicate := by
  match predicate with
  | .group members => exact Condition.allValid_of_allVacuous h
  | .compare .. | .inValues .. | .inQuery .. | .between .. | .isNull .. | .like .. | .exists .. | .raw .. =>
    cases h

theorem Condition.allValid_of_allVacuous {list : List (Condition σ)}
    (h : Condition.allVacuous list = true) :
    Condition.AllValid list := by
  match list with
  | [] => trivial
  | condition :: rest =>
    rw [Condition.allVacuous, Bool.and_eq_true] at h
    exact ⟨Condition.isValid_of_isVacuous h.1, Condition.allValid_of_allVacuous h.2⟩

end

mutual

theorem Condition.succeeds_tokens {condition : Condition σ} :
    Succeeds ((condition.map f).tokens p) ↔
      condition.IsValid ∧ ∀ q ∈ condition.nested, Succeeds (f q).statement :=
  match condition with
  | ⟨_, _, _⟩ => Predicate.succeeds_tokens

theorem Predicate.succeeds_tokens {negated : Bool} {predicate : Predicate σ (Condition σ)} :
    Succeeds (Predicate.tokens p negated (Predicate.map f predicate)) ↔
      Predicate.IsValid predicate ∧ ∀ q ∈ Predicate.nested predicate, Succeeds (f q).statement := by
  match predicate with
  | .compare column op operand => exact succeeds_comparison
  | .inValues column values => exact succeeds_membership.trans (by simp [Predicate.IsValid, Predicate.nested])
  | .inQuery column q =>
    rw [Predicate.IsValid, Predicate.nested, List.forall_mem_singleton,
      ← succeeds_checkedReference p .condition]
    exact Succeeds.bind_iff fun subject _ => Succeeds.bind_ok_iff.trans Nested.succeeds_tokens
  | .between column low high =>
    exact (Succeeds.bind_ok_iff.trans (succeeds_checkedReference p _)).trans
      (by simp [Predicate.IsValid, Predicate.nested])
  | .isNull column =>
    exact (Succeeds.bind_ok_iff.trans (succeeds_checkedReference p _)).trans
      (by simp [Predicate.IsValid, Predicate.nested])
  | .like column pattern caseSensitive =>
    exact succeeds_patternMatch.trans (by simp [Predicate.IsValid, Predicate.nested])
  | .exists q =>
    exact (Succeeds.bind_ok_iff.trans Nested.succeeds_tokens).trans
      (by simp [Predicate.IsValid, Predicate.nested])
  | .group members => exact Succeeds.bind_ok_iff.trans Condition.succeeds_tokensEach
  | .raw fragment =>
    exact (Succeeds.bind_ok_iff.trans Fragment.succeeds_tokens).trans
      (by simp [Predicate.IsValid, Predicate.nested])

theorem Condition.succeeds_tokensEach {list : List (Condition σ)} :
    Succeeds (Condition.tokensEach p (Condition.mapList f list)) ↔
      Condition.AllValid list ∧ ∀ q ∈ Condition.nestedList list, Succeeds (f q).statement := by
  match list with
  | [] => exact iff_of_true (Succeeds.ok _) ⟨trivial, by simp [Condition.nestedList]⟩
  | condition :: rest =>
    rw [Condition.mapList, Condition.tokensEach, Condition.isVacuous_map, Condition.AllValid,
      Condition.nestedList,
      List.forall_mem_append, and_and_and_comm, ← Condition.succeeds_tokensEach, ← Condition.succeeds_tokens]
    split
    next hv =>
      refine (and_iff_right ?_).symm
      rw [Condition.succeeds_tokens, Condition.nested_of_isVacuous hv]
      exact ⟨Condition.isValid_of_isVacuous hv, by simp⟩
    next => exact Succeeds.bind_iff fun tokens _ => Succeeds.bind_ok_iff

end

theorem Condition.succeeds_listTokens {list : List (Condition σ)} :
    Succeeds (Condition.listTokens p (Condition.mapList f list)) ↔
      Condition.AllValid list ∧ ∀ q ∈ Condition.nestedList list, Succeeds (f q).statement :=
  Succeeds.map_iff.trans Condition.succeeds_tokensEach

/-! ## Emitters of terms, entries, sources and joins -/

theorem Term.succeeds_tokens {place : NamePlace} {term : Term} :
    Succeeds (term.tokens p place) ↔ term.IsValid := by
  cases term with
  | column name => exact succeeds_checkedReference p _
  | raw fragment => exact Fragment.succeeds_tokens

theorem succeeds_orderingTokens {orders : List (Term × Direction)} :
    Succeeds (orderingTokens p orders) ↔ ∀ order ∈ orders, order.1.IsValid := by
  refine (Succeeds.map_iff.trans Succeeds.mapM_iff).trans (forall₂_congr fun order _ => ?_)
  exact Succeeds.bind_ok_iff.trans Term.succeeds_tokens

theorem succeeds_groupingTokens {groups : List Term} :
    Succeeds (groupingTokens p groups) ↔ ∀ term ∈ groups, term.IsValid :=
  (Succeeds.map_iff.trans Succeeds.mapM_iff).trans (forall₂_congr fun _ _ => Term.succeeds_tokens)

theorem Selection.succeeds_tokens {item : Selection σ} :
    Succeeds ((item.map f).tokens p) ↔ item.IsValid ∧ ∀ q ∈ item.nested, Succeeds (f q).statement := by
  cases item with
  | column c => exact (Succeeds.bind_ok_iff.trans (succeeds_checkName _)).trans (by simp [IsValid, nested])
  | raw fragment => exact Fragment.succeeds_tokens.trans (by simp [IsValid, nested])
  | aggregate function name aliasName =>
    exact (Succeeds.bind_ok_iff.trans (succeeds_checkedReference p _)).trans (by simp [IsValid, nested])
  | subquery q aliasName =>
    rw [IsValid, nested, List.forall_mem_singleton, ← succeeds_checkName .subqueryColumn]
    exact Succeeds.bind_iff fun _ _ => Succeeds.bind_ok_iff.trans Nested.succeeds_tokens

theorem succeeds_selectionTokens {items : List (Selection σ)} :
    Succeeds (selectionTokens p (items.map (Selection.map f))) ↔
      (∀ item ∈ items, item.IsValid) ∧ ∀ item ∈ items, ∀ q ∈ item.nested, Succeeds (f q).statement := by
  unfold selectionTokens
  split
  next hempty =>
    obtain rfl : items = [] := by simpa using hempty
    exact iff_of_true (Succeeds.ok _) (by simp)
  next =>
    rw [Succeeds.map_iff, Succeeds.mapM_iff, List.forall_mem_map, ← forall₂_and]
    exact forall₂_congr fun item _ => item.succeeds_tokens

theorem Source.succeeds_tokens {place : NamePlace} {source : Source σ} :
    Succeeds ((source.map f).tokens p place) ↔
      source.IsValid ∧ ∀ q ∈ source.nested, Succeeds (f q).statement := by
  cases source with
  | table name aliasName =>
    exact (Succeeds.bind_ok_iff.trans (succeeds_checkName _)).trans (by simp [IsValid, nested])
  | subquery q aliasName =>
    rw [IsValid, nested, List.forall_mem_singleton, ← succeeds_checkName .derivedTable]
    exact Succeeds.bind_iff fun _ _ => Succeeds.bind_ok_iff.trans Nested.succeeds_tokens
  | raw fragment => exact Fragment.succeeds_tokens.trans (by simp [IsValid, nested])

theorem succeeds_fromTokens {source : Option (Source σ)} :
    Succeeds (fromTokens p (source.map (Source.map f))) ↔
      (∃ x ∈ source, x.IsValid) ∧ ∀ x ∈ source, ∀ q ∈ x.nested, Succeeds (f q).statement := by
  cases source with
  | none => exact iff_of_false Succeeds.error (by simp)
  | some source => exact (Succeeds.bind_ok_iff.trans source.succeeds_tokens).trans (by simp)

theorem Join.succeeds_check {j : Join σ} :
    Succeeds ((j.map f).check p) ↔ j.kind.isSupported p = true ∧ (j.kind = .cross → j.conditions = []) := by
  have hempty : (j.map f).conditions.isEmpty = true ↔ j.conditions = [] := by
    rw [Join.conditions_map, List.isEmpty_map, List.isEmpty_iff]
  have hkind : (j.map f).kind = j.kind := rfl
  unfold check
  rw [hkind]
  cases j.kind with
  | full | right =>
    dsimp only [JoinKind.isSupported]
    split
    next h => exact iff_of_true (Succeeds.ok ()) ⟨h, nofun⟩
    next h => exact iff_of_false Succeeds.error fun hsupported => h hsupported.1
  | cross =>
    dsimp only
    split
    next h => exact iff_of_true (Succeeds.ok ()) ⟨rfl, fun _ => hempty.1 h⟩
    next h => exact iff_of_false Succeeds.error fun hcross => h (hempty.2 (hcross.2 rfl))
  | inner | left => exact iff_of_true (Succeeds.ok ()) ⟨rfl, nofun⟩

/-- The condition of a join must not come out as nothing, and it does only for empty groups. -/
theorem Join.succeeds_conditionTokens (hf : ∀ q, (f q).IsPhrase p fun _ => True) {j : Join σ} :
    Succeeds ((j.map f).conditionTokens p) ↔ (j.kind ≠ .cross → (∃ c ∈ j.conditions, c.isVacuous = false) ∧
      Condition.AllValid j.conditions ∧ ∀ q ∈ Condition.nestedList j.conditions, Succeeds (f q).statement) := by
  unfold conditionTokens
  split
  next h => exact iff_of_true (Succeeds.ok _) fun hne => absurd h hne
  next h =>
    have hkind : j.kind ≠ .cross := h
    rw [forall_prop_of_true hkind, and_comm, ← Condition.succeeds_listTokens (p := p)]
    refine Succeeds.bind_iff fun tokens htokens => ?_
    have hlist : ∀ c ∈ (j.map f).conditions,
        (∀ n ∈ c.nested, n.IsPhrase p fun _ => True) ∧ ∀ fragment ∈ c.fragments, True := by
      intro c hc
      rw [Join.conditions_map] at hc
      obtain ⟨c, -, rfl⟩ := List.mem_map.1 hc
      rw [Condition.nested_map, List.forall_mem_map]
      exact ⟨fun q _ => hf q, fun _ _ => trivial⟩
    have hempty := Condition.isEmpty_listTokens hlist htokens
    rw [Join.map, Condition.allVacuous_mapList] at hempty
    rw [← Condition.allVacuous_eq_false, hempty]
    cases Condition.allVacuous j.conditions with
    | true => exact iff_of_false Succeeds.error (by simp)
    | false => exact iff_of_true (Succeeds.ok _) rfl

theorem Join.succeeds_tokens (hf : ∀ q, (f q).IsPhrase p fun _ => True) {j : Join σ} :
    Succeeds ((j.map f).tokens p) ↔ j.IsValid p ∧ ∀ q ∈ j.nested, Succeeds (f q).statement := by
  have hsteps : Succeeds ((j.map f).tokens p) ↔ Succeeds ((j.map f).check p) ∧
      Succeeds ((j.map f).source.tokens p .join) ∧ Succeeds ((j.map f).conditionTokens p) :=
    Succeeds.bind_iff fun _ _ => Succeeds.bind_iff fun _ _ => Succeeds.bind_ok_iff
  rw [hsteps, Join.succeeds_check, Join.succeeds_conditionTokens hf, Join.nested, List.forall_mem_append]
  show _ ∧ Succeeds ((j.source.map f).tokens p .join) ∧ _ ↔ _
  rw [Source.succeeds_tokens]
  constructor
  · rintro ⟨⟨hkind, hcross⟩, ⟨hsource, hbelow⟩, hjoined⟩
    by_cases h : j.kind = .cross
    · refine ⟨⟨hkind, hsource, hcross, fun hne => absurd h hne, ?_⟩, hbelow, ?_⟩ <;> rw [hcross h]
      · trivial
      · simp [Condition.nestedList]
    · obtain ⟨hany, hconditions, hnested⟩ := hjoined h
      exact ⟨⟨hkind, hsource, hcross, fun _ => hany, hconditions⟩, hbelow, hnested⟩
  · rintro ⟨h, hbelow, hnested⟩
    exact ⟨⟨h.kind, h.cross⟩, ⟨h.source, hbelow⟩, fun hne => ⟨h.joined hne, h.conditions, hnested⟩⟩

/-! ## Emitters of selects and pages -/

theorem succeeds_numberingTokens {t : Target} {orders : List (Term × Direction)} :
    Succeeds (numberingTokens t orders) ↔ ∀ order ∈ orders, order.1.IsValid :=
  Succeeds.bind_ok_iff.trans succeeds_orderingTokens

/-- What is asked of the order by a SELECT with a shape. -/
def Shape.takesOrder : Shape → Bool
  | .plain | .top _ | .numbered => true
  | .unordered => false

theorem Shape.succeeds_orders {t : Target} {orders : List (Term × Direction)} {shape : Shape} :
    (Succeeds (shape.numberTokens t orders) ∧ Succeeds (shape.orderTokens t.profile orders)) ↔
      (shape.takesOrder = true → ∀ order ∈ orders, order.1.IsValid) := by
  cases shape with
  | plain | top rows =>
    refine (and_iff_right (Succeeds.ok _)).trans (succeeds_orderingTokens.trans ?_)
    simp [takesOrder]
  | numbered =>
    refine (and_iff_left (Succeeds.ok _)).trans ((Succeeds.bind_ok_iff.trans succeeds_numberingTokens).trans ?_)
    simp [takesOrder]
  | unordered => exact iff_of_true ⟨Succeeds.ok _, Succeeds.ok _⟩ nofun

theorem succeeds_selectTokens {t : Target} (hf : ∀ q, (f q).IsPhrase t.profile fun _ => True)
    {s : Sections σ} {shape : Shape} :
    Succeeds (selectTokens t (s.map f) shape) ↔ s.IsSelectable t.profile ∧
      (shape.takesOrder = true → ∀ order ∈ s.orders, order.1.IsValid) ∧
      ∀ q ∈ s.selectNested, Succeeds (f q).statement := by
  have hsteps : Succeeds (selectTokens t (s.map f) shape) ↔
      Succeeds (selectionTokens t.profile (s.items.map (Selection.map f))) ∧
        Succeeds (shape.numberTokens t s.orders) ∧
        Succeeds (fromTokens t.profile (s.source.map (Source.map f))) ∧
        Succeeds ((s.joins.map (Join.map f)).mapM (Join.tokens t.profile)) ∧
        Succeeds (Condition.listTokens t.profile (Condition.mapList f s.filters)) ∧
        Succeeds (groupingTokens t.profile s.groups) ∧
        Succeeds (Condition.listTokens t.profile (Condition.mapList f s.havings)) ∧
        Succeeds (shape.orderTokens t.profile s.orders) :=
    Succeeds.bind_iff fun _ _ => Succeeds.bind_iff fun _ _ => Succeeds.bind_iff fun _ _ =>
      Succeeds.bind_iff fun _ _ => Succeeds.bind_iff fun _ _ => Succeeds.bind_iff fun _ _ =>
        Succeeds.bind_iff fun _ _ => Succeeds.bind_ok_iff
  have hjoins : Succeeds ((s.joins.map (Join.map f)).mapM (Join.tokens t.profile)) ↔
      (∀ j ∈ s.joins, j.IsValid t.profile) ∧ ∀ j ∈ s.joins, ∀ q ∈ j.nested, Succeeds (f q).statement := by
    rw [Succeeds.mapM_iff, List.forall_mem_map, ← forall₂_and]
    exact forall₂_congr fun j _ => Join.succeeds_tokens hf
  rw [hsteps, ← Shape.succeeds_orders, Sections.forall_mem_selectNested, succeeds_selectionTokens, succeeds_fromTokens,
    hjoins, Condition.succeeds_listTokens, succeeds_groupingTokens, Condition.succeeds_listTokens]
  constructor
  · rintro ⟨⟨hitems, hi⟩, hnumber, ⟨hsource, hs⟩, ⟨hjoins, hj⟩, ⟨hfilters, hw⟩, hgroups, ⟨hhavings, hh⟩, hend⟩
    exact ⟨⟨hitems, hsource, hjoins, hfilters, hgroups, hhavings⟩, ⟨hnumber, hend⟩, hi, hs, hj, hw, hh⟩
  · rintro ⟨⟨hitems, hsource, hjoins, hfilters, hgroups, hhavings⟩, ⟨hnumber, hend⟩, hi, hs, hj, hw, hh⟩
    exact ⟨⟨hitems, hi⟩, hnumber, ⟨hsource, hs⟩, ⟨hjoins, hj⟩, ⟨hfilters, hw⟩, hgroups, ⟨hhavings, hh⟩, hend⟩

/-- A SELECT with its order at the end or in front of its source. -/
theorem succeeds_orderedSelect {t : Target} (hf : ∀ q, (f q).IsPhrase t.profile fun _ => True)
    {s : Sections σ} {shape : Shape} (hshape : shape.takesOrder = true) :
    Succeeds (selectTokens t (s.map f) shape) ↔ s.IsSelectable t.profile ∧
      (∀ order ∈ s.orders, order.1.IsValid) ∧ ∀ q ∈ s.selectNested, Succeeds (f q).statement := by
  rw [succeeds_selectTokens hf, forall_prop_of_true hshape]

theorem succeeds_numberedRows {t : Target} (hf : ∀ q, (f q).IsPhrase t.profile fun _ => True)
    {s : Sections σ} :
    Succeeds (numberedRows t (s.map f)) ↔ s.IsSelectable t.profile ∧
      (∀ order ∈ s.orders, (if s.distinct then order.1.output t.profile s.items else order.1).IsValid) ∧
      ∀ q ∈ s.selectNested, Succeeds (f q).statement := by
  unfold numberedRows
  rw [Sections.map_distinct]
  split
  next =>
    have hsteps : Succeeds (numberedDistinct t (s.map f)) ↔
        Succeeds (numberingTokens t (s.orders.map fun order =>
          (order.1.output t.profile (s.items.map (Selection.map f)), order.2))) ∧
        Succeeds (selectTokens t (s.map f) .unordered) :=
      Succeeds.bind_iff fun _ _ => Succeeds.bind_ok_iff
    rw [hsteps, succeeds_numberingTokens, succeeds_selectTokens hf, List.forall_mem_map]
    simp only [Term.output_map]
    constructor
    · rintro ⟨horder, hselect, -, hnested⟩
      exact ⟨hselect, horder, hnested⟩
    · rintro ⟨hselect, horder, hnested⟩
      exact ⟨horder, hselect, nofun, hnested⟩
  next => exact succeeds_orderedSelect hf rfl

theorem succeeds_pagedTokens {t : Target} (hf : ∀ q, (f q).IsPhrase t.profile fun _ => True)
    {s : Sections σ} (outermost : Bool) :
    Succeeds (pagedTokens t (s.map f) outermost) ↔ s.IsSelectable t.profile ∧
      (∀ order ∈ s.orders, (s.orderTerm t.profile order.1).IsValid) ∧
      ∀ q ∈ s.selectNested, Succeeds (f q).statement := by
  have hplain : ∀ shape : Shape, shape.takesOrder = true → Plan.isRowNumber
      (.ofPage t.profile.paging s.page) = false →
      (Succeeds (selectTokens t (s.map f) shape) ↔ s.IsSelectable t.profile ∧
        (∀ order ∈ s.orders, (s.orderTerm t.profile order.1).IsValid) ∧
        ∀ q ∈ s.selectNested, Succeeds (f q).statement) := by
    intro shape hshape hplan
    simp only [Sections.orderTerm, hplan, Bool.and_false, Bool.false_eq_true, if_false]
    exact succeeds_orderedSelect hf hshape
  unfold pagedTokens
  rw [Sections.map_page]
  cases hplan : Plan.ofPage t.profile.paging s.page with
  | whole => exact hplain .plain rfl (by rw [hplan]; rfl)
  | limitOffset page => exact Succeeds.map_iff.trans (hplain .plain rfl (by rw [hplan]; rfl))
  | top rows => exact hplain (.top rows) rfl (by rw [hplan]; rfl)
  | rowNumber page =>
    refine Succeeds.bind_ok_iff.trans ((succeeds_numberedRows hf).trans ?_)
    simp only [Sections.orderTerm, hplan, Plan.isRowNumber, Bool.and_true]
  | rowNum page =>
    refine Iff.trans (Succeeds.bind_iff (P := True) fun inner _ => iff_true_intro ?_)
      ((and_iff_left trivial).trans (hplain .plain rfl (by rw [hplan]; rfl)))
    split <;> exact Succeeds.ok _

/-! ## Emitters of statements -/

theorem succeeds_withTokens {ctes : List (String × σ)} :
    Succeeds (withTokens p (ctes.map (Prod.map id f))) ↔
      (∀ cte ∈ ctes, IsName cte.1) ∧ ∀ cte ∈ ctes, Succeeds (f cte.2).statement := by
  unfold withTokens
  split
  next hempty =>
    obtain rfl : ctes = [] := by simpa using hempty
    exact iff_of_true (Succeeds.ok _) (by simp)
  next =>
    refine (Succeeds.bind_ok_iff.trans Succeeds.mapM_iff).trans ?_
    rw [List.forall_mem_map, ← forall₂_and]
    refine forall₂_congr fun cte _ => ?_
    rw [← succeeds_checkName .cte]
    exact Succeeds.bind_iff fun _ _ => Succeeds.bind_ok_iff.trans Nested.succeeds_tokens

theorem succeeds_operandTokens {isDelimited : Bool} (tokens : List (Token Value)) :
    Succeeds (operandTokens p isDelimited tokens) ↔ (isDelimited = true → p.hasOperandParens = true) := by
  unfold operandTokens
  cases isDelimited with
  | false => exact iff_of_true (Succeeds.ok _) nofun
  | true =>
    cases p.hasOperandParens with
    | false => exact iff_of_false Succeeds.error (by simp)
    | true => exact iff_of_true (Succeeds.ok _) fun _ => rfl

theorem Arm.succeeds_tokens {arm : Arm σ} :
    Succeeds ((arm.map f).tokens p) ↔ arm.operator.isSupported p = true ∧
      ((f arm.operand).isDelimited = true → p.hasOperandParens = true) ∧ Succeeds (f arm.operand).statement := by
  have hkeyword : Succeeds (arm.operator.keyword p) ↔ arm.operator.isSupported p = true := by
    unfold SetOperator.keyword SetOperator.isSupported
    cases arm.operator with
    | union => exact iff_of_true (Succeeds.ok _) rfl
    | intersect | except =>
      dsimp only
      split
      next h => exact iff_of_true (Succeeds.ok _) h
      next h => exact iff_of_false Succeeds.error h
  have hsteps : Succeeds ((arm.map f).tokens p) ↔ Succeeds (arm.operator.keyword p) ∧
      Succeeds (f arm.operand).statement ∧ ((f arm.operand).isDelimited = true → p.hasOperandParens = true) :=
    Succeeds.bind_iff fun _ _ => Succeeds.bind_iff fun _ _ => Succeeds.bind_ok_iff.trans (succeeds_operandTokens _)
  rw [hsteps, hkeyword, and_comm (a := Succeeds _)]

/-- A statement is emitted exactly when its sections are valid and the nested queries are emitted. -/
theorem succeeds_sectionTokens {t : Target} (hf : ∀ q, (f q).IsPhrase t.profile fun _ => True)
    {s : Sections σ} {outermost : Bool} :
    Succeeds (sectionTokens t (s.map f) outermost) ↔ s.IsValid t.profile (fun q => (f q).isDelimited) ∧
      ∀ q ∈ s.nested, Succeeds (f q).statement := by
  have harmsEmpty : (s.map f).arms.isEmpty = true ↔ s.arms = [] := by
    rw [Sections.map_arms, List.isEmpty_map, List.isEmpty_iff]
  have hbody : Succeeds (sectionTokens t (s.map f) outermost) ↔
      Succeeds (withTokens t.profile (s.ctes.map (Prod.map id f))) ∧
        Succeeds (pagedTokens t (s.map f) false) ∧
        (s.arms ≠ [] → s.isDelimited = true → t.profile.hasOperandParens = true) ∧
        ∀ arm ∈ s.arms, Succeeds ((arm.map f).tokens t.profile) := by
    refine Succeeds.bind_iff fun ctes _ => ?_
    split
    next hempty =>
      have harms := harmsEmpty.1 hempty
      rw [harms, succeeds_pagedTokens hf false, ← succeeds_pagedTokens hf outermost]
      exact Succeeds.bind_ok_iff.trans (and_iff_left ⟨fun hne => absurd rfl hne, by simp⟩).symm
    next hempty =>
      have harms : s.arms ≠ [] := fun h => hempty (harmsEmpty.2 h)
      rw [forall_prop_of_true harms]
      refine Succeeds.bind_iff fun paged _ => ?_
      rw [← succeeds_operandTokens paged]
      refine Succeeds.bind_iff fun head _ => Succeeds.bind_ok_iff.trans (Succeeds.mapM_iff.trans ?_)
      rw [Sections.map_arms, List.forall_mem_map]
  rw [hbody, succeeds_withTokens, succeeds_pagedTokens hf false, Sections.forall_mem_nested]
  simp only [Arm.succeeds_tokens]
  constructor
  · rintro ⟨⟨hctes, hc⟩, ⟨hselect, horders, hn⟩, hhead, harms⟩
    exact ⟨⟨hselect, hctes, horders, fun arm harm => (harms arm harm).1, hhead,
      fun arm harm => (harms arm harm).2.1⟩, hc, hn, fun arm harm => (harms arm harm).2.2⟩
  · rintro ⟨h, hc, hn, ha⟩
    exact ⟨⟨h.ctes, hc⟩, ⟨h.toIsSelectable, h.orders, hn⟩, h.head, fun arm harm =>
      ⟨h.operators arm harm, h.operands arm harm, ha arm harm⟩⟩

end

/-! ## Queries -/

namespace Query

variable {p : Profile} {q : Query}

theorem succeeds_ofClause {clause : Clause σ} : Succeeds (Selection.ofClause clause) ↔
    ∀ spec, clause = .select spec → Succeeds (Specification.expand spec) := by
  cases clause with
  | select spec => exact Succeeds.map_iff.trans (by simp)
  | _ => exact iff_of_true (Succeeds.ok _) nofun

/-- The clauses of a query can be sorted exactly when its column specifications can be expanded. -/
theorem succeeds_sections : Succeeds q.sections ↔
    ∀ spec, Clause.select spec ∈ q.clauses → Succeeds (Specification.expand spec) := by
  refine ((Succeeds.map_iff.trans Succeeds.map_iff).trans Succeeds.mapM_iff).trans ?_
  simp only [succeeds_ofClause]
  exact ⟨fun h spec hspec => h _ hspec spec rfl, fun h clause hclause spec heq => h spec (heq ▸ hclause)⟩

/-- A query is emitted exactly when its own level is valid and the queries inside it are emitted. -/
theorem succeeds_tokensAt {t : Target} (outermost : Bool) :
    Succeeds (q.tokensAt t outermost) ↔
      q.IsValidHere t.profile ∧ ∀ inner ∈ q.inside, Succeeds (inner.nested t).statement := by
  have hf (q : Query) : (q.nested t).IsPhrase t.profile fun _ => True :=
    isPhrase_nested (everywhere_of_forall (fun _ _ _ => trivial) q)
  rw [tokensAt_eq]
  cases hs : q.sections with
  | error e =>
    refine iff_of_false Succeeds.error fun h => ?_
    have hsections := succeeds_sections.2 h.1.specifications
    rw [hs] at hsections
    exact Succeeds.error hsections
  | ok s =>
    have hspecifications := succeeds_sections.1 (hs ▸ Succeeds.ok s)
    rw [inside_eq hs]
    refine (succeeds_sectionTokens hf).trans (and_congr_left fun _ => ?_)
    simp only [isDelimited_nested]
    constructor
    · refine fun h => ⟨hspecifications, fun s' hs' => ?_⟩
      rw [hs] at hs'
      cases hs'
      exact h
    · exact fun h => h.sections s hs

theorem succeeds_statement {t : Target} {q : Query} :
    Succeeds (q.nested t).statement ↔ q.IsValid t.profile := by
  induction q using induction_inside with
  | step q ih =>
    refine (succeeds_tokensAt false).trans ?_
    rw [IsValid, atEveryLevel_iff]
    exact and_congr_right fun _ => forall₂_congr fun inner hinner => ih inner hinner

theorem succeeds_tokens {t : Target} : Succeeds (q.tokens t) ↔ q.IsValid t.profile := by
  refine (succeeds_tokensAt true).trans ?_
  rw [IsValid, atEveryLevel_iff]
  exact and_congr_right fun _ => forall₂_congr fun inner _ => succeeds_statement

end Query

/-- A query compiles exactly when it is valid at every level and binds no more values than the options
allow, or the dialect if they say nothing. -/
theorem Compiler.compile_succeeds_iff (c : Compiler) (q : Query) :
    (∃ r, c.compile q = .ok r) ↔ q.IsValid c.dialect.profile ∧
      (q.values c.dialect.profile).length ≤ c.options.maxBindings.getD c.dialect.profile.maxBindings := by
  have hvalid : Succeeds (q.tokens c.target) ↔ q.IsValid c.dialect.profile := Query.succeeds_tokens
  rw [← hvalid]
  constructor
  · rintro ⟨r, h⟩
    obtain ⟨tokens, htokens, hlimit, -⟩ := compile_eq_ok_iff.1 h
    rw [Query.params_tokensAt true htokens] at hlimit
    exact ⟨⟨tokens, htokens⟩, hlimit⟩
  · rintro ⟨⟨tokens, htokens⟩, hlimit⟩
    refine ⟨_, compile_eq_ok_iff.2 ⟨tokens, htokens, ?_, rfl⟩⟩
    rw [Query.params_tokensAt true htokens]
    exact hlimit

end QueryCompiler
