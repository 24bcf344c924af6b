-- SUMMARY: The values that a query binds, read off its clauses, and that the emitted parameters are these in their order.
import QueryCompiler.Proofs.Binding
import QueryCompiler.Proofs.Placement

/-!
# Bound values

Which values a statement binds, and in which order, is told by its clauses alone:
`Query.values` lists them in the order of the text, without any token. A value of a
clause may bind nothing, as one that is compared with null does, and a page binds
values that stand in no clause. Whatever is emitted for a query has these values at
its parameters, one for each.
-/

namespace QueryCompiler

/-! ## Plans -/

def Plan.isRowNumber : Plan → Bool
  | .rowNumber _ => true
  | _ => false

theorem Plan.isRowNumber_ofPage (d : Dialect) (page : Page) :
    (Plan.ofPage d.profile.paging page).isRowNumber = (decide (d = .tsql) && page.offset.isSome) := by
  obtain ⟨limit, offset⟩ := page
  cases d <;> cases limit <;> cases offset <;> rfl

/-! ## The values of a query -/

def Operand.values : Operand (List Value) → List Value
  | .value v => [v]
  | .column _ => []
  | .query values => values
  | .raw fragment => fragment.bindings

/-- The pattern of a match as it is bound. -/
def boundPattern (p : Profile) (pattern : String) (caseSensitive : Bool) : Value :=
  .string <|
    if caseSensitive then pattern
    else
      match p.caselessMatch with
      | .ilike => pattern
      | .lowerCase => Text.lower pattern

mutual

def Condition.values (p : Profile) : Condition (List Value) → List Value
  | ⟨_, _, predicate⟩ => Predicate.values p predicate

/-- The values of a predicate. A test for null binds none. -/
def Predicate.values (p : Profile) : Predicate (List Value) (Condition (List Value)) → List Value
  | .compare _ op operand =>
    match op.nullTest? operand with
    | some _ => []
    | none => operand.values
  | .inValues _ values => values
  | .inQuery _ values => values
  | .between _ low high => [low, high]
  | .isNull _ => []
  | .like _ pattern caseSensitive => [boundPattern p pattern caseSensitive]
  | .exists values => values
  | .group members => Condition.listValues p members
  | .raw fragment => fragment.bindings

def Condition.listValues (p : Profile) : List (Condition (List Value)) → List Value
  | [] => []
  | condition :: rest => condition.values p ++ Condition.listValues p rest

end

def Term.values : Term → List Value
  | .column _ => []
  | .raw fragment => fragment.bindings

/-- The values of the terms of an order. -/
def orderValues (orders : List (Term × Direction)) : List Value :=
  orders.flatMap fun order => order.1.values

def Selection.values : Selection (List Value) → List Value
  | .column _ => []
  | .raw fragment => fragment.bindings
  | .aggregate .. => []
  | .subquery values _ => values

def Source.values : Source (List Value) → List Value
  | .table .. => []
  | .subquery values _ => values
  | .raw fragment => fragment.bindings

def Join.values (p : Profile) (j : Join (List Value)) : List Value :=
  j.source.values ++ Condition.listValues p j.conditions

/-- The values in front of the select list. -/
def Shape.topValues : Shape → List Value
  | .top rows => [.int (Page.bound rows)]
  | _ => []

/-- The values of an order that is taken into the select list. -/
def Shape.numberValues (orders : List (Term × Direction)) : Shape → List Value
  | .numbered => orderValues orders
  | _ => []

/-- The values of an order at the end. -/
def Shape.endValues (orders : List (Term × Direction)) : Shape → List Value
  | .plain | .top _ => orderValues orders
  | .numbered | .unordered => []

/-- The values of `LIMIT` and `OFFSET`. -/
def Page.limitValues (page : Page) : List Value :=
  (page.limit.toList ++ page.offset.toList).map fun rows => .int (bound rows)

/-- The values that row numbers are compared with. -/
def Page.testValues (page : Page) : List Value :=
  match page.offset, page.limit with
  | some offset, some limit => [.int (firstRow offset), .int (pastLastRow offset limit)]
  | some offset, none => [.int (firstRow offset)]
  | none, some limit => [.int (bound limit)]
  | none, none => []

namespace Sections

variable (p : Profile) (s : Sections (List Value))

/-- The values of a SELECT without the page around it. -/
def selectValues (shape : Shape) : List Value :=
  shape.topValues ++ s.items.flatMap Selection.values ++ shape.numberValues s.orders
    ++ s.source.toList.flatMap Source.values ++ s.joins.flatMap (Join.values p)
    ++ Condition.listValues p s.filters ++ s.groups.flatMap Term.values
    ++ Condition.listValues p s.havings ++ shape.endValues s.orders

/-- The values of the numbered rows. The order of distinct rows comes before these. -/
def numberedValues : List Value :=
  if s.distinct then orderValues s.orders ++ s.selectValues p .unordered else s.selectValues p .numbered

/-- The values of a SELECT with its page cut out. -/
def pagedValues : List Value :=
  match Plan.ofPage p.paging s.page with
  | .whole => s.selectValues p .plain
  | .limitOffset page => s.selectValues p .plain ++ page.limitValues
  | .top rows => s.selectValues p (.top rows)
  | .rowNumber page => s.numberedValues p ++ page.testValues
  | .rowNum page => s.selectValues p .plain ++ page.testValues

/-- The values of a statement. -/
def values : List Value :=
  s.ctes.flatMap Prod.snd ++ s.pagedValues p ++ s.arms.flatMap Arm.operand

end Sections

/-- The values of a query in the order of its text. A query whose column specifications are malformed
has no text. -/
def Query.values (p : Profile) (q : Query) : List Value :=
  q.fold fun clauses =>
    match Sections.ofClauses clauses with
    | .ok s => s.values p
    | .error _ => []

theorem Query.values_sections (p : Profile) (q : Query) :
    q.values p = match q.sections with
      | .ok s => (s.map (Query.values p)).values p
      | .error _ => [] := by
  obtain ⟨clauses⟩ := q
  have hmap := sections_map ⟨clauses⟩ (Query.values p)
  rw [Query.values, Query.fold_mk]
  show (match Sections.ofClauses (clauses.map (Clause.map (Query.values p))) with
    | .ok s => s.values p
    | .error _ => []) = _
  rw [hmap]
  cases Query.sections ⟨clauses⟩ <;> rfl

theorem Query.values_eq {p : Profile} {q : Query} {s : Sections Query} (h : q.sections = .ok s) :
    q.values p = (s.map (Query.values p)).values p := by
  rw [values_sections, h]

/-! ## Parameters of parts -/

section

variable {σ : Type} {p : Profile} {f : σ → Nested} {v : σ → List Value} {ts : List (Token Value)}

/-- What is emitted for a nested query, if anything, has these values at its parameters. -/
def Nested.Binds (n : Nested) (values : List Value) : Prop :=
  ∀ ts, n.statement = .ok ts → Token.params ts = values

theorem Nested.Binds.params_tokens {n : Nested} {values : List Value} (hn : n.Binds values)
    (h : n.tokens = .ok ts) : Token.params ts = values := by
  obtain ⟨inner, hinner, rfl⟩ := map_eq_ok h
  rw [Token.params_parenthesized, hn inner hinner]

theorem params_checkedReference {place : NamePlace} {name : String}
    (h : p.checkedReference place name = .ok ts) : Token.params ts = [] := by
  obtain ⟨-, -, h⟩ := bind_eq_ok h
  cases h
  exact params_reference p name

theorem Fragment.params_fill {parts : List Part} {values : List Value}
    (h : parts.count .marker = values.length) : Token.params (fill parts values) = values := by
  induction parts generalizing values with
  | nil => simpa [fill] using h.symm
  | cons part rest ih =>
    cases part with
    | text cs => simpa [fill] using ih (by simpa using h)
    | marker =>
      cases values with
      | nil => simp at h
      | cons v values => exact congrArg (v :: ·) (ih (by simpa using h))

theorem Fragment.count_marker_parts (text : List Char) :
    (parts text).count .marker = (marks text).count .marker := by
  have hmarkers := count_marker_foldr (marks text)
  unfold parts
  split
  next hnil => rwa [hnil] at hmarkers
  next => exact hmarkers

theorem Fragment.params_tokens {fragment : Fragment} (h : fragment.tokens = .ok ts) :
    Token.params ts = fragment.bindings := by
  unfold tokens at h
  split at h
  next hcount =>
    cases h
    exact params_fill ((count_marker_parts _).trans hcount)
  next => cases h

/-- The parameters of a list of parts are those of each part, one after the other. -/
theorem flatMap_params_mapM {α : Type} {emit : α → Emission} {values : α → List Value} {list : List α}
    {groups : List (List (Token Value))}
    (hemit : ∀ x ∈ list, ∀ ts, emit x = .ok ts → Token.params ts = values x)
    (h : list.mapM emit = .ok groups) : groups.flatMap Token.params = list.flatMap values := by
  have hrel := mapM_eq_ok h
  clear h
  induction hrel with
  | nil => rfl
  | cons hx _ ih =>
    rw [List.forall_mem_cons] at hemit
    rw [List.flatMap_cons, List.flatMap_cons, hemit.1 _ hx, ih hemit.2]

theorem params_mapM_commaSeparated {α : Type} {emit : α → Emission} {values : α → List Value}
    {list : List α} (hemit : ∀ x ∈ list, ∀ ts, emit x = .ok ts → Token.params ts = values x)
    (h : (list.mapM emit).map Token.commaSeparated = .ok ts) : Token.params ts = list.flatMap values := by
  obtain ⟨groups, hgroups, rfl⟩ := map_eq_ok h
  rw [Token.params_commaSeparated, flatMap_params_mapM hemit hgroups]

/-! ### Conditions -/

theorem Operand.params_tokens {operand : Operand σ} (hn : ∀ q ∈ operand.nested, (f q).Binds (v q))
    (h : (operand.map f).tokens p = .ok ts) : Token.params ts = (operand.map v).values := by
  cases operand with
  | value u =>
    cases h
    rfl
  | column name => exact params_checkedReference h
  | query q => exact (hn q (List.mem_singleton_self q)).params_tokens h
  | raw fragment => exact Fragment.params_tokens h

theorem params_comparison {negated : Bool} {column : String} {op : Comparison} {operand : Operand σ}
    (hn : ∀ q ∈ operand.nested, (f q).Binds (v q))
    (h : comparison p negated column op (operand.map f) = .ok ts) :
    Token.params ts = Predicate.values p (Predicate.map v (.compare column op operand)) := by
  obtain ⟨subject, hsubject, h⟩ := bind_eq_ok h
  have hsubject := params_checkedReference hsubject
  rw [Predicate.map, Predicate.values, Comparison.nullTest?_map]
  rw [Comparison.nullTest?_map] at h
  cases htest : op.nullTest? operand with
  | some isNull =>
    rw [htest] at h
    cases h
    exact (params_nullTest _).trans hsubject
  | none =>
    rw [htest] at h
    obtain ⟨object, hobject, h⟩ := bind_eq_ok h
    cases h
    have hobject := operand.params_tokens hn hobject
    split <;> simp [hsubject, hobject]

theorem params_membership {negated : Bool} {column : String} {values : List Value}
    (h : membership p negated column values = .ok ts) : Token.params ts = values := by
  obtain ⟨subject, hsubject, h⟩ := bind_eq_ok h
  have hsubject := params_checkedReference hsubject
  split at h
  next hempty =>
    cases h
    rw [List.isEmpty_iff.1 hempty]
    rfl
  next =>
    cases h
    simp [hsubject, List.flatMap_map]

theorem params_patternMatch {negated : Bool} {column pattern : String} {caseSensitive : Bool}
    (h : patternMatch p negated column pattern caseSensitive = .ok ts) :
    Token.params ts = [boundPattern p pattern caseSensitive] := by
  obtain ⟨subject, hsubject, h⟩ := bind_eq_ok h
  have hsubject := params_checkedReference hsubject
  have hparams {column : List (Token Value)} (hcolumn : Token.params column = []) (k : Keyword)
      (bound : String) :
      Token.params (column ++ Token.notAfter negated ++ Token.spaced k ++ [Token.value (.string bound)])
        = [.string bound] := by
    simp [hcolumn]
  cases h
  cases caseSensitive with
  | true => exact hparams hsubject .like pattern
  | false =>
    unfold boundPattern
    cases p.caselessMatch with
    | ilike => exact hparams hsubject .ilike pattern
    | lowerCase =>
      have hlower : Token.params (.function "LOWER" :: Token.parenthesized subject) = [] := by
        simp [hsubject]
      exact hparams hlower .like (Text.lower pattern)

mutual

/-- A group of empty groups binds nothing. -/
theorem Condition.values_of_isVacuous {condition : Condition (List Value)}
    (h : condition.isVacuous = true) :
    condition.values p = [] :=
  match condition with
  | ⟨_, _, _⟩ => Predicate.values_of_isVacuous h

theorem Predicate.values_of_isVacuous {predicate : Predicate (List Value) (Condition (List Value))}
    (h : Predicate.isVacuous predicate = true) : Predicate.values p predicate = [] := by
  match predicate with
  | .group members => exact Condition.listValues_of_allVacuous h
  | .compare .. | .inValues .. | .inQuery .. | .between .. | .isNull .. | .like .. | .exists .. | .raw .. =>
    cases h

theorem Condition.listValues_of_allVacuous {list : List (Condition (List Value))}
    (h : Condition.allVacuous list = true) : Condition.listValues p list = [] := by
  match list with
  | [] => rfl
  | condition :: rest =>
    rw [Condition.allVacuous, Bool.and_eq_true] at h
    rw [Condition.listValues, Condition.values_of_isVacuous h.1, Condition.listValues_of_allVacuous h.2]
    rfl

end

mutual

theorem Condition.params_tokens {condition : Condition σ} {ts : List (Token Value)}
    (hn : ∀ q ∈ condition.nested, (f q).Binds (v q)) (h : (condition.map f).tokens p = .ok ts) :
    Token.params ts = (condition.map v).values p :=
  match condition with
  | ⟨_, _, _⟩ => Predicate.params_tokens hn h

theorem Predicate.params_tokens {negated : Bool} {predicate : Predicate σ (Condition σ)}
    {ts : List (Token Value)} (hn : ∀ q ∈ Predicate.nested predicate, (f q).Binds (v q))
    (h : Predicate.tokens p negated (Predicate.map f predicate) = .ok ts) :
    Token.params ts = Predicate.values p (Predicate.map v predicate) := by
  match predicate with
  | .compare column op operand => exact params_comparison hn h
  | .inValues column values => exact params_membership h
  | .inQuery column q =>
    obtain ⟨subject, hsubject, h⟩ := bind_eq_ok h
    obtain ⟨query, hquery, h⟩ := bind_eq_ok h
    cases h
    have hquery := (hn q (List.mem_singleton_self q)).params_tokens hquery
    simp [params_checkedReference hsubject, hquery, Predicate.map, Predicate.values]
  | .between column low high =>
    obtain ⟨subject, hsubject, h⟩ := bind_eq_ok h
    cases h
    simp [params_checkedReference hsubject, Predicate.map, Predicate.values]
  | .isNull column =>
    obtain ⟨subject, hsubject, h⟩ := bind_eq_ok h
    cases h
    exact (params_nullTest _).trans (params_checkedReference hsubject)
  | .like column pattern caseSensitive => exact params_patternMatch h
  | .exists q =>
    obtain ⟨query, hquery, h⟩ := bind_eq_ok h
    cases h
    have hquery := (hn q (List.mem_singleton_self q)).params_tokens hquery
    simp [hquery, Predicate.map, Predicate.values]
  | .group members =>
    obtain ⟨list, hlist, h⟩ := bind_eq_ok h
    cases h
    have hmembers := Condition.params_tokensEach hn hlist
    simp [params_connect, hmembers, Predicate.map, Predicate.values]
  | .raw fragment =>
    obtain ⟨tokens, htokens, h⟩ := bind_eq_ok h
    cases h
    have htokens := Fragment.params_tokens htokens
    split <;> simp [htokens, Predicate.map, Predicate.values]

theorem Condition.params_tokensEach {list : List (Condition σ)}
    {emitted : List (Connector × List (Token Value))}
    (hn : ∀ q ∈ Condition.nestedList list, (f q).Binds (v q))
    (h : Condition.tokensEach p (Condition.mapList f list) = .ok emitted) :
    (emitted.flatMap fun entry => Token.params entry.2) = Condition.listValues p (Condition.mapList v list) := by
  match list with
  | [] =>
    cases h
    rfl
  | condition :: rest =>
    rw [Condition.nestedList, List.forall_mem_append] at hn
    rw [Condition.mapList, Condition.tokensEach, Condition.isVacuous_map] at h
    rw [Condition.mapList, Condition.listValues]
    split at h
    next hv =>
      rw [Condition.values_of_isVacuous (by rwa [Condition.isVacuous_map]), List.nil_append]
      exact Condition.params_tokensEach hn.2 h
    next =>
      obtain ⟨tokens, htokens, h⟩ := bind_eq_ok h
      obtain ⟨more, hmore, h⟩ := bind_eq_ok h
      cases h
      rw [List.flatMap_cons, Condition.params_tokens hn.1 htokens, Condition.params_tokensEach hn.2 hmore]

end

theorem Condition.params_listTokens {list : List (Condition σ)}
    (hn : ∀ q ∈ Condition.nestedList list, (f q).Binds (v q))
    (h : Condition.listTokens p (Condition.mapList f list) = .ok ts) :
    Token.params ts = Condition.listValues p (Condition.mapList v list) := by
  obtain ⟨emitted, hemitted, rfl⟩ := map_eq_ok h
  rw [params_connect, Condition.params_tokensEach hn hemitted]

/-! ### Terms, select list, sources and joins -/

theorem Term.params_tokens {place : NamePlace} {term : Term} (h : term.tokens p place = .ok ts) :
    Token.params ts = term.values := by
  cases term with
  | column name => exact params_checkedReference h
  | raw fragment => exact Fragment.params_tokens h

theorem params_directedTokens {order : Term × Direction} (h : directedTokens p order = .ok ts) :
    Token.params ts = order.1.values := by
  obtain ⟨tokens, htokens, h⟩ := bind_eq_ok h
  cases h
  have htokens := Term.params_tokens htokens
  split <;> simp [htokens]

theorem params_orderingTokens {orders : List (Term × Direction)} (h : orderingTokens p orders = .ok ts) :
    Token.params ts = orderValues orders :=
  params_mapM_commaSeparated (fun _ _ _ => params_directedTokens) h

theorem params_groupingTokens {groups : List Term} (h : groupingTokens p groups = .ok ts) :
    Token.params ts = groups.flatMap Term.values :=
  params_mapM_commaSeparated (fun _ _ _ => Term.params_tokens) h

theorem Selection.params_tokens {item : Selection σ} (hn : ∀ q ∈ item.nested, (f q).Binds (v q))
    (h : (item.map f).tokens p = .ok ts) : Token.params ts = (item.map v).values := by
  cases item with
  | column c =>
    obtain ⟨-, -, h⟩ := bind_eq_ok h
    cases h
    simp [Selection.map, values]
  | raw fragment => exact Fragment.params_tokens h
  | aggregate function name aliasName =>
    obtain ⟨column, hcolumn, h⟩ := bind_eq_ok h
    cases h
    simp [params_checkedReference hcolumn, Selection.map, values]
  | subquery q aliasName =>
    obtain ⟨-, -, h⟩ := bind_eq_ok h
    obtain ⟨query, hquery, h⟩ := bind_eq_ok h
    cases h
    have hquery := (hn q (List.mem_singleton_self q)).params_tokens hquery
    simp [hquery, Selection.map, values]

theorem params_selectionTokens {items : List (Selection σ)}
    (hn : ∀ item ∈ items, ∀ q ∈ item.nested, (f q).Binds (v q))
    (h : selectionTokens p (items.map (Selection.map f)) = .ok ts) :
    Token.params ts = (items.map (Selection.map v)).flatMap Selection.values := by
  unfold selectionTokens at h
  split at h
  next hempty =>
    cases h
    obtain rfl : items = [] := by simpa using hempty
    rfl
  next =>
    obtain ⟨groups, hgroups, rfl⟩ := map_eq_ok h
    rw [List.mapM_map] at hgroups
    rw [List.flatMap_map, Token.params_commaSeparated]
    exact flatMap_params_mapM (fun item hitem _ => Selection.params_tokens (hn item hitem)) hgroups

theorem Source.params_tokens {place : NamePlace} {source : Source σ}
    (hn : ∀ q ∈ source.nested, (f q).Binds (v q)) (h : (source.map f).tokens p place = .ok ts) :
    Token.params ts = (source.map v).values := by
  cases source with
  | table name aliasName =>
    obtain ⟨-, -, h⟩ := bind_eq_ok h
    cases h
    exact params_table p name aliasName
  | subquery q aliasName =>
    obtain ⟨-, -, h⟩ := bind_eq_ok h
    obtain ⟨query, hquery, h⟩ := bind_eq_ok h
    cases h
    have hquery := (hn q (List.mem_singleton_self q)).params_tokens hquery
    simp [hquery, Source.map, values]
  | raw fragment => exact Fragment.params_tokens h

theorem params_fromTokens {source : Option (Source σ)}
    (hn : ∀ x ∈ source, ∀ q ∈ x.nested, (f q).Binds (v q))
    (h : fromTokens p (source.map (Source.map f)) = .ok ts) :
    Token.params ts = (source.map (Source.map v)).toList.flatMap Source.values := by
  cases source with
  | none => cases h
  | some source =>
    obtain ⟨tokens, htokens, h⟩ := bind_eq_ok h
    cases h
    simp [Source.params_tokens (hn source rfl) htokens]

/-- The parameters of a join. Its conditions are left out only where there are none. -/
theorem Join.params_tokens {j : Join σ} (hn : ∀ q ∈ j.nested, (f q).Binds (v q))
    (h : (j.map f).tokens p = .ok ts) : Token.params ts = (j.map v).values p := by
  rw [Join.nested, List.forall_mem_append] at hn
  obtain ⟨⟨⟩, hcheck, h⟩ := bind_eq_ok h
  obtain ⟨source, hsource, h⟩ := bind_eq_ok h
  obtain ⟨conditions, hconditions, h⟩ := bind_eq_ok h
  cases h
  have hkind : Token.params (j.kind.tokens : List (Token Value)) = [] := params_joinKind j.kind
  have hsource := Source.params_tokens hn.1 hsource
  have hconditions :
      Token.params conditions = Condition.listValues p (Condition.mapList v j.conditions) := by
    unfold conditionTokens at hconditions
    split at hconditions
    next hcross =>
      cases hconditions
      have hnil := Join.conditions_of_check hcross hcheck
      rw [Join.conditions_map, List.map_eq_nil_iff] at hnil
      rw [hnil]
      rfl
    next =>
      obtain ⟨tokens, htokens, h⟩ := bind_eq_ok hconditions
      split at h
      · cases h
      · cases h
        simpa using Condition.params_listTokens hn.2 htokens
  simp [Join.map, values, hkind, hsource, hconditions]

/-! ### Selects and pages -/

theorem Term.values_output (items : List (Selection σ)) (term : Term) :
    (term.output p items).values = term.values := by
  cases term <;> rfl

theorem params_numberingTokens {t : Target} {orders : List (Term × Direction)}
    (h : numberingTokens t orders = .ok ts) : Token.params ts = orderValues orders := by
  obtain ⟨order, horder, h⟩ := bind_eq_ok h
  cases h
  have horder := params_orderingTokens horder
  cases orders with
  | nil => simp [numberingColumn, orderValues]
  | cons first rest => simp [numberingColumn, horder]

theorem params_numberTokens {t : Target} {orders : List (Term × Direction)} {shape : Shape}
    (h : shape.numberTokens t orders = .ok ts) : Token.params ts = shape.numberValues orders := by
  cases shape with
  | numbered =>
    obtain ⟨column, hcolumn, h⟩ := bind_eq_ok h
    cases h
    simpa [Shape.numberValues] using params_numberingTokens hcolumn
  | plain | top rows | unordered =>
    cases h
    rfl

theorem params_orderTokens {orders : List (Term × Direction)} {shape : Shape}
    (h : shape.orderTokens p orders = .ok ts) : Token.params ts = shape.endValues orders := by
  cases shape with
  | plain | top rows => exact params_orderingTokens h
  | numbered | unordered =>
    cases h
    rfl

theorem params_selectTokens {t : Target} {s : Sections σ} {shape : Shape}
    (hn : ∀ q ∈ s.selectNested, (f q).Binds (v q)) (h : selectTokens t (s.map f) shape = .ok ts) :
    Token.params ts = (s.map v).selectValues t.profile shape := by
  obtain ⟨hitems', hsource', hjoins', hfilters', hhavings'⟩ := Sections.forall_mem_selectNested.1 hn
  obtain ⟨items, hitems, h⟩ := bind_eq_ok h
  obtain ⟨number, hnumber, h⟩ := bind_eq_ok h
  obtain ⟨source, hsource, h⟩ := bind_eq_ok h
  obtain ⟨joins, hjoins, h⟩ := bind_eq_ok h
  obtain ⟨filter, hfilter, h⟩ := bind_eq_ok h
  obtain ⟨groups, hgroups, h⟩ := bind_eq_ok h
  obtain ⟨having, hhaving, h⟩ := bind_eq_ok h
  obtain ⟨order, horder, h⟩ := bind_eq_ok h
  cases h
  have hitems := params_selectionTokens hitems' hitems
  have hsource := params_fromTokens hsource' hsource
  have hjoins :
      joins.flatMap Token.params = (s.joins.map (Join.map v)).flatMap (Join.values t.profile) := by
    rw [Sections.map, List.mapM_map] at hjoins
    rw [List.flatMap_map]
    exact flatMap_params_mapM (fun j hj _ => Join.params_tokens (hjoins' j hj)) hjoins
  have hfilter := Condition.params_listTokens hfilters' hfilter
  have hgroups := params_groupingTokens hgroups
  have hhaving := Condition.params_listTokens hhavings' hhaving
  have htop : Token.params shape.topTokens = shape.topValues := by
    cases shape <;> rfl
  have hdistinct :
      Token.params (if s.distinct then [.space, .keyword .distinct] else [] : List (Token Value)) = [] := by
    split <;> rfl
  have hnumber := params_numberTokens hnumber
  have horder := params_orderTokens horder
  simp only [Sections.selectValues, Sections.map_items, Sections.map_orders, Sections.map_source,
    Sections.map_joins, Sections.map_filters, Sections.map_groups, Sections.map_havings, Sections.map_distinct,
    List.cons_append, Token.params_keyword, Token.params_append, Token.params_space, Token.params_nil,
    Token.params_flatten, Token.params_sectionOf, List.nil_append, List.append_nil, hitems, hsource, hjoins,
    hfilter, hgroups, hhaving, htop, hdistinct, hnumber, horder]

theorem params_numberedRows {t : Target} {s : Sections σ}
    (hn : ∀ q ∈ s.selectNested, (f q).Binds (v q)) (h : numberedRows t (s.map f) = .ok ts) :
    Token.params ts = (s.map v).numberedValues t.profile := by
  unfold numberedRows at h
  unfold Sections.numberedValues
  rw [Sections.map_distinct] at h ⊢
  split at h
  next hdistinct =>
    obtain ⟨number, hnumber, h⟩ := bind_eq_ok h
    obtain ⟨inner, hinner, h⟩ := bind_eq_ok h
    cases h
    have hnumber := params_numberingTokens hnumber
    have hinner := params_selectTokens hn hinner
    rw [if_pos hdistinct]
    simp [hnumber, hinner, orderValues, List.flatMap_map, Term.values_output]
  next hdistinct =>
    rw [if_neg hdistinct]
    exact params_selectTokens hn h

theorem params_limitTokens (page : Page) : Token.params (limitTokens p page) = page.limitValues := by
  obtain ⟨limit, offset⟩ := page
  cases limit with
  | some limit => cases offset <;> simp [limitTokens, Page.limitValues]
  | none =>
    cases offset with
    | none => rfl
    | some offset => cases hlone : p.loneOffset <;> simp [limitTokens, Page.limitValues, hlone]

theorem params_pageTest {ordinal : Token Value} (hordinal : ordinal.param? = none) (page : Page) :
    Token.params (pageTest ordinal page) = page.testValues := by
  have htest (op : Symbol) (bound : Int64) :
      Token.params (ordinalTest ordinal op bound) = [.int bound] := by
    rw [ordinalTest, Token.params_cons, hordinal]
    rfl
  obtain ⟨limit, offset⟩ := page
  cases limit <;> cases offset <;> simp [pageTest, Page.testValues, htest]

theorem params_pagedTokens {t : Target} {s : Sections σ} {outermost : Bool}
    (hn : ∀ q ∈ s.selectNested, (f q).Binds (v q)) (h : pagedTokens t (s.map f) outermost = .ok ts) :
    Token.params ts = (s.map v).pagedValues t.profile := by
  have hordinal : (t.profile.aliasToken t.options.rowNumberAlias : Token Value).param? = none :=
    param?_segmentToken t.profile _
  unfold pagedTokens at h
  unfold Sections.pagedValues
  rw [Sections.map_page] at h ⊢
  cases hplan : Plan.ofPage t.profile.paging s.page with
  | whole =>
    rw [hplan] at h
    exact params_selectTokens hn h
  | limitOffset page =>
    rw [hplan] at h
    obtain ⟨tokens, htokens, rfl⟩ := map_eq_ok h
    rw [Token.params_append, params_selectTokens hn htokens, params_limitTokens]
  | top rows =>
    rw [hplan] at h
    exact params_selectTokens hn h
  | rowNumber page =>
    rw [hplan] at h
    obtain ⟨inner, hinner, h⟩ := bind_eq_ok h
    have hinner := params_numberedRows hn hinner
    cases h
    split <;> simp [params_selectAllFrom, params_pageTest hordinal, hinner]
  | rowNum page =>
    rw [hplan] at h
    obtain ⟨inner, hinner, h⟩ := bind_eq_ok h
    have hinner := params_selectTokens hn hinner
    have hrowNum : (rowNumToken : Token Value).param? = none := rfl
    split at h
    · cases h
      simp [params_selectAllFrom, params_pageTest hrowNum, hinner]
    · cases h
      simp [rowNumRows, params_selectAllFrom, params_pageTest hordinal, hinner, rowNumToken, Sections.selectValues]

/-! ### Statements -/

theorem params_withTokens {ctes : List (String × σ)} (hn : ∀ cte ∈ ctes, (f cte.2).Binds (v cte.2))
    (h : withTokens p (ctes.map (Prod.map id f)) = .ok ts) :
    Token.params ts = (ctes.map (Prod.map id v)).flatMap Prod.snd := by
  unfold withTokens at h
  split at h
  next hempty =>
    cases h
    obtain rfl : ctes = [] := by simpa using hempty
    rfl
  next =>
    obtain ⟨list, hlist, h⟩ := bind_eq_ok h
    cases h
    rw [List.mapM_map] at hlist
    have hcte :
        ∀ cte ∈ ctes, ∀ ts, cteTokens p (Prod.map id f cte) = .ok ts → Token.params ts = v cte.2 := by
      intro cte hcte ts h
      obtain ⟨-, -, h⟩ := bind_eq_ok h
      obtain ⟨query, hquery, h⟩ := bind_eq_ok h
      cases h
      have hquery := (hn cte hcte).params_tokens hquery
      simp [hquery]
    have hlist := flatMap_params_mapM hcte hlist
    simp [hlist, List.flatMap_map]

theorem params_operandTokens {isDelimited : Bool} {tokens : List (Token Value)}
    (h : operandTokens p isDelimited tokens = .ok ts) : Token.params ts = Token.params tokens := by
  unfold operandTokens at h
  split at h
  · cases h
    rfl
  · split at h
    · cases h
      exact Token.params_parenthesized tokens
    · cases h

theorem Arm.params_tokens {arm : Arm σ} (hn : (f arm.operand).Binds (v arm.operand))
    (h : (arm.map f).tokens p = .ok ts) : Token.params ts = v arm.operand := by
  obtain ⟨keyword, -, h⟩ := bind_eq_ok h
  obtain ⟨statement, hstatement, h⟩ := bind_eq_ok h
  obtain ⟨operand, hoperand, h⟩ := bind_eq_ok h
  cases h
  have hoperand := (params_operandTokens hoperand).trans (hn statement hstatement)
  split <;> simp [hoperand]

theorem params_sectionTokens {t : Target} {s : Sections σ} {outermost : Bool}
    (hn : ∀ q ∈ s.nested, (f q).Binds (v q)) (h : sectionTokens t (s.map f) outermost = .ok ts) :
    Token.params ts = (s.map v).values t.profile := by
  obtain ⟨hctes, hn, harms⟩ := Sections.forall_mem_nested.1 hn
  obtain ⟨ctes, hctes', h⟩ := bind_eq_ok h
  have hctes := params_withTokens hctes hctes'
  unfold Sections.values
  split at h
  next hempty =>
    obtain ⟨head, hhead, h⟩ := bind_eq_ok h
    cases h
    have harms : s.arms = [] := by simpa using hempty
    have hhead := params_pagedTokens hn hhead
    simp [hctes, hhead, harms]
  next =>
    obtain ⟨paged, hpaged, h⟩ := bind_eq_ok h
    obtain ⟨head, hhead, h⟩ := bind_eq_ok h
    obtain ⟨arms, harms', h⟩ := bind_eq_ok h
    cases h
    have hhead := (params_operandTokens hhead).trans (params_pagedTokens hn hpaged)
    rw [Sections.map_arms, List.mapM_map] at harms'
    have harms := flatMap_params_mapM (fun arm harm _ => Arm.params_tokens (harms arm harm)) harms'
    simp [hctes, hhead, harms, List.flatMap_map, Arm.map]

end

/-! ## Parameters of queries -/

namespace Query

variable {t : Target} {q : Query} {ts : List (Token Value)}

theorem binds_nested (t : Target) (q : Query) : (q.nested t).Binds (q.values t.profile) := by
  induction q using Query.induction_inside with
  | step q ih =>
    intro ts h
    obtain ⟨s, hs, h⟩ := bind_eq_ok ((tokensAt_eq t q false).symm.trans h)
    rw [inside_eq hs] at ih
    rw [values_eq hs]
    exact params_sectionTokens ih h

/-- The parameters of a query are its values in the order of the text, wherever it stands. -/
theorem params_tokensAt (outermost : Bool) (h : q.tokensAt t outermost = .ok ts) :
    Token.params ts = q.values t.profile := by
  rw [tokensAt_eq] at h
  obtain ⟨s, hs, h⟩ := bind_eq_ok h
  rw [values_eq hs]
  exact params_sectionTokens (fun q _ => binds_nested t q) h

end Query

theorem Compiler.bindings_compile {c : Compiler} {q : Query} {r : Compiled} (h : c.compile q = .ok r) :
    r.bindings = (q.values c.dialect.profile).toArray := by
  obtain ⟨tokens, htokens, -, rfl⟩ := compile_eq_ok_iff.1 h
  rw [Query.params_tokensAt true htokens]
  rfl

end QueryCompiler
