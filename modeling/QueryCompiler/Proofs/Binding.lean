-- SUMMARY: Every emitter writes the tokens of its part, numbered in the order of the text; what a compilation returns; and that parameters and bindings match.
import QueryCompiler.Compiler
import QueryCompiler.Proofs.Nesting
import QueryCompiler.Proofs.Numbering
import QueryCompiler.Proofs.Truth

/-!
# Binding

The emitters share one context, and each of them binds values in the middle of its
own work. Still an emitter does no more than the tokens of its part say: it writes
these with their parameters numbered after the values that were bound before it,
binds the values at them in the order of the text, and leaves the depth as it was;
or it refuses the query for the same reason. The lemmas go from one emitter to the
next as the emitters call each other, and by induction on the query to whole
statements.
-/

namespace QueryCompiler

variable {σ : Type} {p : Profile} {c : Context}

/-! ## Steps -/

/-- What is computed without a context leaves it as it was. -/
theorem run_liftM {α : Type} (x : Except CompileError α) :
    (liftM x : Emitter α).run c = (fun a => (a, c)) <$> x := by
  cases x <;> rfl

theorem ok_bind {ε α β : Type} (a : α) (f : α → Except ε β) : Except.ok a >>= f = f a := rfl

theorem error_bind {ε α β : Type} (e : ε) (f : α → Except ε β) : Except.error e >>= f = .error e := rfl

theorem run_param (v : Value) : (Emitter.param v).run c = pure (.param c.bindings.size, c.bindAll [v]) := by
  have hbound : c.bindAll [v] = { c with bindings := ⟨c.bindings.values.push v⟩ } := by simp [Context.bindAll]
  rw [hbound]
  rfl

theorem run_mapM_param (values : List Value) :
    (values.mapM Emitter.param).run c
      = pure (Token.renumber c.bindings.size (values.map .param), c.bindAll values) := by
  induction values generalizing c with
  | nil => simp
  | cons v rest ih => simp [run_param, ih]

/-- Inside a statement, an emitter writes these tokens: it numbers them and binds the values at them, after
the values that are bound already. -/
abbrev Emitter.Writes (emit : Emitter (List (Token Nat))) (tokens : Emission) : Prop :=
  ∀ c : Context, 0 < c.depth → emit.run c = c.number <$> tokens

/-- What is emitted leads back to the tokens that are written. -/
theorem Emitter.Writes.exists_tokens {emit : Emitter (List (Token Nat))} {tokens : Emission}
    (h : emit.Writes tokens) (hc : 0 < c.depth) {ts : List (Token Nat)} {after : Context}
    (hrun : emit.run c = .ok (ts, after)) :
    ∃ list, tokens = .ok list ∧ c.number list = (ts, after) ∧ after.bindings.restore ts = list := by
  rw [h c hc] at hrun
  obtain ⟨list, hlist, hnumber⟩ := map_eq_ok hrun
  refine ⟨list, hlist, hnumber, ?_⟩
  rw [← c.restore_number list, hnumber]

/-- Only one list of tokens is written. -/
theorem Emitter.Writes.ok_iff {emit : Emitter (List (Token Nat))} {tokens : Emission} (h : emit.Writes tokens)
    {list : List (Token Value)} : emit.Writes (.ok list) ↔ tokens = .ok list := by
  constructor
  · intro hlist
    have hdepth : 0 < Context.depth { depth := 1 } := Nat.one_pos
    obtain ⟨list', htokens, -, hrestore⟩ := h.exists_tokens hdepth (hlist _ hdepth)
    rw [htokens, ← hrestore]
    exact congrArg Except.ok (Context.restore_number _ list)
  · rintro rfl
    exact h

/-- Parts that are each written are written one after the other. -/
theorem run_mapM {ι : Type} {emit : ι → Emitter (List (Token Nat))} {tokens : ι → Emission} (list : List ι)
    (h : ∀ x ∈ list, (emit x).Writes (tokens x)) (hc : 0 < c.depth) :
    (list.mapM emit).run c = c.numberAll <$> list.mapM tokens := by
  induction list generalizing c with
  | nil => simp [Context.numberAll, Token.renumberAll]
  | cons x rest ih =>
    rw [List.forall_mem_cons] at h
    have hrest (c : Context) (hc : 0 < c.depth) : (rest.mapM emit).run c = c.numberAll <$> rest.mapM tokens :=
      ih h.2 hc
    simp [h.1, hrest, hc, Context.number, Context.numberAll, Token.renumberAll]

/-! ## Names -/

theorem run_checkedReference (place : NamePlace) (name : String) :
    (liftM (p.checkedReference place name) : Emitter (List (Token Nat))).run c
      = c.number <$> p.checkedReference place name := by
  rw [run_liftM, Profile.checkedReference, Profile.checkedReference]
  cases checkName place name <;> simp [Context.number, Bind.bind, Except.bind]

/-! ## Fragments -/

namespace Fragment

theorem run_emitParts (list : List Part) (values : List Value) :
    (emitParts list values).run c = pure (c.number (fill list values)) := by
  induction list, values using fill.induct generalizing c with
  | case1 values => simp [emitParts, fill, Context.number]
  | case2 cs rest values ih => simp [emitParts, fill, ih, Context.number]
  | case3 rest v values ih => simp [emitParts, fill, ih, Context.number, run_param]
  | case4 rest ih => simp [emitParts, fill, ih]

theorem run_emit (f : Fragment) : f.emit.run c = c.number <$> f.tokens := by
  unfold emit tokens
  split
  · exact run_emitParts ..
  · rfl

end Fragment

/-! ## Nested queries -/

/-- Inside a statement, a nested query is written as its tokens. -/
structure Subquery.Writes (q : Subquery) (n : Nested) : Prop where
  emit : q.emit.Writes n.statement
  isDelimited : q.isDelimited = n.isDelimited

theorem Except.map_eq_functorMap {ε α β : Type} (f : α → β) (x : Except ε α) : x.map f = f <$> x := rfl

theorem Subquery.Writes.emitParenthesized {q : Subquery} {n : Nested} (h : q.Writes n) :
    q.emitParenthesized.Writes n.tokens := by
  intro c hc
  simp [Subquery.emitParenthesized, Nested.tokens, h.emit, hc, Except.map_eq_functorMap, Context.number]

variable {f : σ → Subquery} {g : σ → Nested}

/-! ## Conditions -/

theorem Operand.writes {operand : Operand σ} (hn : ∀ q ∈ operand.nested, (f q).Writes (g q)) :
    ((operand.map f).emit p).Writes ((operand.map g).tokens p) := by
  intro c hc
  cases operand with
  | value v =>
    simp [Operand.map, Operand.emit, Operand.tokens, run_param, Context.number]
    rfl
  | column name => exact run_checkedReference ..
  | query q => exact (hn q (List.mem_singleton_self q)).emitParenthesized c hc
  | raw fragment => exact fragment.run_emit

theorem writes_comparison {negated : Bool} {column : String} {op : Comparison} {operand : Operand σ}
    (hn : ∀ q ∈ operand.nested, (f q).Writes (g q)) :
    (emitComparison p negated column op (operand.map f)).Writes
      (comparison p negated column op (operand.map g)) := by
  intro c hc
  have hoperand := operand.writes (p := p) hn
  unfold emitComparison comparison
  rw [Comparison.nullTest?_map, Comparison.nullTest?_map]
  cases op.nullTest? operand with
  | some isNull => simp [Profile.checkedReference, Context.number]
  | none => cases negated <;> simp [Profile.checkedReference, hoperand, hc, Context.number]

theorem writes_membership {negated : Bool} {column : String} {values : List Value} :
    (emitMembership p negated column values).Writes (membership p negated column values) := by
  intro c hc
  unfold emitMembership membership
  split
  · simp [Profile.checkedReference, Context.number]
  · have hparams : (values.map fun v => [Token.value v]).flatMap Token.params = values := by
      simp [List.flatMap_map, Token.params_value]
    simp [Profile.checkedReference, run_mapM_param, Context.number, hparams, Token.renumberAll_values]

theorem writes_patternMatch {negated : Bool} {column pattern : String} {caseSensitive : Bool} :
    (emitPatternMatch p negated column pattern caseSensitive).Writes
      (patternMatch p negated column pattern caseSensitive) := by
  intro c hc
  unfold emitPatternMatch patternMatch
  cases caseSensitive with
  | true => simp [Profile.checkedReference, run_param, Context.number]
  | false => cases p.caselessMatch <;> simp [Profile.checkedReference, run_param, Context.number]

mutual

theorem Condition.writes (p : Profile) {condition : Condition σ}
    (hn : ∀ q ∈ condition.nested, (f q).Writes (g q)) :
    ((condition.map f).emit p).Writes ((condition.map g).tokens p) :=
  match condition with
  | ⟨_, _, _⟩ => Predicate.writes p hn

theorem Predicate.writes (p : Profile) {negated : Bool} {predicate : Predicate σ (Condition σ)}
    (hn : ∀ q ∈ Predicate.nested predicate, (f q).Writes (g q)) :
    (Predicate.emit p negated (Predicate.map f predicate)).Writes
      (Predicate.tokens p negated (Predicate.map g predicate)) := by
  intro c hc
  match predicate with
  | .compare column op operand => exact writes_comparison hn c hc
  | .inValues column values => exact writes_membership c hc
  | .inQuery column q =>
    have hq := (hn q (List.mem_singleton_self q)).emitParenthesized
    simp [Predicate.map, Predicate.emit, Predicate.tokens, Profile.checkedReference, Context.number, hq, hc]
  | .between column low high =>
    simp [Predicate.map, Predicate.emit, Predicate.tokens, Profile.checkedReference, Context.number, run_param]
  | .isNull column =>
    simp [Predicate.map, Predicate.emit, Predicate.tokens, Profile.checkedReference, Context.number]
  | .like column pattern caseSensitive => exact writes_patternMatch c hc
  | .exists q =>
    have hq := (hn q (List.mem_singleton_self q)).emitParenthesized
    simp [Predicate.map, Predicate.emit, Predicate.tokens, Context.number, hq, hc]
  | .group members =>
    have hmembers := Condition.run_emitEach p members hn
    simp [Predicate.map, Predicate.emit, Predicate.tokens, Context.number, Context.numberEach, hmembers, hc]
  | .raw fragment =>
    cases negated <;> simp [Predicate.map, Predicate.emit, Predicate.tokens, Context.number, fragment.run_emit]

theorem Condition.run_emitEach (p : Profile) (list : List (Condition σ))
    (hn : ∀ q ∈ Condition.nestedList list, (f q).Writes (g q)) (c : Context) (hc : 0 < c.depth) :
    (Condition.emitEach p (Condition.mapList f list)).run c
      = c.numberEach <$> Condition.tokensEach p (Condition.mapList g list) := by
  match list with
  | [] =>
    simp [Condition.mapList, Condition.emitEach, Condition.tokensEach, Context.numberEach, renumberEach]
    rfl
  | condition :: rest =>
    rw [Condition.nestedList, List.forall_mem_append] at hn
    rw [Condition.mapList, Condition.mapList, Condition.emitEach, Condition.tokensEach, Condition.isVacuous_map,
      Condition.isVacuous_map]
    split
    · exact Condition.run_emitEach p rest hn.2 c hc
    · have hfirst := Condition.writes p hn.1
      have hrest := Condition.run_emitEach p rest hn.2
      simp [hfirst, hrest, hc, Context.number, Context.numberEach, renumberEach, Condition.connector_map]

end

theorem Condition.writes_list (p : Profile) (list : List (Condition σ))
    (hn : ∀ q ∈ Condition.nestedList list, (f q).Writes (g q)) :
    (Condition.emitList p (Condition.mapList f list)).Writes
      (Condition.listTokens p (Condition.mapList g list)) := by
  intro c hc
  simp [Condition.emitList, Condition.listTokens, Condition.run_emitEach p list hn, hc, Except.map_eq_functorMap,
    Context.number, Context.numberEach]

/-! ## Selects -/

theorem Term.run_emit (place : NamePlace) (term : Term) : (term.emit p place).run c = c.number <$> term.tokens p place := by
  cases term with
  | column name => exact run_checkedReference ..
  | raw fragment => exact fragment.run_emit

theorem run_emitDirected (order : Term × Direction) :
    (emitDirected p order).run c = c.number <$> directedTokens p order := by
  obtain ⟨term, direction⟩ := order
  cases direction <;> simp [emitDirected, directedTokens, Term.run_emit, Context.number]

theorem writes_ordering {orders : List (Term × Direction)} : (emitOrdering p orders).Writes (orderingTokens p orders) := by
  intro c hc
  have horders := run_mapM orders (fun order _ c _ => run_emitDirected (p := p) order) hc
  simp [emitOrdering, orderingTokens, horders, Except.map_eq_functorMap, Context.number, Context.numberAll]

theorem writes_grouping {groups : List Term} : (emitGrouping p groups).Writes (groupingTokens p groups) := by
  intro c hc
  have hgroups := run_mapM groups (fun term _ c _ => term.run_emit (p := p) .groupBy) hc
  simp [emitGrouping, groupingTokens, hgroups, Except.map_eq_functorMap, Context.number, Context.numberAll]

theorem Selection.writes {item : Selection σ} (hn : ∀ q ∈ item.nested, (f q).Writes (g q)) :
    ((item.map f).emit p).Writes ((item.map g).tokens p) := by
  intro c hc
  cases item with
  | column column => simp [Selection.map, Selection.emit, Selection.tokens, Context.number]
  | raw fragment => exact fragment.run_emit
  | aggregate function name aliasName =>
    simp [Selection.map, Selection.emit, Selection.tokens, Profile.checkedReference, Context.number]
  | subquery q aliasName =>
    have hq := (hn q (List.mem_singleton_self q)).emitParenthesized
    simp [Selection.map, Selection.emit, Selection.tokens, Context.number, hq, hc]

theorem writes_selection {items : List (Selection σ)}
    (hn : ∀ item ∈ items, ∀ q ∈ item.nested, (f q).Writes (g q)) :
    (emitSelection p (items.map (Selection.map f))).Writes (selectionTokens p (items.map (Selection.map g))) := by
  intro c hc
  have hitems := run_mapM items (fun item hitem => Selection.writes (p := p) (hn item hitem)) hc
  unfold emitSelection selectionTokens
  rw [List.isEmpty_map, List.isEmpty_map, List.mapM_map, List.mapM_map]
  split
  · simp [Context.number]
    rfl
  · simp [hitems, Function.comp_def, Except.map_eq_functorMap, Context.number, Context.numberAll]

theorem Source.writes (place : NamePlace) {source : Source σ} (hn : ∀ q ∈ source.nested, (f q).Writes (g q)) :
    ((source.map f).emit p place).Writes ((source.map g).tokens p place) := by
  intro c hc
  cases source with
  | table name aliasName => simp [Source.map, Source.emit, Source.tokens, Context.number]
  | subquery q aliasName =>
    have hq := (hn q (List.mem_singleton_self q)).emitParenthesized
    simp [Source.map, Source.emit, Source.tokens, Context.number, hq, hc]
  | raw fragment => exact fragment.run_emit

theorem Source.label_map {τ : Type} (h : σ → τ) (source : Source σ) : (source.map h).label = source.label := by
  cases source <;> rfl

theorem Join.check_map {τ : Type} (h : σ → τ) (j : Join σ) : (j.map h).check p = j.check p := by
  unfold Join.check Join.map
  rw [Condition.mapList_eq_map, List.isEmpty_map, Source.label_map]

theorem Join.writes_conditions {j : Join σ} (hn : ∀ q ∈ j.nested, (f q).Writes (g q)) :
    ((j.map f).emitConditions p).Writes ((j.map g).conditionTokens p) := by
  intro c hc
  have hlist := Condition.writes_list p j.conditions fun q hq => hn q (List.mem_append_right _ hq)
  unfold Join.emitConditions Join.conditionTokens
  simp only [Join.map, Source.label_map]
  split
  · simp [Context.number]
    rfl
  · rw [StateT.run_bind, hlist c hc]
    cases Condition.listTokens p (Condition.mapList g j.conditions) with
    | error e => rfl
    | ok tokens =>
      cases tokens with
      | nil => rfl
      | cons t tokens => rfl

theorem Join.writes {j : Join σ} (hn : ∀ q ∈ j.nested, (f q).Writes (g q)) :
    ((j.map f).emit p).Writes ((j.map g).tokens p) := by
  intro c hc
  have hsource : ((j.map f).source.emit p .join).Writes ((j.map g).source.tokens p .join) :=
    Source.writes .join fun q hq => hn q (List.mem_append_left _ hq)
  have hconditions := Join.writes_conditions (p := p) hn
  have hkind : (j.map f).kind = j.kind ∧ (j.map g).kind = j.kind := ⟨rfl, rfl⟩
  unfold Join.emit Join.tokens
  rw [Join.check_map, Join.check_map, hkind.1, hkind.2]
  simp [hsource, hconditions, hc, Context.number]

theorem writes_numbering {t : Target} {orders : List (Term × Direction)} :
    (emitNumbering t orders).Writes (numberingTokens t orders) := by
  intro c hc
  unfold emitNumbering numberingTokens
  cases orders with
  | nil =>
    have hnone : orderingTokens t.profile [] = pure [] := rfl
    simp [numberingColumn, Context.number, hnone]
  | cons order orders => simp [numberingColumn, Context.number, writes_ordering c hc]

theorem Shape.run_emitTop (shape : Shape) : shape.emitTop.run c = pure (c.number shape.topTokens) := by
  cases shape <;> simp [emitTop, topTokens, run_param, Context.number]

theorem Shape.writes_number {t : Target} {orders : List (Term × Direction)} {shape : Shape} :
    (shape.emitNumber t orders).Writes (shape.numberTokens t orders) := by
  intro c hc
  cases shape with
  | numbered => simp [emitNumber, numberTokens, writes_numbering c hc, Context.number]
  | plain | top | unordered =>
    simp [emitNumber, numberTokens, Context.number]
    rfl

theorem Shape.writes_order {orders : List (Term × Direction)} {shape : Shape} :
    (shape.emitOrder p orders).Writes (shape.orderTokens p orders) := by
  intro c hc
  cases shape with
  | plain | top => exact writes_ordering c hc
  | numbered | unordered =>
    simp [emitOrder, orderTokens, Context.number]
    rfl

theorem writes_from {source : Option (Source σ)} (hn : ∀ s ∈ source, ∀ q ∈ s.nested, (f q).Writes (g q)) :
    (emitFrom p (source.map (Source.map f))).Writes (fromTokens p (source.map (Source.map g))) := by
  intro c hc
  cases source with
  | none => rfl
  | some source =>
    have hsource := Source.writes (p := p) .from (hn source rfl)
    simp [emitFrom, fromTokens, hsource, hc, Context.number]

/-- Inside a statement, a SELECT is written as its tokens. -/
theorem writes_select {t : Target} {s : Sections σ} (shape : Shape)
    (hn : ∀ q ∈ s.selectNested, (f q).Writes (g q)) :
    (emitSelect t (s.map f) shape).Writes (selectTokens t (s.map g) shape) := by
  obtain ⟨hitems, hsource, hjoins, hfilters, hhavings⟩ := Sections.forall_mem_selectNested.1 hn
  intro c hc
  have hitems := writes_selection (p := t.profile) hitems
  have hsource := writes_from (p := t.profile) hsource
  have hjoins (c : Context) (hc : 0 < c.depth) : (s.joins.mapM (Join.emit t.profile ∘ Join.map f)).run c
      = c.numberAll <$> s.joins.mapM (Join.tokens t.profile ∘ Join.map g) :=
    run_mapM s.joins (fun j hj => Join.writes (hjoins j hj)) hc
  have hfilters := Condition.writes_list t.profile s.filters hfilters
  have hhavings := Condition.writes_list t.profile s.havings hhavings
  cases hdistinct : s.distinct <;>
    simp [emitSelect, selectTokens, hdistinct, Shape.run_emitTop, hitems, Shape.writes_number, hsource, hjoins,
      hfilters, writes_grouping, hhavings, Shape.writes_order, hc, Context.number, Context.numberAll, Nat.add_assoc]

/-! ## Pages -/

theorem run_emitOrdinalTest {name : String} {op : Symbol} {bound : Int64} :
    (emitOrdinalTest (p.aliasToken name) op bound).run c
      = pure (c.number (ordinalTest (p.aliasToken name) op bound)) := by
  simp [emitOrdinalTest, ordinalTest, run_param, Context.number]

theorem run_emitPageTest {name : String} (page : Page) :
    (emitPageTest (p.aliasToken name) page).run c = pure (c.number (pageTest (p.aliasToken name) page)) := by
  obtain ⟨limit, offset⟩ := page
  cases limit <;> cases offset <;> simp [emitPageTest, pageTest, run_emitOrdinalTest, Context.number]

theorem run_emitPageTest_rowNum (page : Page) :
    (emitPageTest rowNumToken page).run c = pure (c.number (pageTest rowNumToken page)) := by
  obtain ⟨limit, offset⟩ := page
  cases limit <;> cases offset <;>
    simp [emitPageTest, pageTest, emitOrdinalTest, ordinalTest, rowNumToken, run_param, Context.number]

theorem run_emitLimit (page : Page) : (emitLimit p page).run c = pure (c.number (limitTokens p page)) := by
  obtain ⟨limit, offset⟩ := page
  cases limit <;> cases offset <;> cases hlone : p.loneOffset <;>
    simp [emitLimit, limitTokens, emitRows, run_param, hlone, Context.number]

section

variable {t : Target} {s : Sections σ}

theorem writes_numberedRows (hn : ∀ q ∈ s.selectNested, (f q).Writes (g q)) :
    (emitNumberedRows t (s.map f)).Writes (numberedRows t (s.map g)) := by
  intro c hc
  have hselect (shape : Shape) := writes_select (t := t) shape hn
  unfold emitNumberedRows numberedRows
  rw [Sections.map_distinct, Sections.map_distinct]
  split
  · simp [emitNumberedDistinct, numberedDistinct, Term.output_map, writes_numbering, hselect, hc,
      Context.number]
  · exact hselect .numbered c hc

/-- Inside a statement, a SELECT with its page cut out is written as its tokens. -/
theorem writes_paged (outermost : Bool) (hn : ∀ q ∈ s.selectNested, (f q).Writes (g q)) :
    (emitPaged t (s.map f) outermost).Writes (pagedTokens t (s.map g) outermost) := by
  intro c hc
  have hselect (shape : Shape) := writes_select (t := t) shape hn
  unfold emitPaged pagedTokens
  rw [Sections.map_page, Sections.map_page]
  cases Plan.ofPage t.profile.paging s.page with
  | whole => exact hselect .plain c hc
  | limitOffset page =>
    simp [hselect, hc, run_emitLimit, Except.map_eq_functorMap, Context.number]
  | top rows => exact hselect (.top rows) c hc
  | rowNumber page =>
    have hrows := writes_numberedRows (t := t) hn
    cases horder : outermost && !s.orders.isEmpty <;>
      simp [emitRowNumberPage, rowNumberPage, hrows, hc, run_emitPageTest, horder, Context.number]
  | rowNum page =>
    have htest (c : Context) := run_emitPageTest_rowNum (c := c) page
    cases hoffset : page.offset with
    | none => simp [emitRowNumPage, rowNumPage, hselect, hc, htest, hoffset, Context.number]
    | some offset =>
      simp [emitRowNumPage, rowNumPage, hselect, hc, run_emitPageTest, hoffset, rowNumRows, rowNumToken,
        Context.number]

end

/-! ## Statements -/

theorem writes_with {ctes : List (String × σ)} (hn : ∀ cte ∈ ctes, (f cte.2).Writes (g cte.2)) :
    (emitWith p (ctes.map (Prod.map id f))).Writes (withTokens p (ctes.map (Prod.map id g))) := by
  intro c hc
  have hcte : ∀ cte ∈ ctes, (emitCte p (Prod.map id f cte)).Writes (cteTokens p (Prod.map id g cte)) := by
    intro cte hcte c hc
    have hq := (hn cte hcte).emitParenthesized
    simp [emitCte, cteTokens, hq, hc, Context.number]
  have hctes := run_mapM ctes hcte hc
  unfold emitWith withTokens
  rw [List.isEmpty_map, List.isEmpty_map, List.mapM_map, List.mapM_map]
  split
  · simp [Context.number]
    rfl
  · simp [hctes, Function.comp_def, Context.number, Context.numberAll]

theorem Arm.writes {arm : Arm σ} (hn : (f arm.operand).Writes (g arm.operand)) :
    ((arm.map f).emit p).Writes ((arm.map g).tokens p) := by
  intro c hc
  cases hall : arm.all <;> cases hdelimited : (g arm.operand).isDelimited <;> cases hparens : p.hasOperandParens <;>
    simp [Arm.emit, Arm.tokens, Arm.map, operandTokens, hall, hn.isDelimited, hdelimited, hparens, hn.emit, hc,
      Context.number]

/-- Inside a statement, a statement is written as its tokens; it is the outermost one when no other query
is being emitted. -/
theorem run_emitSections {t : Target} {s : Sections σ} (hn : ∀ q ∈ s.nested, (f q).Writes (g q))
    (hc : 0 < c.depth) :
    (emitSections t (s.map f)).run c = c.number <$> sectionTokens t (s.map g) (c.depth == 1) := by
  obtain ⟨hctes, hselect, harms⟩ := Sections.forall_mem_nested.1 hn
  have hctes := writes_with (p := t.profile) hctes
  have hpaged (outermost : Bool) := writes_paged (t := t) outermost hselect
  have harms (c : Context) (hc : 0 < c.depth) : (s.arms.mapM (Arm.emit t.profile ∘ Arm.map f)).run c
      = c.numberAll <$> s.arms.mapM (Arm.tokens t.profile ∘ Arm.map g) :=
    run_mapM s.arms (fun arm harm => Arm.writes (harms arm harm)) hc
  have hmapped : (s.map f).isDelimited = s.isDelimited ∧ (s.map g).isDelimited = s.isDelimited := ⟨rfl, rfl⟩
  by_cases hempty : s.arms = []
  · simp [emitSections, sectionTokens, hempty, hctes, hpaged, Emitter.isOutermost, hc, Context.number]
  · have hsome : s.arms.isEmpty = false := by simpa using hempty
    cases hdelimited : s.isDelimited <;> cases hparens : t.profile.hasOperandParens <;>
      simp [emitSections, sectionTokens, hsome, hctes, hpaged, harms, hmapped.1, hmapped.2, hdelimited,
        hparens, operandTokens, ok_bind, error_bind, Emitter.isOutermost, hc, Context.number, Context.numberAll,
        Nat.add_assoc]

/-! ## Queries -/

/-- The context of a query that is emitted inside those that are being emitted already. -/
def Context.deeper (c : Context) : Context :=
  { c with depth := c.depth + 1 }

theorem run_deeper {emit : Emitter (List (Token Nat))} {tokens : Emission}
    (h : emit.run c.deeper = c.deeper.number <$> tokens) : (Emitter.deeper emit).run c = c.number <$> tokens := by
  have hrun : (Emitter.deeper emit).run c
      = (fun r => (r.1, { r.2 with depth := r.2.depth - 1 })) <$> emit.run c.deeper := by
    simp [Emitter.deeper, Context.deeper]
  rw [hrun, h, ← comp_map]
  rfl

namespace Query

variable {t : Target} {clauses : Clauses Query}

theorem subquery_mk (t : Target) (clauses : Clauses Query) :
    Query.subquery t ⟨clauses⟩ = Subquery.ofClauses t (clauses.map (Clause.map (Query.subquery t))) :=
  fold_mk (Subquery.ofClauses t) clauses

theorem run_emitStatement
    (hn : ∀ clause ∈ clauses, ∀ q ∈ clause.nested, (q.subquery t).Writes (q.nested t)) (hc : 0 < c.depth) :
    (emitStatement t (clauses.map (Clause.map (Query.subquery t)))).run c
      = c.number <$> statementTokens t (c.depth == 1) (clauses.map (Clause.map (Query.nested t))) := by
  unfold emitStatement statementTokens
  rw [Sections.ofClauses_map, Sections.ofClauses_map]
  cases hs : Sections.ofClauses clauses with
  | error e => rfl
  | ok s =>
    have hholds : s.Holds (fun q => (q.subquery t).Writes (q.nested t)) fun _ => True :=
      Sections.holds_ofClauses (fun clause hclause => ⟨hn clause hclause, fun _ _ => trivial⟩) hs
    exact run_emitSections hholds.nested hc

/-- Inside a statement, a nested query is written as its tokens, wherever it stands. -/
theorem writes (t : Target) (q : Query) : (q.subquery t).Writes (q.nested t) := by
  induction q using Query.induction with
  | step clauses ih =>
    rw [subquery_mk, nested_mk]
    constructor
    case emit =>
      intro c hc
      have hdepth : (c.deeper.depth == 1) = false := by
        simp [Context.deeper, Nat.ne_of_gt hc]
      have hstatement := run_emitStatement ih (c := c.deeper) (Nat.succ_pos _)
      rw [hdepth] at hstatement
      exact run_deeper hstatement
    case isDelimited =>
      rw [Subquery.ofClauses, Nested.ofClauses]
      dsimp only
      rw [Clauses.isOrdered, Clauses.isOrdered, Clauses.isPaged, Clauses.isPaged, Clauses.orders_map,
        Clauses.orders_map, Clauses.page_map, Clauses.page_map, Clauses.hasSetOperations_map,
        Clauses.hasSetOperations_map]

/-- Emitting a query numbers its tokens after the values that are bound already and binds the values at them,
or refuses the query. It makes no difference how deep inside it is, but only whether it is inside at all. -/
theorem run_emit (t : Target) (q : Query) (c : Context) :
    (q.emit t).run c = c.number <$> q.tokensAt t (c.depth == 0) := by
  obtain ⟨clauses⟩ := q
  have hstatement : (emitStatement t (clauses.map (Clause.map (Query.subquery t)))).run c.deeper
      = c.deeper.number <$> statementTokens t (c.depth + 1 == 1) (clauses.map (Clause.map (Query.nested t))) :=
    run_emitStatement (fun _ _ q _ => writes t q) (Nat.succ_pos _)
  have htokens : statementTokens t (c.depth + 1 == 1) (clauses.map (Clause.map (Query.nested t)))
      = Query.tokensAt t ⟨clauses⟩ (c.depth == 0) := by
    cases c.depth with
    | zero => rfl
    | succ depth => 
      have hinside : (depth + 1 + 1 == 1) = false := by simp
      rw [hinside, tokensAt, nested_mk]
      rfl
  rw [htokens] at hstatement
  rw [Query.emit, subquery_mk]
  exact run_deeper hstatement

end Query

/-! ## Compiled queries -/

namespace Compiler

/-- A compilation numbers the tokens of the query from zero and counts the values at them. -/
theorem compile_eq (c : Compiler) (q : Query) :
    c.compile q = q.tokens c.target >>= fun tokens =>
      if c.bindingLimit < (Token.params tokens).length then
        .error (.tooManyBindings c.dialect.name c.bindingLimit (Token.params tokens).length)
      else .ok ⟨c.dialect, Token.renumber 0 tokens, (Token.params tokens).toArray⟩ := by
  have hrun : (q.emit c.target).run {} = ({} : Context).number <$> q.tokens c.target := q.run_emit c.target {}
  rw [compile, hrun]
  cases q.tokens c.target with
  | error e => rfl
  | ok tokens =>
    simp only [Functor.map, Except.map, ok_bind, Context.number_empty, Bindings.size, List.size_toArray]
    split <;> rfl

/-- A compilation succeeds exactly when the query is emitted and binds no more values than it may.
The result holds the emitted tokens with their parameters numbered, and the values at these. -/
theorem compile_eq_ok_iff {c : Compiler} {q : Query} {r : Compiled} :
    c.compile q = .ok r ↔
      ∃ tokens, q.tokens c.target = .ok tokens ∧ (Token.params tokens).length ≤ c.bindingLimit ∧
        r = ⟨c.dialect, Token.renumber 0 tokens, (Token.params tokens).toArray⟩ := by
  rw [compile_eq]
  cases q.tokens c.target with
  | error e => simp [error_bind]
  | ok tokens =>
    rw [ok_bind]
    by_cases hlimit : c.bindingLimit < (Token.params tokens).length
    · simp [hlimit, Nat.not_le.2 hlimit]
    · simp [hlimit, Nat.not_lt.1 hlimit, eq_comm]

/-- What a compilation returns is what the query is emitted as in a fresh context. -/
theorem run_emit_of_compile {c : Compiler} {q : Query} {r : Compiled} (h : c.compile q = .ok r) :
    (q.emit c.target).run {} = .ok (r.tokens, { bindings := ⟨r.bindings⟩ }) := by
  obtain ⟨tokens, htokens, -, rfl⟩ := compile_eq_ok_iff.1 h
  have htokens : q.tokensAt c.target true = .ok tokens := htokens
  have hrun : (q.emit c.target).run {} = ({} : Context).number <$> q.tokensAt c.target true := q.run_emit c.target {}
  rw [hrun, htokens, ← Context.number_empty]
  rfl

/-- The parameters of a compiled query count from zero to the number of its bindings, each once and
in the order of the text. So the inline text never needs the spelling of a missing value. -/
theorem params_compile (c : Compiler) (q : Query) (r : Compiled) (h : c.compile q = .ok r) :
    Token.params r.tokens = List.range r.bindings.size ∧
    r.paramCount = r.bindings.size ∧
    ∀ missing : Nat → String,
      r.inlineSql = Token.textOf r.dialect.profile
        (fun i => match r.bindings[i]? with
          | some v => v.literal r.dialect.profile
          | none => missing i) r.tokens := by
  obtain ⟨tokens, -, -, rfl⟩ := compile_eq_ok_iff.1 h
  have hparams : Token.params (Token.renumber 0 tokens) = List.range (Token.params tokens).length := by
    rw [Token.params_renumber, List.range_eq_range']
  refine ⟨by simpa using hparams, by simp [Compiled.paramCount, hparams], fun missing => ?_⟩
  apply Token.textOf_congr
  intro i hi
  rw [hparams, List.mem_range] at hi
  simp [hi, Value.literal]

/-- A page of rows that are filtered by a page of a join written by hand. -/
def nestedPage : Query :=
  ⟨[.from (.table "users" none),
    .filter ⟨.and, true, .inQuery "id"
      ⟨[.from (.raw ⟨"a JOIN b ON x = ? AND y = ?", [.int 7, .null]⟩), .limit 3]⟩⟩,
    .orderBy (.column "name") .desc, .limit 10, .offset 20]⟩

theorem params_compile_nestedPage :
    ∃ r, (⟨.tsql, {}⟩ : Compiler).compile nestedPage = .ok r ∧
      r.bindings = #[.int 3, .int 7, .null, .int 21, .int 31] ∧
      Token.params r.tokens = [0, 1, 2, 3, 4] ∧ r.paramCount = 5 := by
  obtain ⟨hparams, hcount, -⟩ := params_compile ⟨.tsql, {}⟩ nestedPage _ rfl
  exact ⟨_, rfl, rfl, hparams, hcount⟩

end Compiler

end QueryCompiler
