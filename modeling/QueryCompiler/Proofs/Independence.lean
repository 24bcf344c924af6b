-- SUMMARY: The text does not depend on the bound values: queries of the same shape are emitted alike.
import QueryCompiler.Proofs.Binding
import QueryCompiler.Proofs.Shape

/-!
# Independence of values

An outline is what is left of tokens when the values are taken from their
parameters; numbering looks at nothing else. One lemma for each emitter says
that parts of the same shape are emitted with the same outline or refused with
the same error, from operands up to whole queries.
-/

namespace QueryCompiler

/-! ## Outlines -/

namespace Token

/-- Tokens without the values at their parameters. -/
def outline (tokens : List (Token Value)) : List (Token Unit) :=
  tokens.map (Token.map fun _ => ())

/-- Tokens that differ only in the values at their parameters. -/
@[simp] abbrev SameOutline (a b : List (Token Value)) : Prop :=
  outline a = outline b

variable {a b a' b' : List (Token Value)}

@[simp] theorem outline_nil : outline [] = [] := rfl

@[simp] theorem outline_cons (t : Token Value) (rest : List (Token Value)) :
    outline (t :: rest) = t.map (fun _ => ()) :: outline rest := rfl

@[simp] theorem outline_append (a b : List (Token Value)) : outline (a ++ b) = outline a ++ outline b :=
  List.map_append

@[simp] theorem map_value (v : Value) : (value v).map (fun _ => ()) = .param () := rfl

@[simp] theorem outline_parenthesized (a : List (Token Value)) :
    outline (parenthesized a) = parenthesized (outline a) := by
  simp [parenthesized, Token.map]

@[simp] theorem outline_flatten (groups : List (List (Token Value))) :
    outline groups.flatten = (groups.map outline).flatten := by
  rw [outline, List.map_flatten]
  rfl

@[simp] theorem outline_commaSeparated (groups : List (List (Token Value))) :
    outline (commaSeparated groups) = commaSeparated (groups.map outline) := by
  induction groups with
  | nil => rfl
  | cons group rest ih =>
    cases rest with
    | nil => simp [commaSeparated, List.intercalate]
    | cons next rest =>
      simp only [commaSeparated, List.intercalate, List.intersperse, List.flatten_cons, List.map_cons,
        outline_append] at ih ⊢
      rw [ih]
      rfl

theorem map_outline_congr {groups groups' : List (List (Token Value))}
    (h : List.Forall₂ SameOutline groups groups') : groups.map outline = groups'.map outline := by
  induction h with
  | nil => rfl
  | cons hg _ ih => rw [List.map_cons, List.map_cons, hg, ih]

theorem isEmpty_congr (h : SameOutline a b) : a.isEmpty = b.isEmpty := by
  have hlength := congrArg List.isEmpty h
  simpa [outline] using hlength

theorem outline_sectionOf (k : Keyword) (h : SameOutline a b) :
    SameOutline (sectionOf k a) (sectionOf k b) := by
  unfold sectionOf
  rw [isEmpty_congr h]
  split
  · rfl
  · rw [SameOutline, outline_append, outline_append, h]

/-- Numbers take the place of the values, so the numbered tokens are a matter of the outline. -/
theorem renumber_congr (h : SameOutline a b) (n : Nat) : renumber n a = renumber n b := by
  induction a generalizing b n with
  | nil =>
    cases b with
    | nil => rfl
    | cons u rest => cases h
  | cons t rest ih =>
    cases b with
    | nil => cases h
    | cons u rest' =>
      obtain ⟨htoken, hrest⟩ := List.cons.inj h
      have hmap : t.map (fun _ => n) = u.map (fun _ => n) := by
        cases t <;> cases u <;> cases htoken <;> rfl
      have hcount : t.param?.toList.length = u.param?.toList.length := by
        cases t <;> cases u <;> cases htoken <;> rfl
      rw [renumber, renumber, hmap, hcount, ih hrest]

theorem length_params_congr (h : SameOutline a b) : (params a).length = (params b).length := by
  have hnumbers := congrArg params (renumber_congr h 0)
  simpa [params_renumber] using congrArg List.length hnumbers

end Token

/-- Emissions with the same outline or the same error. -/
abbrev SameEmission (x y : Emission) : Prop :=
  Agree Token.SameOutline x y

structure Nested.SameEmission (n n' : Nested) : Prop where
  statement : QueryCompiler.SameEmission n.statement n'.statement
  isDelimited : n.isDelimited = n'.isDelimited

theorem SameEmission.refl (x : Emission) : SameEmission x x :=
  Agree.of_eq (R := Token.SameOutline) (fun _ => rfl) x

variable {p : Profile}

/-! ## Fragments and operands -/

theorem Fragment.outline_fill (parts : List Fragment.Part) {values values' : List Value}
    (h : values.length = values'.length) :
    Token.SameOutline (Fragment.fill parts values) (Fragment.fill parts values') := by
  induction parts generalizing values values' with
  | nil => rfl
  | cons part rest ih =>
    cases part with
    | text cs => simp [Fragment.fill, ih h]
    | marker =>
      cases values with
      | nil =>
        rw [List.eq_nil_of_length_eq_zero h.symm]
      | cons v values =>
        obtain ⟨v', values', rfl⟩ := List.exists_cons_of_length_eq_add_one h.symm
        simp [Fragment.fill, Token.map, ih (Nat.succ.inj h)]

theorem Fragment.SameShape.sameEmission {f f' : Fragment} (h : f.SameShape f') :
    SameEmission f.tokens f'.tokens := by
  have hcount : f.markerCount = f'.markerCount := by
    rw [markerCount, markerCount, h.text]
  unfold Fragment.tokens
  rw [hcount, h.text, h.bindings]
  split
  · exact .ok (outline_fill _ h.bindings)
  · exact .error _

theorem Nested.SameEmission.tokens {n n' : Nested} (h : n.SameEmission n') :
    QueryCompiler.SameEmission n.tokens n'.tokens := by
  refine h.statement.map ?_
  intro a b hab
  simp [hab]

theorem Operand.SameShape.sameEmission {operand operand' : Operand Nested} {op : Comparison}
    (h : Operand.SameShape Nested.SameEmission operand operand' op) :
    SameEmission (operand.tokens p) (operand'.tokens p) := by
  cases h with
  | value h => exact .ok rfl
  | column name => exact .refl _
  | query h => exact h.tokens
  | raw h => exact h.sameEmission

theorem Operand.SameShape.nullTest?_eq {operand operand' : Operand Nested} {op : Comparison}
    (h : Operand.SameShape Nested.SameEmission operand operand' op) :
    op.nullTest? operand = op.nullTest? operand' := by
  cases h with
  | @value v v' op h =>
    cases op with
    | eq | ne =>
      have hnull := h (by simp)
      cases v <;> cases v' <;> simp_all [Comparison.nullTest?]
    | lt | le | gt | ge => cases v <;> cases v' <;> rfl
  | column | query | raw => rfl

/-! ## Conditions -/

section

variable {negated : Bool}

theorem sameEmission_comparison {column : String} {op : Comparison} {operand operand' : Operand Nested}
    (h : Operand.SameShape Nested.SameEmission operand operand' op) :
    SameEmission (comparison p negated column op operand) (comparison p negated column op operand') := by
  unfold comparison
  refine Agree.bind_same _ ?_
  intro subject
  rw [h.nullTest?_eq]
  split
  · exact .ok rfl
  · refine Agree.bind h.sameEmission ?_
    intro object object' hobject
    refine .ok ?_
    cases negated <;> simp [hobject]

theorem sameEmission_membership {column : String} {values values' : List Value}
    (h : values.length = values'.length) :
    SameEmission (membership p negated column values) (membership p negated column values') := by
  have hempty : values.isEmpty = values'.isEmpty := by
    cases values <;> cases values' <;> simp_all
  have hlist : (values.map fun v => [Token.value v]).map Token.outline
      = (values'.map fun v => [Token.value v]).map Token.outline := by
    simp [Function.comp_def, h]
  unfold membership
  refine Agree.bind_same _ ?_
  intro subject
  rw [hempty]
  split
  · exact .ok rfl
  · refine .ok ?_
    simp only [Token.SameOutline, Token.outline_append, Token.outline_parenthesized,
      Token.outline_commaSeparated, hlist]

theorem sameEmission_patternMatch {column pattern pattern' : String} {caseSensitive : Bool} :
    SameEmission (patternMatch p negated column pattern caseSensitive)
      (patternMatch p negated column pattern' caseSensitive) := by
  unfold patternMatch
  refine Agree.bind_same _ ?_
  intro subject
  cases caseSensitive with
  | true =>
    simp only [if_true]
    exact .ok (by simp)
  | false =>
    simp only [Bool.false_eq_true, if_false]
    cases p.caselessMatch <;> exact .ok (by simp)

end

/-- Emitted conditions with the same connectors and outlines. -/
abbrev SameEntry (e e' : Connector × List (Token Value)) : Prop :=
  e.1 = e'.1 ∧ Token.SameOutline e.2 e'.2

theorem outline_connect {list list' : List (Connector × List (Token Value))}
    (h : List.Forall₂ SameEntry list list') : Token.SameOutline (connect list) (connect list') := by
  cases h with
  | nil => rfl
  | @cons _ _ rest rest' hfirst hrest =>
    have hmore : Token.SameOutline (rest.flatMap fun e => Token.spaced e.1.keyword ++ e.2)
        (rest'.flatMap fun e => Token.spaced e.1.keyword ++ e.2) := by
      induction hrest with
      | nil => rfl
      | cons h _ ih => simp [h.1, h.2, ih]
    simp only [connect, Token.SameOutline, Token.outline_append, hfirst.2, hmore]

mutual

theorem Condition.SameShape.isVacuous_eq {R : Nested → Nested → Prop} {c c' : Condition Nested}
    (h : Condition.SameShape R c c') : c.isVacuous = c'.isVacuous :=
  match c, c', h with
  | _, _, .mk h => Predicate.SameShape.isVacuous_eq h

theorem Predicate.SameShape.isVacuous_eq {R : Nested → Nested → Prop}
    {predicate predicate' : Predicate Nested (Condition Nested)}
    (h : Predicate.SameShape R predicate predicate') :
    Predicate.isVacuous predicate = Predicate.isVacuous predicate' := by
  match predicate, predicate', h with
  | _, _, .group h => exact Condition.allVacuous_congr h
  | _, _, .compare .. | _, _, .inValues .. | _, _, .inQuery .. | _, _, .between .. | _, _, .isNull ..
  | _, _, .like .. | _, _, .exists .. | _, _, .raw .. => rfl

theorem Condition.allVacuous_congr {R : Nested → Nested → Prop} {list list' : List (Condition Nested)}
    (h : List.Forall₂ (Condition.SameShape R) list list') :
    Condition.allVacuous list = Condition.allVacuous list' :=
  match list, list', h with
  | _, _, .nil => rfl
  | _, _, .cons h hrest => by
    rw [Condition.allVacuous, Condition.allVacuous, Condition.SameShape.isVacuous_eq h,
      Condition.allVacuous_congr hrest]

end

mutual

theorem Condition.SameShape.sameEmission {c c' : Condition Nested}
    (h : Condition.SameShape Nested.SameEmission c c') : SameEmission (c.tokens p) (c'.tokens p) :=
  match c, c', h with
  | _, _, .mk h => Predicate.SameShape.sameEmission h

theorem Predicate.SameShape.sameEmission {negated : Bool}
    {predicate predicate' : Predicate Nested (Condition Nested)}
    (h : Predicate.SameShape Nested.SameEmission predicate predicate') :
    SameEmission (Predicate.tokens p negated predicate) (Predicate.tokens p negated predicate') := by
  match predicate, predicate', h with
  | _, _, .compare column h => exact sameEmission_comparison h
  | _, _, .inValues column h => exact sameEmission_membership h
  | _, _, .inQuery column h =>
    apply Agree.bind_same
    intro subject
    apply Agree.bind h.tokens
    intro query query' hquery
    exact .ok (by simp [hquery])
  | _, _, .between column low high low' high' =>
    apply Agree.bind_same
    intro subject
    exact .ok (by simp)
  | _, _, .isNull column => exact SameEmission.refl _
  | _, _, .like column pattern pattern' caseSensitive => exact sameEmission_patternMatch
  | _, _, .exists h =>
    apply Agree.bind h.tokens
    intro query query' hquery
    exact .ok (by simp [hquery])
  | _, _, .group h =>
    apply Agree.bind (Condition.sameEmission_tokensEach h)
    intro members members' hmembers
    have hconnect := outline_connect hmembers
    exact .ok (by simp [hconnect])
  | _, _, .raw h =>
    apply Agree.bind h.sameEmission
    intro tokens tokens' htokens
    refine .ok ?_
    cases negated <;> simp [htokens]

theorem Condition.sameEmission_tokensEach {list list' : List (Condition Nested)}
    (h : List.Forall₂ (Condition.SameShape Nested.SameEmission) list list') :
    Agree (List.Forall₂ SameEntry) (Condition.tokensEach p list) (Condition.tokensEach p list') := by
  match list, list', h with
  | _, _, .nil => exact .ok .nil
  | c :: _, c' :: _, .cons h hrest =>
    rw [Condition.tokensEach, Condition.tokensEach, h.isVacuous_eq]
    split
    · exact Condition.sameEmission_tokensEach hrest
    · apply Agree.bind (Condition.SameShape.sameEmission h)
      intro tokens tokens' htokens
      apply Agree.bind (Condition.sameEmission_tokensEach hrest)
      intro more more' hmore
      have hconnector : c.connector = c'.connector := by
        cases h
        rfl
      exact .ok (.cons ⟨hconnector, htokens⟩ hmore)

end

theorem Condition.sameEmission_listTokens {list list' : List (Condition Nested)}
    (h : List.Forall₂ (Condition.SameShape Nested.SameEmission) list list') :
    SameEmission (Condition.listTokens p list) (Condition.listTokens p list') :=
  (Condition.sameEmission_tokensEach h).map fun _ _ => outline_connect

/-! ## Terms and the select list -/

/-- Orders of the same shape. -/
abbrev SameOrder (o o' : Term × Direction) : Prop :=
  o.1.SameShape o'.1 ∧ o.2 = o'.2

theorem Term.SameShape.sameEmission {place : NamePlace} {term term' : Term} (h : term.SameShape term') :
    SameEmission (term.tokens p place) (term'.tokens p place) := by
  cases h with
  | column name => exact SameEmission.refl _
  | raw h => exact h.sameEmission

theorem sameEmission_directedTokens {order order' : Term × Direction} (h : SameOrder order order') :
    SameEmission (directedTokens p order) (directedTokens p order') := by
  unfold directedTokens
  refine Agree.bind h.1.sameEmission ?_
  intro tokens tokens' htokens
  rw [h.2]
  cases order'.2 <;> exact .ok (by simp [htokens])

/-- Lists of parts with commas between them. -/
private theorem sameEmission_list {α : Type} {T : α → α → Prop} {emit : α → Emission} {list list' : List α}
    (hemit : ∀ x x', T x x' → SameEmission (emit x) (emit x')) (h : List.Forall₂ T list list') :
    SameEmission ((list.mapM emit).map Token.commaSeparated) ((list'.mapM emit).map Token.commaSeparated) := by
  refine Agree.map (Agree.mapM (h.imp hemit)) ?_
  intro groups groups' hgroups
  simp [Token.map_outline_congr hgroups]

theorem sameEmission_orderingTokens {orders orders' : List (Term × Direction)}
    (h : List.Forall₂ SameOrder orders orders') :
    SameEmission (orderingTokens p orders) (orderingTokens p orders') :=
  sameEmission_list (fun _ _ => sameEmission_directedTokens) h

theorem sameEmission_groupingTokens {groups groups' : List Term}
    (h : List.Forall₂ Term.SameShape groups groups') :
    SameEmission (groupingTokens p groups) (groupingTokens p groups') :=
  sameEmission_list (fun _ _ hterm => hterm.sameEmission) h

theorem Selection.SameShape.sameEmission {item item' : Selection Nested}
    (h : Selection.SameShape Nested.SameEmission item item') :
    SameEmission (item.tokens p) (item'.tokens p) := by
  cases h with
  | column c => exact SameEmission.refl _
  | raw h => exact h.sameEmission
  | aggregate function name aliasName => exact SameEmission.refl _
  | subquery h aliasName =>
    apply Agree.bind_same
    intro _
    apply Agree.bind h.tokens
    intro query query' hquery
    exact .ok (by simp [hquery])

theorem sameEmission_selectionTokens {items items' : List (Selection Nested)}
    (h : List.Forall₂ (Selection.SameShape Nested.SameEmission) items items') :
    SameEmission (selectionTokens p items) (selectionTokens p items') := by
  unfold selectionTokens
  rw [isEmpty_eq_isEmpty h]
  split
  · exact SameEmission.refl _
  · exact sameEmission_list (fun _ _ hitem => hitem.sameEmission) h

/-! ## Sources and joins -/

theorem Source.SameShape.sameEmission {place : NamePlace} {source source' : Source Nested}
    (h : Source.SameShape Nested.SameEmission source source') :
    SameEmission (source.tokens p place) (source'.tokens p place) := by
  cases h with
  | table name aliasName => exact SameEmission.refl _
  | subquery h aliasName =>
    apply Agree.bind_same
    intro _
    apply Agree.bind h.tokens
    intro query query' hquery
    exact .ok (by simp [hquery])
  | raw h => exact h.sameEmission

theorem Source.SameShape.label_eq {R : Nested → Nested → Prop} {source source' : Source Nested}
    (h : Source.SameShape R source source') : source.label = source'.label := by
  cases h with
  | table | subquery => rfl
  | raw h => exact h.text

theorem Join.SameShape.sameEmission {j j' : Join Nested} (h : Join.SameShape Nested.SameEmission j j') :
    SameEmission (j.tokens p) (j'.tokens p) := by
  cases h with
  | mk kind hsource hconditions =>
    unfold Join.tokens
    have hcheck : ∀ source conditions source' conditions',
        Source.SameShape Nested.SameEmission source source' →
        List.Forall₂ (Condition.SameShape Nested.SameEmission) conditions conditions' →
        Join.check p ⟨kind, source, conditions⟩ = Join.check p ⟨kind, source', conditions'⟩ := by
      intro source conditions source' conditions' hsource hconditions
      simp only [Join.check, hsource.label_eq, isEmpty_eq_isEmpty hconditions]
    rw [hcheck _ _ _ _ hsource hconditions]
    apply Agree.bind_same
    intro _
    apply Agree.bind hsource.sameEmission
    intro source source' hsource'
    refine Agree.bind (R := Token.SameOutline) ?_ fun tokens tokens' htokens => ?_
    · unfold Join.conditionTokens
      dsimp only
      split
      · exact SameEmission.refl _
      · apply Agree.bind (Condition.sameEmission_listTokens hconditions)
        intro tokens tokens' htokens
        rw [Token.isEmpty_congr htokens, hsource.label_eq]
        split
        · exact .error _
        · exact .ok (by simp [htokens])
    · exact .ok (by simp [hsource', htokens])

/-! ## The whole SELECT -/

theorem sameEmission_numberingTokens {t : Target} {orders orders' : List (Term × Direction)}
    (h : List.Forall₂ SameOrder orders orders') :
    SameEmission (numberingTokens t orders) (numberingTokens t orders') := by
  unfold numberingTokens
  refine Agree.bind (sameEmission_orderingTokens h) ?_
  intro order order' horder
  rw [isEmpty_eq_isEmpty h]
  cases orders'.isEmpty <;> exact .ok (by simp [numberingColumn, horder])

theorem sameEmission_fromTokens {source source' : Option (Source Nested)}
    (h : Option.Rel (Source.SameShape Nested.SameEmission) source source') :
    SameEmission (fromTokens p source) (fromTokens p source') := by
  cases h with
  | none => exact SameEmission.refl _
  | some h =>
    apply Agree.bind h.sameEmission
    intro tokens tokens' htokens
    exact .ok (by simp [htokens])

/-- The same demand of paging, whatever the number of rows. -/
inductive Shape.Alike : Shape → Shape → Prop where
  | same (shape : Shape) : Alike shape shape
  | top (rows rows' : Nat) : Alike (.top rows) (.top rows')

theorem sameEmission_selectTokens {t : Target} {s s' : Sections Nested} {shape shape' : Shape}
    (h : s.SameShape Nested.SameEmission s') (hshape : shape.Alike shape') :
    SameEmission (selectTokens t s shape) (selectTokens t s' shape') := by
  have hnumber : SameEmission (shape.numberTokens t s.orders) (shape'.numberTokens t s'.orders) := by
    cases hshape with
    | top rows rows' => exact SameEmission.refl _
    | same shape =>
      cases shape with
      | numbered =>
        apply Agree.bind (sameEmission_numberingTokens h.orders)
        intro column column' hcolumn
        exact .ok (by simp [hcolumn])
      | plain | top | unordered => exact SameEmission.refl _
  have horder : SameEmission (shape.orderTokens t.profile s.orders)
      (shape'.orderTokens t.profile s'.orders) := by
    cases hshape with
    | top rows rows' => exact sameEmission_orderingTokens h.orders
    | same shape =>
      cases shape with
      | plain | top => exact sameEmission_orderingTokens h.orders
      | numbered | unordered => exact SameEmission.refl _
  have htop : Token.SameOutline shape.topTokens shape'.topTokens := by
    cases hshape <;> rfl
  have hjoins : Agree (List.Forall₂ Token.SameOutline) (s.joins.mapM (Join.tokens t.profile))
      (s'.joins.mapM (Join.tokens t.profile)) :=
    Agree.mapM (h.joins.imp fun _ _ hj => hj.sameEmission)
  unfold selectTokens
  apply Agree.bind (sameEmission_selectionTokens h.items)
  intro items items' hitems
  apply Agree.bind hnumber
  intro number number' hnumber
  apply Agree.bind (sameEmission_fromTokens h.source)
  intro source source' hsource
  apply Agree.bind hjoins
  intro joins joins' hjoins
  apply Agree.bind (Condition.sameEmission_listTokens h.filters)
  intro filter filter' hfilter
  apply Agree.bind (sameEmission_groupingTokens h.groups)
  intro groups groups' hgroups
  apply Agree.bind (Condition.sameEmission_listTokens h.havings)
  intro having having' hhaving
  apply Agree.bind horder
  intro order order' horder
  refine .ok ?_
  have hjoins := Token.map_outline_congr hjoins
  have hfilter := Token.outline_sectionOf .where_ hfilter
  have hgroups := Token.outline_sectionOf .groupBy hgroups
  have hhaving := Token.outline_sectionOf .having hhaving
  have horder := Token.outline_sectionOf .orderBy horder
  rw [h.distinct]
  simp only [Token.SameOutline, Token.outline_append, Token.outline_cons, Token.outline_flatten, htop,
    hitems, hnumber, hsource, hjoins, hfilter, hgroups, hhaving, horder]

/-! ## Pages -/

theorem outputName_congr {R : Nested → Nested → Prop} {items items' : List (Selection Nested)}
    (h : List.Forall₂ (Selection.SameShape R) items items') (name : String) :
    outputName p items name = outputName p items' name := by
  have hfirst : items.findSome? (Selection.outputName? p name)
      = items'.findSome? (Selection.outputName? p name) := by
    induction h with
    | nil => rfl
    | cons hitem _ ih =>
      have hname : ∀ item item' : Selection Nested, Selection.SameShape R item item' →
          Selection.outputName? p name item = Selection.outputName? p name item' := by
        intro item item' hitem
        cases hitem <;> rfl
      rw [List.findSome?_cons, List.findSome?_cons, hname _ _ hitem, ih]
  rw [outputName, outputName, hfirst]

theorem Term.SameShape.output {R : Nested → Nested → Prop} {items items' : List (Selection Nested)}
    {term term' : Term} (h : term.SameShape term')
    (hitems : List.Forall₂ (Selection.SameShape R) items items') :
    (term.output p items).SameShape (term'.output p items') := by
  cases h with
  | column name =>
    rw [Term.output, Term.output, outputName_congr hitems]
    exact .column _
  | raw h => exact .raw h

section

variable {t : Target} {s s' : Sections Nested} {page page' : Page} {outermost : Bool}

theorem sameEmission_numberedDistinct (h : s.SameShape Nested.SameEmission s') :
    SameEmission (numberedDistinct t s) (numberedDistinct t s') := by
  have horders : List.Forall₂ SameOrder
      (s.orders.map fun order => (order.1.output t.profile s.items, order.2))
      (s'.orders.map fun order => (order.1.output t.profile s'.items, order.2)) := by
    rw [List.forall₂_map_left_iff, List.forall₂_map_right_iff]
    exact h.orders.imp fun _ _ horder => ⟨horder.1.output h.items, horder.2⟩
  unfold numberedDistinct
  apply Agree.bind (sameEmission_numberingTokens horders)
  intro number number' hnumber
  apply Agree.bind (sameEmission_selectTokens h (.same _))
  intro inner inner' hinner
  exact .ok (by simp [hnumber, hinner])

theorem sameEmission_numberedRows (h : s.SameShape Nested.SameEmission s') :
    SameEmission (numberedRows t s) (numberedRows t s') := by
  unfold numberedRows
  rw [h.distinct]
  split
  · exact sameEmission_numberedDistinct h
  · exact sameEmission_selectTokens h (.same _)

/-- The constructs for a page look only at which of its bounds there are. -/
theorem outline_pageTest (h : page.SameShape page') (ordinal : Token Value) :
    Token.SameOutline (pageTest ordinal page) (pageTest ordinal page') := by
  obtain ⟨limit, offset⟩ := page
  obtain ⟨limit', offset'⟩ := page'
  obtain ⟨hlimit, hoffset⟩ := h
  cases limit <;> cases limit' <;> cases hlimit <;> cases offset <;> cases offset' <;> cases hoffset <;> rfl

theorem outline_limitTokens (h : page.SameShape page') :
    Token.SameOutline (limitTokens p page) (limitTokens p page') := by
  obtain ⟨limit, offset⟩ := page
  obtain ⟨limit', offset'⟩ := page'
  obtain ⟨hlimit, hoffset⟩ := h
  unfold limitTokens
  cases limit <;> cases limit' <;> cases hlimit <;> cases offset <;> cases offset' <;> cases hoffset <;>
    cases p.loneOffset <;> rfl

theorem sameEmission_rowNumberPage (h : s.SameShape Nested.SameEmission s')
    (hpage : page.SameShape page') :
    SameEmission (rowNumberPage t s page outermost) (rowNumberPage t s' page' outermost) := by
  unfold rowNumberPage
  apply Agree.bind (sameEmission_numberedRows h)
  intro inner inner' hinner
  have htest := outline_pageTest hpage (t.profile.aliasToken t.options.rowNumberAlias)
  rw [isEmpty_eq_isEmpty h.orders]
  exact .ok (by simp [selectAllFrom, hinner, htest])

theorem sameEmission_rowNumPage (h : s.SameShape Nested.SameEmission s') (hpage : page.SameShape page') :
    SameEmission (rowNumPage t s page) (rowNumPage t s' page') := by
  unfold rowNumPage
  apply Agree.bind (sameEmission_selectTokens h (.same _))
  intro inner inner' hinner
  have hpages := hpage.offset
  cases hoffset : page.offset with
  | none =>
    cases hoffset' : page'.offset with
    | some offset' => simp [hoffset, hoffset'] at hpages
    | none =>
      have htest := outline_pageTest hpage rowNumToken
      exact .ok (by simp [selectAllFrom, hinner, htest])
  | some offset =>
    cases hoffset' : page'.offset with
    | none => simp [hoffset, hoffset'] at hpages
    | some offset' =>
      have htest := outline_pageTest hpage (t.profile.aliasToken t.options.rowNumberAlias)
      exact .ok (by simp [rowNumRows, selectAllFrom, hinner, htest])

/-- The same construct, for pages of the same shape. -/
inductive Plan.Alike : Plan → Plan → Prop where
  | whole : Alike .whole .whole
  | limitOffset {page page' : Page} (h : page.SameShape page') : Alike (.limitOffset page) (.limitOffset page')
  | top (limit limit' : Nat) : Alike (.top limit) (.top limit')
  | rowNumber {page page' : Page} (h : page.SameShape page') : Alike (.rowNumber page) (.rowNumber page')
  | rowNum {page page' : Page} (h : page.SameShape page') : Alike (.rowNum page) (.rowNum page')

theorem Plan.alike_ofPage (paging : Paging) (h : page.SameShape page') :
    (Plan.ofPage paging page).Alike (Plan.ofPage paging page') := by
  unfold Plan.ofPage
  rw [h.isPartial_eq]
  split
  · exact .whole
  · obtain ⟨limit, offset⟩ := page
    obtain ⟨limit', offset'⟩ := page'
    have hlimit := h.limit
    have hoffset := h.offset
    cases paging with
    | limitOffset => exact .limitOffset h
    | rowNumber => exact .rowNumber h
    | rowNum => exact .rowNum h
    | topCount =>
      cases limit <;> cases limit' <;> cases hlimit <;> cases offset <;> cases offset' <;> cases hoffset
      case some.some.refl.none.none.refl => exact .top _ _
      all_goals exact .rowNumber h

theorem sameEmission_pagedTokens (h : s.SameShape Nested.SameEmission s') :
    SameEmission (pagedTokens t s outermost) (pagedTokens t s' outermost) := by
  have hplan := Plan.alike_ofPage t.profile.paging h.page
  unfold pagedTokens
  generalize Plan.ofPage t.profile.paging s.page = plan at hplan ⊢
  generalize Plan.ofPage t.profile.paging s'.page = plan' at hplan ⊢
  cases hplan with
  | whole => exact sameEmission_selectTokens h (.same _)
  | limitOffset hpage =>
    have hlimit := outline_limitTokens (p := t.profile) hpage
    apply Agree.map (sameEmission_selectTokens h (.same _))
    intro tokens tokens' htokens
    simp [htokens, hlimit]
  | top limit limit' => exact sameEmission_selectTokens h (.top _ _)
  | rowNumber hpage => exact sameEmission_rowNumberPage h hpage
  | rowNum hpage => exact sameEmission_rowNumPage h hpage

end

/-! ## Statements -/

theorem sameEmission_withTokens {ctes ctes' : List (String × Nested)}
    (h : List.Forall₂ (fun c c' => c.1 = c'.1 ∧ Nested.SameEmission c.2 c'.2) ctes ctes') :
    SameEmission (withTokens p ctes) (withTokens p ctes') := by
  have hcte : ∀ c c' : String × Nested, c.1 = c'.1 ∧ Nested.SameEmission c.2 c'.2 →
      SameEmission (cteTokens p c) (cteTokens p c') := by
    intro c c' hc
    unfold cteTokens
    rw [hc.1]
    apply Agree.bind_same
    intro _
    apply Agree.bind hc.2.tokens
    intro query query' hquery
    exact .ok (by simp [hquery])
  unfold withTokens
  rw [isEmpty_eq_isEmpty h]
  split
  · exact SameEmission.refl _
  · apply Agree.bind (Agree.mapM (h.imp hcte))
    intro list list' hlist
    have hlist := Token.map_outline_congr hlist
    exact .ok (by simp [hlist])

theorem sameEmission_operandTokens {isDelimited : Bool} {tokens tokens' : List (Token Value)}
    (h : Token.SameOutline tokens tokens') :
    SameEmission (operandTokens p isDelimited tokens) (operandTokens p isDelimited tokens') := by
  unfold operandTokens
  split
  · exact .ok h
  · split
    · exact .ok (by simp [h])
    · exact .error _

theorem Arm.SameShape.sameEmission {arm arm' : Arm Nested} (h : Arm.SameShape Nested.SameEmission arm arm') :
    SameEmission (arm.tokens p) (arm'.tokens p) := by
  cases h with
  | mk operator all hq =>
    unfold Arm.tokens
    apply Agree.bind_same
    intro keyword
    apply Agree.bind hq.statement
    intro statement statement' hstatement
    dsimp only
    rw [hq.isDelimited]
    apply Agree.bind (sameEmission_operandTokens hstatement)
    intro operand operand' hoperand
    exact .ok (by simp [hoperand])

theorem sameEmission_sectionTokens {t : Target} {s s' : Sections Nested} {outermost : Bool}
    (h : s.SameShape Nested.SameEmission s') :
    SameEmission (sectionTokens t s outermost) (sectionTokens t s' outermost) := by
  unfold sectionTokens
  apply Agree.bind (sameEmission_withTokens h.ctes)
  intro ctes ctes' hctes
  rw [isEmpty_eq_isEmpty h.arms]
  split
  · apply Agree.bind (sameEmission_pagedTokens h)
    intro head head' hhead
    exact .ok (by simp [hctes, hhead])
  · apply Agree.bind (sameEmission_pagedTokens h)
    intro paged paged' hpaged
    rw [h.isDelimited_eq]
    apply Agree.bind (sameEmission_operandTokens hpaged)
    intro head head' hhead
    refine Agree.bind (Agree.mapM (h.arms.imp fun _ _ harm => harm.sameEmission)) fun arms arms' harms => ?_
    have harms := Token.map_outline_congr harms
    exact .ok (by simp [hctes, hhead, harms])

theorem sameEmission_statementTokens {t : Target} {clauses clauses' : Clauses Nested} {outermost : Bool}
    (h : List.Forall₂ (Clause.SameShape Nested.SameEmission) clauses clauses') :
    SameEmission (statementTokens t outermost clauses) (statementTokens t outermost clauses') := by
  unfold statementTokens
  refine Agree.bind (Sections.sameShape_ofClauses h) ?_
  intro sections sections' hsections
  exact sameEmission_sectionTokens hsections

/-! ## Queries -/

/-- What nested queries of the same shape are emitted as is emitted alike around them. -/
theorem Clause.sameShape_mapList {f : Query → Nested} {clauses clauses' : List (Clause Query)}
    (h : List.Forall₂ (Clause.SameShape Query.SameShape) clauses clauses')
    (hf : ∀ c ∈ clauses, ∀ q ∈ c.nested, ∀ q', q.SameShape q' → (f q).SameEmission (f q')) :
    List.Forall₂ (Clause.SameShape Nested.SameEmission) (clauses.map (Clause.map f))
      (clauses'.map (Clause.map f)) := by
  induction h with
  | nil => exact .nil
  | cons hc _ ih =>
    rw [List.forall_mem_cons] at hf
    exact .cons (hc.map hf.1) (ih hf.2)

theorem Query.SameShape.nested {t : Target} {q q' : Query} (h : q.SameShape q') :
    (q.nested t).SameEmission (q'.nested t) := by
  induction q using Query.induction generalizing q' with
  | step clauses ih =>
    cases h with
    | mk h =>
      have hmapped := Clause.sameShape_mapList h ih
      rw [Query.nested, Query.nested, Query.fold_mk, Query.fold_mk]
      exact ⟨sameEmission_statementTokens hmapped, Clauses.isDelimited_eq hmapped⟩

theorem Query.SameShape.sameEmission {t : Target} {q q' : Query} (h : q.SameShape q') :
    SameEmission (q.tokens t) (q'.tokens t) := by
  cases h with
  | mk h => exact sameEmission_statementTokens (Clause.sameShape_mapList h fun _ _ _ _ _ hq => hq.nested)

namespace Compiler

/-- Queries of the same shape are refused with the same error, or compiled to the same text and the
same tokens with as many bindings. -/
theorem compile_sameShape (c : Compiler) {q q' : Query} (h : q.SameShape q') :
    Agree (fun r r' => r.sql = r'.sql ∧ r.tokens = r'.tokens ∧ r.bindings.size = r'.bindings.size)
      (c.compile q) (c.compile q') := by
  rw [compile_eq, compile_eq]
  apply Agree.bind h.sameEmission
  intro tokens tokens' htokens
  have hnumbered := Token.renumber_congr htokens 0
  have hcount := Token.length_params_congr htokens
  rw [hnumbered, hcount]
  split
  · exact .error _
  · exact .ok ⟨rfl, rfl, by simpa using hcount⟩

/-- A page of rows that are tested against values, in a nested page too. -/
def valueTests (v : Value) (n : Int64) (rows : UInt64) : Query :=
  ⟨[.from (.table "t" none), .filter ⟨.and, false, .compare "k" .ne (.value v)⟩,
    .filter ⟨.or, true, .inQuery "id" ⟨[.from (.raw ⟨"f(?)", [v]⟩), .limit rows]⟩⟩, .offset n]⟩

theorem compile_sameShape_valueTests :
    ∃ r r', (⟨.tsql, {}⟩ : Compiler).compile (valueTests (.bool true) 2 1) = .ok r ∧
      (⟨.tsql, {}⟩ : Compiler).compile (valueTests (.string "x") 5 9) = .ok r' ∧
      r.sql = r'.sql ∧ r.tokens = r'.tokens ∧ r.bindings.size = r'.bindings.size := by
  obtain ⟨r, hr⟩ : ∃ r, (⟨.tsql, {}⟩ : Compiler).compile (valueTests (.bool true) 2 1) = .ok r :=
    ⟨_, rfl⟩
  obtain ⟨r', hr'⟩ : ∃ r, (⟨.tsql, {}⟩ : Compiler).compile (valueTests (.string "x") 5 9) = .ok r :=
    ⟨_, rfl⟩
  have hshape : (valueTests (.bool true) 2 1).SameShape (valueTests (.string "x") 5 9) := by
    refine .mk (.cons (.from (.table _ _)) (.cons (.filter (.mk (.compare _ (.value ?_)))) ?_))
    · simp [Comparison.SameShape]
    refine .cons (.filter (.mk (.inQuery _ ?_))) (.cons (.offset (.inr (by decide))) .nil)
    exact .mk (.cons (.from (.raw ⟨rfl, rfl⟩)) (.cons (.limit (.inr (by decide))) .nil))
  exact ⟨r, r', hr, hr', (compile_sameShape ⟨.tsql, {}⟩ hshape).of_ok hr hr'⟩

end Compiler

end QueryCompiler
