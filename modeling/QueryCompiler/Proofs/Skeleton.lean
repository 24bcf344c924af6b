-- SUMMARY: Everything that is emitted is section keywords and nested queries: one lemma for each emitter, up to whole statements.
import QueryCompiler.Proofs.Levels
import QueryCompiler.Proofs.Nesting
import QueryCompiler.Proofs.Placement

/-!
# Skeletons

The skeleton of a part of a statement is its section keywords and its nested
queries, each in the order of the text. No part leaves out a query that is nested
in it, and none changes what the query is emitted as. Parentheses that belong to
the part itself are told by a predicate that their levels satisfy: those of groups
and calls have no section keywords at all, a window has only its order.
-/

namespace QueryCompiler

variable {B : List Keyword → Prop} {p : Profile} {F : Fragment → Prop} {n : Nested} {k : Keyword}
  {own own' : List Keyword} {ns ns' : List Nested} {a b ts : List (Token Value)}

/-- The tokens have the section keywords `own` at their own level and the queries `ns` nested in them.
Their own parentheses have levels with `B`. -/
inductive Skeleton (B : List Keyword → Prop) : List Keyword → List Nested → List (Token Value) → Prop where
  | nil : Skeleton B [] [] []
  | inert {t : Token Value} (h : t.isInert = true) : Skeleton B [] [] [t]
  | keyword {k : Keyword} (h : k.isSection = true) : Skeleton B [k] [] [.keyword k]
  | query {n : Nested} {ts : List (Token Value)} (h : n.statement = .ok ts) :
      Skeleton B [] [n] (Token.parenthesized ts)
  /-- A query without parentheses of its own. -/
  | bare {n : Nested} {ts : List (Token Value)} (hB : B (Token.ownLevel ts)) (h : n.statement = .ok ts) :
      Skeleton B (Token.ownLevel ts) [n] ts
  | parenthesized {own : List Keyword} {ns : List Nested} {ts : List (Token Value)} (hB : B own)
      (h : Skeleton B own ns ts) : Skeleton B [] ns (Token.parenthesized ts)
  | append {own own' : List Keyword} {ns ns' : List Nested} {a b : List (Token Value)} (ha : Skeleton B own ns a)
      (hb : Skeleton B own' ns' b) : Skeleton B (own ++ own') (ns ++ ns') (a ++ b)

/-- The levels of parentheses that hold no statement: groups and calls, windows, and the constant in the
place of an order that a window does not have. -/
structure Auxiliary (B : List Keyword → Prop) : Prop where
  group : B []
  window : B [.orderBy]
  constant : B [.select]

theorem Auxiliary.any : Auxiliary fun _ => True :=
  ⟨trivial, trivial, trivial⟩

/-- A keyword that stands in a level when its section does. -/
def Keyword.when (k : Keyword) (present : Bool) : List Keyword :=
  if present then [k] else []

@[simp] theorem Keyword.mem_when {j : Keyword} {present : Bool} :
    j ∈ k.when present ↔ present = true ∧ j = k := by
  cases present <;> simp [Keyword.when]

namespace Skeleton

theorem inertList (h : ∀ t ∈ ts, t.isInert = true) : Skeleton B [] [] ts := by
  induction ts with
  | nil => exact .nil
  | cons t rest ih =>
    rw [List.forall_mem_cons] at h
    exact .append (.inert h.1) (ih h.2)

theorem before (ha : Skeleton B [] [] a) (hb : Skeleton B own ns b) : Skeleton B own ns (a ++ b) :=
  ha.append hb

theorem after (ha : Skeleton B own ns a) (hb : Skeleton B [] [] b) : Skeleton B own ns (a ++ b) := by
  simpa using ha.append hb

theorem cons {t : Token Value} (h : t.isInert = true) (hb : Skeleton B own ns b) :
    Skeleton B own ns (t :: b) :=
  (inert h).before hb

theorem spaced (h : k.isSection = false) : Skeleton B [] [] (Token.spaced k) := by
  refine inertList fun t ht => ?_
  simp only [Token.spaced, List.mem_cons, List.not_mem_nil, or_false] at ht
  rcases ht with rfl | rfl | rfl
  · rfl
  · simp [Token.isInert, h]
  · rfl

theorem opening (h : k.isSection = true) : Skeleton B [k] [] (Token.spaced k) :=
  .cons rfl ((Skeleton.keyword h).after (.inert rfl))

/-- A section with its keyword, unless it is left out. -/
theorem sectionOf (hk : k.isSection = true) (h : Skeleton B [] ns ts) :
    Skeleton B (k.when !ts.isEmpty) ns (Token.sectionOf k ts) := by
  unfold Token.sectionOf Keyword.when
  cases hempty : ts.isEmpty with
  | true => rwa [List.isEmpty_iff.1 hempty] at h
  | false => simpa using (opening hk).append h

section

variable {α : Type} {emit : α → Emission} (nested : α → List Nested) {xs : List α}
  {groups : List (List (Token Value))}

/-- Parts one after the other. -/
theorem flatten (keywords : α → List Keyword) (h : xs.mapM emit = .ok groups)
    (hemit : ∀ x ∈ xs, ∀ ts, emit x = .ok ts → Skeleton B (keywords x) (nested x) ts) :
    Skeleton B (xs.flatMap keywords) (xs.flatMap nested) groups.flatten := by
  have hparts := forall₂_of_mapM h hemit
  clear h hemit
  induction hparts with
  | nil => exact .nil
  | cons hx _ ih => exact hx.append ih

/-- Parts with commas between them. -/
theorem commaSeparated {parts : List (List Nested)} (h : List.Forall₂ (Skeleton B []) parts groups) :
    Skeleton B [] parts.flatten (Token.commaSeparated groups) := by
  induction h with
  | nil => exact .nil
  | @cons ns group parts groups hgroup hrest ih =>
    cases hrest with
    | nil => simpa [Token.commaSeparated, List.intercalate] using hgroup
    | cons hnext hrest =>
      have hcomma : Skeleton B [] [] [.symbol .comma, .space] := .cons rfl (.inert rfl)
      simpa [Token.commaSeparated, List.intercalate] using hgroup.append (hcomma.before ih)

theorem commaSeparated_mapM (h : (xs.mapM emit).map Token.commaSeparated = .ok ts)
    (hemit : ∀ x ∈ xs, ∀ ts, emit x = .ok ts → Skeleton B [] (nested x) ts) :
    Skeleton B [] (xs.flatMap nested) ts := by
  obtain ⟨groups, hgroups, rfl⟩ := map_eq_ok h
  exact commaSeparated (List.forall₂_map_left_iff.2 (forall₂_of_mapM hgroups hemit))

end

end Skeleton

/-! ## Levels -/

/-- The nested query is emitted, and all its levels have `B`. -/
def Nested.LevelsHold (B : List Keyword → Prop) (n : Nested) : Prop :=
  ∃ ts, n.statement = .ok ts ∧ ∀ level ∈ Token.levels ts, B level

theorem Nested.levelsHold_iff (h : n.statement = .ok ts) :
    n.LevelsHold B ↔ ∀ level ∈ Token.levels ts, B level := by
  constructor
  · rintro ⟨ts', h', hlevels⟩
    cases h.symm.trans h'
    exact hlevels
  · exact fun hlevels => ⟨ts, h, hlevels⟩

/-- The levels in parentheses have `B` as soon as those of the nested queries have. -/
theorem Skeleton.exists_layout (h : Skeleton B own ns ts) (hn : ∀ n ∈ ns, n.IsPhrase p F) :
    ∃ closed, Layout own closed ts ∧ ((∀ level ∈ closed, B level) ↔ ∀ n ∈ ns, n.LevelsHold B) := by
  induction h with
  | nil => exact ⟨[], .nil, by simp⟩
  | inert h => exact ⟨[], .inert h, by simp⟩
  | keyword h => exact ⟨[], .keyword h, by simp⟩
  | @query n ts h =>
    obtain ⟨own, closed, hlayout⟩ := (hn n (List.mem_singleton_self n) ts h).exists_layout
    refine ⟨closed ++ [own], hlayout.parenthesized, ?_⟩
    rw [List.forall_mem_singleton, Nested.levelsHold_iff h, hlayout.levels_eq]
  | @bare n ts hB h =>
    obtain ⟨own, closed, hlayout⟩ := (hn n (List.mem_singleton_self n) ts h).exists_layout
    rw [hlayout.ownLevel_eq] at hB ⊢
    refine ⟨closed, hlayout, ?_⟩
    rw [List.forall_mem_singleton, Nested.levelsHold_iff h, hlayout.levels_eq, List.forall_mem_append,
      List.forall_mem_singleton, and_iff_left hB]
  | @parenthesized own ns ts hB _ ih =>
    obtain ⟨closed, hlayout, hclosed⟩ := ih hn
    refine ⟨closed ++ [own], hlayout.parenthesized, ?_⟩
    rw [List.forall_mem_append, List.forall_mem_singleton, and_iff_left hB, hclosed]
  | append _ _ iha ihb =>
    rw [List.forall_mem_append] at hn
    obtain ⟨closed, ha, hclosed⟩ := iha hn.1
    obtain ⟨closed', hb, hclosed'⟩ := ihb hn.2
    refine ⟨closed ++ closed', ha.append hb, ?_⟩
    rw [List.forall_mem_append, List.forall_mem_append, hclosed, hclosed']

/-! ## Names -/

theorem isInert_segmentToken (cs : List Char) : (p.segmentToken cs : Token Value).isInert = true :=
  Token.isInert_of_isPlain (isWord_segmentToken p cs).isPlain

theorem isInert_aliasToken (name : String) : (p.aliasToken name : Token Value).isInert = true :=
  isInert_segmentToken _

theorem skeleton_aliasToken (name : String) : Skeleton B [] [] [p.aliasToken name] :=
  .inert (isInert_aliasToken name)

theorem skeleton_reference (name : String) : Skeleton B [] [] (p.reference name) := by
  unfold Profile.reference
  induction p.quotes.split (Text.trim name.toList) with
  | nil => exact .nil
  | cons segment rest ih =>
    cases rest with
    | nil => exact .inert (isInert_segmentToken _)
    | cons next rest => exact .cons (isInert_segmentToken _) (.cons rfl ih)

theorem skeleton_checkedReference {place : NamePlace} {name : String}
    (h : p.checkedReference place name = .ok ts) :
    Skeleton B [] [] ts := by
  obtain ⟨-, -, h⟩ := bind_eq_ok h
  cases h
  exact skeleton_reference name

theorem skeleton_tableAlias (name : String) : Skeleton B [] [] (p.tableAlias name) := by
  unfold Profile.tableAlias
  refine Skeleton.before ?_ (skeleton_aliasToken name)
  split
  · exact .spaced rfl
  · exact .inert rfl

theorem skeleton_table (name : String) (aliasName : Option String) :
    Skeleton B [] [] (p.table name aliasName) := by
  unfold Profile.table
  split
  · exact (skeleton_reference name).before (skeleton_tableAlias _)
  · split
    · exact (skeleton_reference _).before (skeleton_tableAlias _)
    · exact skeleton_reference _

theorem skeleton_aliasTokens (aliasName : Option String) : Skeleton B [] [] (aliasTokens p aliasName) := by
  cases aliasName with
  | none => exact .nil
  | some name => exact (Skeleton.spaced rfl).before (skeleton_aliasToken name)

theorem Fragment.skeleton_tokens {f : Fragment} (h : f.tokens = .ok ts) : Skeleton B [] [] ts :=
  .inertList fun t ht => Token.isInert_of_isPlain (isPlain_of_mem_tokens h t ht)

/-! ## Conditions -/

mutual

/-- Nothing is nested in a group of empty groups. -/
theorem Condition.nested_of_isVacuous {σ : Type} {condition : Condition σ}
    (h : condition.isVacuous = true) :
    condition.nested = [] :=
  match condition with
  | ⟨_, _, _⟩ => Predicate.nested_of_isVacuous h

theorem Predicate.nested_of_isVacuous {σ : Type} {predicate : Predicate σ (Condition σ)}
    (h : Predicate.isVacuous predicate = true) : Predicate.nested predicate = [] := by
  match predicate with
  | .group members => exact Condition.nestedList_of_allVacuous h
  | .compare .. | .inValues .. | .inQuery .. | .between .. | .isNull .. | .like .. | .exists .. | .raw .. =>
    cases h

theorem Condition.nestedList_of_allVacuous {σ : Type} {list : List (Condition σ)}
    (h : Condition.allVacuous list = true) : Condition.nestedList list = [] := by
  match list with
  | [] => rfl
  | condition :: rest =>
    rw [Condition.allVacuous, Bool.and_eq_true] at h
    rw [Condition.nestedList, Condition.nested_of_isVacuous h.1, Condition.nestedList_of_allVacuous h.2]
    rfl

end

section

theorem Nested.skeleton_tokens (h : n.tokens = .ok ts) : Skeleton B [] [n] ts := by
  obtain ⟨inner, hinner, rfl⟩ := map_eq_ok h
  exact .query hinner

theorem skeleton_notBefore (negated : Bool) : Skeleton B [] [] (Token.notBefore negated) := by
  cases negated with
  | false => exact .nil
  | true => exact .cons rfl (.inert rfl)

theorem skeleton_notAfter (negated : Bool) : Skeleton B [] [] (Token.notAfter negated) := by
  cases negated with
  | false => exact .nil
  | true => exact .cons rfl (.inert rfl)

theorem Operand.skeleton_tokens {operand : Operand Nested} (h : operand.tokens p = .ok ts) :
    Skeleton B [] operand.nested ts := by
  cases operand with
  | value v =>
    cases h
    exact .inert rfl
  | column name => exact skeleton_checkedReference h
  | query q => exact q.skeleton_tokens h
  | raw fragment => exact fragment.skeleton_tokens h

theorem skeleton_nullTest {column : List (Token Value)} (isNull : Bool) (h : Skeleton B [] [] column) :
    Skeleton B [] [] (nullTest column isNull) := by
  cases isNull with
  | false => exact h.before (.cons rfl (.inert rfl))
  | true => exact h.before (.cons rfl (.inert rfl))

variable (hB : Auxiliary B)

include hB

theorem Skeleton.group (h : Skeleton B [] ns ts) : Skeleton B [] ns (Token.parenthesized ts) :=
  .parenthesized hB.group h

theorem skeleton_comparison {negated : Bool} {column : String} {op : Comparison} {operand : Operand Nested}
    (h : comparison p negated column op operand = .ok ts) : Skeleton B [] operand.nested ts := by
  obtain ⟨subject, hsubject, h⟩ := bind_eq_ok h
  have hsubject : Skeleton B [] [] subject := skeleton_checkedReference hsubject
  cases htest : op.nullTest? operand with
  | some isNull =>
    rw [htest] at h
    cases h
    -- Nothing is nested in a test for null.
    unfold Comparison.nullTest? at htest
    split at htest <;> cases htest <;> exact skeleton_nullTest _ hsubject
  | none =>
    rw [htest] at h
    obtain ⟨object, hobject, h⟩ := bind_eq_ok h
    have hop : Skeleton B [] [] [.space, .symbol op.symbol, .space] :=
      .cons rfl (.cons (by cases op <;> rfl) (.inert rfl))
    have htest := (hsubject.before hop).before (operand.skeleton_tokens hobject)
    cases h
    split
    · exact (skeleton_notBefore true).before (.group hB htest)
    · exact htest

theorem skeleton_membership {negated : Bool} {column : String} {values : List Value}
    (h : membership p negated column values = .ok ts) : Skeleton B [] [] ts := by
  obtain ⟨subject, hsubject, h⟩ := bind_eq_ok h
  split at h
  · cases h
    exact .inertList (by simp [constantTest, Token.isInert])
  · cases h
    have hvalues : Skeleton B [] [] (Token.commaSeparated (values.map fun v => [Token.value v])) := by
      have hvalue : ∀ v ∈ values, Skeleton B [] [] [Token.value v] := fun v _ => .inert rfl
      simpa using Skeleton.commaSeparated
        (List.forall₂_map_left_iff.2 (List.forall₂_map_right_iff.2 (List.forall₂_same.2 hvalue)))
    have hcolumn := (skeleton_checkedReference (B := B) hsubject).before (skeleton_notAfter negated)
    exact (hcolumn.before (.spaced rfl)).before (.group hB hvalues)

theorem skeleton_patternMatch {negated : Bool} {column pattern : String} {caseSensitive : Bool}
    (h : patternMatch p negated column pattern caseSensitive = .ok ts) : Skeleton B [] [] ts := by
  obtain ⟨column, hcolumn, h⟩ := bind_eq_ok h
  have hcolumn : Skeleton B [] [] column := skeleton_checkedReference hcolumn
  have hmatch {subject : List (Token Value)} {k : Keyword} {pattern : String}
      (hsubject : Skeleton B [] [] subject)
      (hk : k.isSection = false) : Skeleton B [] []
        (subject ++ Token.notAfter negated ++ Token.spaced k ++ [Token.value (.string pattern)]) :=
    ((hsubject.before (skeleton_notAfter negated)).before (.spaced hk)).before (.inert rfl)
  cases caseSensitive with
  | true =>
    cases h
    exact hmatch hcolumn rfl
  | false =>
    cases hcaseless : p.caselessMatch with
    | ilike =>
      simp only [hcaseless] at h
      cases h
      exact hmatch hcolumn rfl
    | lowerCase =>
      simp only [hcaseless] at h
      cases h
      exact hmatch (.cons rfl (.group hB hcolumn)) rfl

end

mutual

theorem Condition.skeleton_tokens (hB : Auxiliary B) {condition : Condition Nested}
    {ts : List (Token Value)} (h : condition.tokens p = .ok ts) : Skeleton B [] condition.nested ts :=
  match condition with
  | ⟨_, _, _⟩ => Predicate.skeleton_tokens hB h

theorem Predicate.skeleton_tokens (hB : Auxiliary B) {negated : Bool}
    {predicate : Predicate Nested (Condition Nested)}
    {ts : List (Token Value)} (h : Predicate.tokens p negated predicate = .ok ts) :
    Skeleton B [] (Predicate.nested predicate) ts := by
  match predicate with
  | .compare column op operand => exact skeleton_comparison hB h
  | .inValues column values => exact skeleton_membership hB h
  | .inQuery column q =>
    obtain ⟨subject, hsubject, h⟩ := bind_eq_ok h
    obtain ⟨query, hquery, h⟩ := bind_eq_ok h
    cases h
    have hcolumn := (skeleton_checkedReference (B := B) hsubject).before (skeleton_notAfter negated)
    exact (hcolumn.before (.spaced rfl)).before (q.skeleton_tokens hquery)
  | .between column low high =>
    obtain ⟨subject, hsubject, h⟩ := bind_eq_ok h
    cases h
    have hcolumn := (skeleton_checkedReference (B := B) hsubject).before (skeleton_notAfter negated)
    have hlow := (hcolumn.before (.spaced (k := .between) rfl)).before (.inert (t := Token.value low) rfl)
    exact (hlow.before (.spaced rfl)).before (.inert rfl)
  | .isNull column =>
    obtain ⟨subject, hsubject, h⟩ := bind_eq_ok h
    cases h
    exact skeleton_nullTest _ (skeleton_checkedReference hsubject)
  | .like column pattern caseSensitive => exact skeleton_patternMatch hB h
  | .exists q =>
    obtain ⟨query, hquery, h⟩ := bind_eq_ok h
    cases h
    exact ((skeleton_notBefore negated).before (.cons rfl (.inert rfl))).before (q.skeleton_tokens hquery)
  | .group members =>
    obtain ⟨list, hlist, h⟩ := bind_eq_ok h
    cases h
    exact (skeleton_notBefore negated).before (.group hB (Condition.skeleton_tokensEach hB hlist).1)
  | .raw fragment =>
    obtain ⟨tokens, htokens, h⟩ := bind_eq_ok h
    have htokens : Skeleton B [] [] tokens := fragment.skeleton_tokens htokens
    cases h
    split
    · exact (skeleton_notBefore true).before (.group hB htokens)
    · exact htokens

/-- The conditions of a list, alone and behind other conditions. -/
theorem Condition.skeleton_tokensEach (hB : Auxiliary B) {list : List (Condition Nested)}
    {emitted : List (Connector × List (Token Value))} (h : Condition.tokensEach p list = .ok emitted) :
    Skeleton B [] (Condition.nestedList list) (connect emitted) ∧
      Skeleton B [] (Condition.nestedList list)
        (emitted.flatMap fun (connector, tokens) => Token.spaced connector.keyword ++ tokens) := by
  match list with
  | [] =>
    cases h
    exact ⟨.nil, .nil⟩
  | condition :: rest =>
    rw [Condition.tokensEach] at h
    rw [Condition.nestedList]
    split at h
    next hv =>
      rw [Condition.nested_of_isVacuous hv]
      exact Condition.skeleton_tokensEach hB h
    next =>
      obtain ⟨tokens, htokens, h⟩ := bind_eq_ok h
      obtain ⟨more, hmore, h⟩ := bind_eq_ok h
      cases h
      have htokens := Condition.skeleton_tokens hB htokens
      have hmore := (Condition.skeleton_tokensEach hB hmore).2
      have hconnector : condition.connector.keyword.isSection = false := by
        cases condition.connector <;> rfl
      exact ⟨htokens.append hmore, ((Skeleton.spaced hconnector).before htokens).append hmore⟩

end

theorem Condition.skeleton_listTokens (hB : Auxiliary B) {list : List (Condition Nested)}
    (h : Condition.listTokens p list = .ok ts) : Skeleton B [] (Condition.nestedList list) ts := by
  obtain ⟨emitted, hemitted, rfl⟩ := map_eq_ok h
  exact (Condition.skeleton_tokensEach hB hemitted).1

/-! ## Terms, the select list and sources -/

theorem Term.skeleton_tokens {place : NamePlace} {term : Term} (h : term.tokens p place = .ok ts) :
    Skeleton B [] [] ts := by
  cases term with
  | column name => exact skeleton_checkedReference h
  | raw fragment => exact fragment.skeleton_tokens h

theorem skeleton_directedTokens {order : Term × Direction} (h : directedTokens p order = .ok ts) :
    Skeleton B [] [] ts := by
  obtain ⟨tokens, htokens, h⟩ := bind_eq_ok h
  have htokens : Skeleton B [] [] tokens := Term.skeleton_tokens htokens
  cases h
  split
  · exact htokens
  · exact htokens.before (.cons rfl (.inert rfl))

theorem skeleton_orderingTokens {orders : List (Term × Direction)} (h : orderingTokens p orders = .ok ts) :
    Skeleton B [] [] ts := by
  have horders := Skeleton.commaSeparated_mapM (B := B) (fun _ => []) h fun _ _ _ => skeleton_directedTokens
  rwa [List.flatMap_eq_nil_iff.2 fun _ _ => rfl] at horders

theorem skeleton_groupingTokens {groups : List Term} (h : groupingTokens p groups = .ok ts) :
    Skeleton B [] [] ts := by
  have hgroups := Skeleton.commaSeparated_mapM (B := B) (fun _ => []) h fun _ _ _ => Term.skeleton_tokens
  rwa [List.flatMap_eq_nil_iff.2 fun _ _ => rfl] at hgroups

theorem Selection.skeleton_tokens (hB : Auxiliary B) {item : Selection Nested}
    (h : item.tokens p = .ok ts) :
    Skeleton B [] item.nested ts := by
  cases item with
  | column c =>
    obtain ⟨-, -, h⟩ := bind_eq_ok h
    cases h
    exact (skeleton_reference _).before (skeleton_aliasTokens _)
  | raw fragment => exact fragment.skeleton_tokens h
  | aggregate function name aliasName =>
    obtain ⟨column, hcolumn, h⟩ := bind_eq_ok h
    cases h
    exact (Skeleton.cons rfl (.group hB (skeleton_checkedReference hcolumn))).before (skeleton_aliasTokens _)
  | subquery q aliasName =>
    obtain ⟨-, -, h⟩ := bind_eq_ok h
    obtain ⟨query, hquery, h⟩ := bind_eq_ok h
    cases h
    exact (q.skeleton_tokens hquery).after (skeleton_aliasTokens _)

theorem skeleton_selectionTokens (hB : Auxiliary B) {items : List (Selection Nested)}
    (h : selectionTokens p items = .ok ts) : Skeleton B [] (items.flatMap Selection.nested) ts := by
  unfold selectionTokens at h
  split at h
  next hempty =>
    cases h
    rw [List.isEmpty_iff.1 hempty]
    exact .inert rfl
  next => exact .commaSeparated_mapM _ h fun _ _ _ => Selection.skeleton_tokens hB

theorem Source.skeleton_tokens {place : NamePlace} {source : Source Nested}
    (h : source.tokens p place = .ok ts) :
    Skeleton B [] source.nested ts := by
  cases source with
  | table name aliasName =>
    obtain ⟨-, -, h⟩ := bind_eq_ok h
    cases h
    exact skeleton_table name aliasName
  | subquery q aliasName =>
    obtain ⟨-, -, h⟩ := bind_eq_ok h
    obtain ⟨query, hquery, h⟩ := bind_eq_ok h
    cases h
    exact (q.skeleton_tokens hquery).after (skeleton_tableAlias _)
  | raw fragment => exact fragment.skeleton_tokens h

theorem skeleton_fromTokens {source : Option (Source Nested)} (h : fromTokens p source = .ok ts) :
    Skeleton B [.from] (source.toList.flatMap Source.nested) ts := by
  cases source with
  | none => cases h
  | some source =>
    obtain ⟨tokens, htokens, h⟩ := bind_eq_ok h
    cases h
    simpa using (Skeleton.opening rfl).append (source.skeleton_tokens htokens)

theorem Join.skeleton_tokens (hB : Auxiliary B) {j : Join Nested} (h : j.tokens p = .ok ts) :
    Skeleton B [.join] j.nested ts := by
  obtain ⟨⟨⟩, hcheck, h⟩ := bind_eq_ok h
  obtain ⟨source, hsource, h⟩ := bind_eq_ok h
  obtain ⟨conditions, hconditions, h⟩ := bind_eq_ok h
  cases h
  have hkind : Skeleton B [] [] j.kind.tokens := .inertList (by cases j.kind <;> decide)
  have hconditions : Skeleton B [] (Condition.nestedList j.conditions) conditions := by
    unfold conditionTokens at hconditions
    split at hconditions
    next hcross =>
      cases hconditions
      rw [Join.conditions_of_check hcross hcheck]
      exact .nil
    next =>
      obtain ⟨tokens, htokens, h⟩ := bind_eq_ok hconditions
      split at h
      · cases h
      · cases h
        exact (Skeleton.spaced rfl).before (Condition.skeleton_listTokens hB htokens)
  have hjoin : Skeleton B [.join] [] (.space :: j.kind.tokens ++ Token.spaced .join) :=
    (Skeleton.cons rfl hkind).before (.opening rfl)
  exact (hjoin.append (j.source.skeleton_tokens hsource)).append hconditions

/-! ## Selects -/

/-- A list of parts is emitted as nothing exactly when it is empty. -/
theorem isEmpty_commaSeparated_mapM {α : Type} {emit : α → Emission} {xs : List α}
    (h : (xs.mapM emit).map Token.commaSeparated = .ok ts)
    (hemit : ∀ x ∈ xs, ∀ ts, emit x = .ok ts → Phrase p F Keyword.isInner ts) : ts.isEmpty = xs.isEmpty := by
  obtain ⟨groups, hgroups, rfl⟩ := map_eq_ok h
  cases mapM_eq_ok hgroups with
  | nil => rfl
  | cons hx hrest =>
    have hphrases := Phrase.commaSeparated (List.cons_ne_nil _ _) fun group hgroup => by
      obtain ⟨x, hmem, hx⟩ := exists_of_mem_mapM hgroups hgroup
      exact hemit x hmem group hx
    simpa using hphrases.wellPaired.ne_nil

theorem isEmpty_orderingTokens {orders : List (Term × Direction)} (h : orderingTokens p orders = .ok ts) :
    ts.isEmpty = orders.isEmpty :=
  isEmpty_commaSeparated_mapM (F := fun _ => True) h fun _ _ _ => phrase_directedTokens fun _ _ => trivial

theorem isEmpty_groupingTokens {groups : List Term} (h : groupingTokens p groups = .ok ts) :
    ts.isEmpty = groups.isEmpty :=
  isEmpty_commaSeparated_mapM (F := fun _ => True) h fun _ _ _ => Term.phrase_tokens fun _ _ => trivial

theorem skeleton_numberingTokens (hB : Auxiliary B) {t : Target} {orders : List (Term × Direction)}
    (h : numberingTokens t orders = .ok ts) : Skeleton B [.over] [] ts := by
  obtain ⟨order, horder, h⟩ := bind_eq_ok h
  cases h
  have hcall :
      Skeleton B [] [] (.function "ROW_NUMBER" :: Token.parenthesized []) := .cons rfl (.group hB .nil)
  have hconstant : Skeleton B [.select] [] [.keyword .select, .space, .litInt 0] :=
    (Skeleton.keyword rfl).after (.cons rfl (.inert rfl))
  have hby :
      Skeleton B [.orderBy] [] [.keyword .orderBy, .space] := (Skeleton.keyword rfl).after (.inert rfl)
  have hwindow : Skeleton B [] [] (Token.parenthesized ([.keyword .orderBy, .space] ++
      if orders.isEmpty then Token.parenthesized [.keyword .select, .space, .litInt 0] else order)) := by
    refine .parenthesized hB.window (hby.after ?_)
    split
    · exact .parenthesized hB.constant hconstant
    · exact skeleton_orderingTokens horder
  exact ((hcall.before (.opening rfl)).after hwindow).after (skeleton_aliasTokens _)

/-- The section keywords that a shape puts in front of the source. -/
def Shape.keywords : Shape → List Keyword
  | .top _ => [.top]
  | .numbered => [.over]
  | .plain | .unordered => []

/-- Whether the SELECT ends with its order. -/
def Shape.isOrdering : Shape → Bool
  | .plain | .top _ => true
  | .numbered | .unordered => false

/-- The section keywords of a SELECT between the first one and its order. -/
def Sections.bodyKeywords {σ : Type} (s : Sections σ) (shape : Shape) : List Keyword :=
  Keyword.distinct.when s.distinct ++ shape.keywords ++ [.from] ++ (s.joins.flatMap fun _ => [.join])
    ++ Keyword.where_.when (!Condition.allVacuous s.filters) ++ Keyword.groupBy.when (!s.groups.isEmpty)
    ++ Keyword.having.when (!Condition.allVacuous s.havings)

/-- The section keywords of a SELECT, in their order. -/
def Sections.keywords {σ : Type} (s : Sections σ) (shape : Shape) : List Keyword :=
  .select :: (s.bodyKeywords shape ++ Keyword.orderBy.when (shape.isOrdering && !s.orders.isEmpty))

section

variable {t : Target} {s : Sections Nested} {shape : Shape}

theorem skeleton_orderTokens {orders : List (Term × Direction)} (h : shape.orderTokens p orders = .ok ts) :
    Skeleton B [] [] ts ∧ (!ts.isEmpty) = (shape.isOrdering && !orders.isEmpty) := by
  cases shape with
  | plain | top =>
    refine ⟨skeleton_orderingTokens h, ?_⟩
    rw [isEmpty_orderingTokens h]
    rfl
  | numbered | unordered =>
    cases h
    exact ⟨.nil, rfl⟩

/-- The select list with what a shape puts around it. -/
theorem skeleton_columns (hB : Auxiliary B) {items number : List (Token Value)}
    (hitems : Skeleton B [] ns items) (h : shape.numberTokens t s.orders = .ok number) :
    Skeleton B shape.keywords ns (shape.topTokens ++ [.space] ++ items ++ number) := by
  have hspace : Skeleton B [] [] [.space] := .inert rfl
  cases shape with
  | top rows =>
    cases h
    have hcount : Skeleton B [] [] (Token.parenthesized [Token.value (.int (Page.bound rows))]) :=
      .group hB (.inert rfl)
    have htop : Skeleton B [.top] [] (Shape.top rows).topTokens := (Skeleton.opening rfl).after hcount
    simpa [Shape.keywords] using (htop.after hspace).append hitems
  | numbered =>
    obtain ⟨column, hcolumn, h⟩ := bind_eq_ok h
    cases h
    have hcomma : Skeleton B [] [] [.symbol .comma, .space] := .cons rfl (.inert rfl)
    have hcolumn := hcomma.before (skeleton_numberingTokens hB hcolumn)
    simpa [Shape.keywords, Shape.topTokens] using (hspace.before hitems).append hcolumn
  | plain | unordered =>
    cases h
    simpa [Shape.keywords, Shape.topTokens] using hspace.before hitems

/-- A SELECT has exactly the sections that it has something for, and all that is nested in them. -/
theorem skeleton_selectTokens (hB : Auxiliary B) (hs : s.Holds (Nested.IsPhrase t.profile F) F)
    (h : selectTokens t s shape = .ok ts) : Skeleton B (s.keywords shape) s.selectNested ts := by
  obtain ⟨items, hitems, h⟩ := bind_eq_ok h
  obtain ⟨number, hnumber, h⟩ := bind_eq_ok h
  obtain ⟨source, hsource, h⟩ := bind_eq_ok h
  obtain ⟨joins, hjoins, h⟩ := bind_eq_ok h
  obtain ⟨filter, hfilter, h⟩ := bind_eq_ok h
  obtain ⟨groups, hgroups, h⟩ := bind_eq_ok h
  obtain ⟨having, hhaving, h⟩ := bind_eq_ok h
  obtain ⟨order, horder, h⟩ := bind_eq_ok h
  cases h
  have hselect : Skeleton B [.select] [] [.keyword .select] := .keyword rfl
  have hdistinct : Skeleton B (Keyword.distinct.when s.distinct) []
      (if s.distinct then [.space, .keyword .distinct] else []) := by
    cases s.distinct with
    | false => exact .nil
    | true => exact .cons rfl (.keyword rfl)
  have hcolumns := skeleton_columns hB (skeleton_selectionTokens hB hitems) hnumber
  have hsource : Skeleton B _ _ source := skeleton_fromTokens hsource
  have hjoins := Skeleton.flatten (B := B) Join.nested
      (fun _ => [.join]) hjoins fun _ _ _ => Join.skeleton_tokens hB
  have hwhere := (Condition.skeleton_listTokens hB hfilter).sectionOf (k := .where_) rfl
  have hgroupBy := (skeleton_groupingTokens (B := B) hgroups).sectionOf (k := .groupBy) rfl
  have hhavings := (Condition.skeleton_listTokens hB hhaving).sectionOf (k := .having) rfl
  obtain ⟨horderBy, hordered⟩ := skeleton_orderTokens (B := B) horder
  have horderBy := horderBy.sectionOf (k := .orderBy) rfl
  rw [Condition.isEmpty_listTokens hs.filters hfilter] at hwhere
  rw [isEmpty_groupingTokens hgroups] at hgroupBy
  rw [Condition.isEmpty_listTokens hs.havings hhaving] at hhavings
  rw [hordered] at horderBy
  have hall :=
      ((((((((hselect.append hdistinct).append hcolumns).append hsource).append hjoins).append hwhere).append
    hgroupBy).append hhavings).append horderBy)
  simpa [Sections.keywords, Sections.bodyKeywords, Sections.selectNested] using hall

/-! ## Pages -/

theorem skeleton_selectAllFrom (hown : B own) (h : Skeleton B own ns ts) :
    Skeleton B [.select, .from] ns (selectAllFrom ts) := by
  have hselect : Skeleton B [.select] [] [.keyword .select, .space, .symbol .star] :=
    (Skeleton.keyword rfl).after (.cons rfl (.inert rfl))
  exact (hselect.append (.opening rfl)).append (.parenthesized hown h)

/-- The section keywords of the query around which a page by `ROW_NUMBER()` stands. -/
def Sections.numberedKeywords {σ : Type} (s : Sections σ) : List Keyword :=
  if s.distinct then [.select, .over, .from] else s.keywords .numbered

/-- The levels that a construct for pages adds to a SELECT. -/
def Sections.pageLevels {σ : Type} (s : Sections σ) : Paging → List (List Keyword)
  | .limitOffset => []
  | .topCount | .rowNumber => [s.keywords .unordered, s.numberedKeywords]
  | .rowNum => [s.keywords .plain, [.select, .from]]

theorem skeleton_numberedRows (hB : Auxiliary B) (hs : s.Holds (Nested.IsPhrase t.profile F) F)
    (hdistinct : B (s.keywords .unordered)) (h : numberedRows t s = .ok ts) :
    Skeleton B s.numberedKeywords s.selectNested ts := by
  unfold numberedRows at h
  unfold Sections.numberedKeywords
  split
  next hd =>
    rw [if_pos hd] at h
    obtain ⟨number, hnumber, h⟩ := bind_eq_ok h
    obtain ⟨inner, hinner, h⟩ := bind_eq_ok h
    cases h
    have hselect :
        Skeleton B [.select] [] [.keyword .select, .space, .symbol .star, .symbol .comma, .space] :=
      (Skeleton.keyword rfl).after (.cons rfl (.cons rfl (.cons rfl (.inert rfl))))
    have hinner := Skeleton.parenthesized hdistinct (skeleton_selectTokens hB hs hinner)
    exact (((hselect.append (skeleton_numberingTokens hB hnumber)).append (.opening rfl)).append hinner).after
      (skeleton_tableAlias _)
  next hd =>
    rw [if_neg hd] at h
    exact skeleton_selectTokens hB hs h

theorem skeleton_pageTest {ordinal : Token Value} (hordinal : ordinal.isInert = true) (page : Page) :
    Skeleton B [] [] (pageTest ordinal page) := by
  have htest (op : Symbol) (hop : op ≠ .lparen ∧ op ≠ .rparen) (b : Int64) :
      Skeleton B [] [] (ordinalTest ordinal op b) :=
    .cons hordinal (.cons rfl (.cons (by cases op <;> simp_all [Token.isInert]) (.cons rfl (.inert rfl))))
  unfold pageTest
  split
  · exact ((htest _ (by decide) _).before (.spaced rfl)).before (htest _ (by decide) _)
  · exact htest _ (by decide) _
  · exact htest _ (by decide) _
  · exact .nil

/-- The section keywords of `LIMIT` and `OFFSET`. -/
def limitKeywords (p : Profile) (page : Page) : List Keyword :=
  Keyword.limit.when (page.limit.isSome || page.offset.isSome && p.loneOffset != .bare)
    ++ Keyword.offset.when page.offset.isSome

theorem skeleton_limitTokens (page : Page) : Skeleton B (limitKeywords p page) [] (limitTokens p page) := by
  obtain ⟨limit, offset⟩ := page
  have hlimit (t : Token Value) (ht : t.isInert = true) :
      Skeleton B [.limit] [] (Token.spaced .limit ++ [t]) :=
    (Skeleton.opening rfl).after (.inert ht)
  have hoffset (m : Nat) :
      Skeleton B [.offset] [] (Token.spaced .offset ++ [Token.value (.int (Page.bound m))]) :=
    (Skeleton.opening rfl).after (.inert rfl)
  cases limit with
  | some n =>
    cases offset with
    | none => exact hlimit _ rfl
    | some m => exact (hlimit _ rfl).append (hoffset m)
  | none =>
    cases offset with
    | none => exact .nil
    | some m =>
      cases hlone : p.loneOffset with
      | bare => simpa [limitTokens, limitKeywords, Keyword.when, hlone] using hoffset m
      | afterLimit rows =>
        simpa [limitTokens, limitKeywords, Keyword.when,
          hlone] using (hlimit (.raw rows) rfl).append (hoffset m)

/-- The section keywords of a paged SELECT at its own level. -/
def Sections.pagedKeywords {σ : Type} (s : Sections σ) (p : Profile) (outermost : Bool) : List Keyword :=
  match Plan.ofPage p.paging s.page with
  | .whole => s.keywords .plain
  | .limitOffset page => s.keywords .plain ++ limitKeywords p page
  | .top rows => s.keywords (.top rows)
  | .rowNumber _ => [.select, .from, .where_] ++ Keyword.orderBy.when (outermost && !s.orders.isEmpty)
  | .rowNum _ => [.select, .from, .where_]

theorem skeleton_rowNumberPage (hB : Auxiliary B) (hs : s.Holds (Nested.IsPhrase t.profile F) F)
    {page : Page}
    {outermost : Bool} (hdistinct : B (s.keywords .unordered)) (hnumbered : B s.numberedKeywords)
    (h : rowNumberPage t s page outermost = .ok ts) :
    Skeleton B ([.select, .from, .where_] ++ Keyword.orderBy.when (outermost && !s.orders.isEmpty))
      s.selectNested ts := by
  obtain ⟨inner, hinner, h⟩ := bind_eq_ok h
  have hordinal := isInert_aliasToken (p := t.profile) t.options.rowNumberAlias
  have hrows := skeleton_selectAllFrom hnumbered (skeleton_numberedRows hB hs hdistinct hinner)
  have hpage := ((hrows.after (skeleton_tableAlias (p := t.profile) t.options.wrapperAlias)).append
    (.opening (k := .where_) rfl)).after (skeleton_pageTest hordinal page)
  have horder : Skeleton B (Keyword.orderBy.when (outermost && !s.orders.isEmpty)) []
      (if outermost && !s.orders.isEmpty then
        Token.spaced .orderBy ++ [t.profile.aliasToken t.options.rowNumberAlias] else []) := by
    cases outermost && !s.orders.isEmpty with
    | false => exact .nil
    | true => exact (Skeleton.opening rfl).after (.inert hordinal)
  cases h
  simpa using hpage.append horder

theorem skeleton_rowNumPage (hB : Auxiliary B) (hs : s.Holds (Nested.IsPhrase t.profile F) F) {page : Page}
    (hplain : B (s.keywords .plain)) (hwrapper : B [.select, .from]) (h : rowNumPage t s page = .ok ts) :
    Skeleton B [.select, .from, .where_] s.selectNested ts := by
  obtain ⟨inner, hinner, h⟩ := bind_eq_ok h
  have hinner := skeleton_selectTokens hB hs hinner
  have hwhere : Skeleton B [.where_] [] (Token.spaced .where_) := .opening rfl
  split at h
  · cases h
    simpa using ((skeleton_selectAllFrom hplain hinner).append hwhere).after (skeleton_pageTest rfl page)
  · have hordinal (name : String) := isInert_aliasToken (p := t.profile) name
    have hselect :
        Skeleton B [.select] [] ([.keyword .select, .space, t.profile.aliasToken t.options.wrapperAlias,
        .symbol .dot, .symbol .star, .symbol .comma, .space, rowNumToken]) :=
      (Skeleton.keyword rfl).after (.cons rfl (.cons (hordinal _) (.cons rfl (.cons rfl (.cons rfl (.cons rfl
        (.inert rfl)))))))
    have hnumbered :=
        ((((hselect.after (.spaced (k := .as) rfl)).after (.inert (hordinal t.options.rowNumberAlias))).append
      (.opening (k := .from) rfl)).append (.parenthesized hplain hinner)).after
      (skeleton_tableAlias (p := t.profile) t.options.wrapperAlias)
    cases h
    simpa [rowNumRows] using ((skeleton_selectAllFrom hwrapper hnumbered).append hwhere).after
      (skeleton_pageTest (hordinal t.options.rowNumberAlias) page)

theorem skeleton_pagedTokens (hB : Auxiliary B) (hs : s.Holds (Nested.IsPhrase t.profile F) F)
    {outermost : Bool}
    (hlevels : ∀ level ∈ s.pageLevels t.profile.paging, B level) (h : pagedTokens t s outermost = .ok ts) :
    Skeleton B (s.pagedKeywords t.profile outermost) s.selectNested ts := by
  unfold pagedTokens at h
  unfold Sections.pagedKeywords
  obtain ⟨-, hplan⟩ | ⟨-, ⟨-, hplan⟩ | ⟨-, limit, -, hplan⟩ | ⟨hpaging, hplan⟩ | ⟨hpaging, hplan⟩⟩ :=
    Plan.ofPage_cases t.profile.paging s.page <;> rw [hplan] at h ⊢
  case inl => exact skeleton_selectTokens hB hs h
  case inr.inl =>
    obtain ⟨plain, hplain, rfl⟩ := map_eq_ok h
    simpa using (skeleton_selectTokens hB hs hplain).append (skeleton_limitTokens s.page)
  case inr.inr.inl => exact skeleton_selectTokens hB hs h
  case inr.inr.inr.inl =>
    have hlevels : B (s.keywords .unordered) ∧ B s.numberedKeywords := by
      obtain hpaging | hpaging := hpaging <;> simpa [hpaging, Sections.pageLevels] using hlevels
    exact skeleton_rowNumberPage hB hs hlevels.1 hlevels.2 h
  case inr.inr.inr.inr =>
    have hlevels : B (s.keywords .plain) ∧ B [.select, .from] := by
      simpa [hpaging, Sections.pageLevels] using hlevels
    exact skeleton_rowNumPage hB hs hlevels.1 hlevels.2 h

/-! ## Statements -/

theorem skeleton_cteTokens {cte : String × Nested} (h : cteTokens p cte = .ok ts) :
    Skeleton B [] [cte.2] ts := by
  obtain ⟨-, -, h⟩ := bind_eq_ok h
  obtain ⟨query, hquery, h⟩ := bind_eq_ok h
  cases h
  exact (Skeleton.cons (isInert_aliasToken _) (.spaced rfl)).before (cte.2.skeleton_tokens hquery)

theorem skeleton_withTokens {ctes : List (String × Nested)} (h : withTokens p ctes = .ok ts) :
    Skeleton B (Keyword.with_.when !ctes.isEmpty) (ctes.map Prod.snd) ts := by
  unfold withTokens at h
  split at h
  next hempty =>
    cases h
    rw [List.isEmpty_iff.1 hempty]
    exact .nil
  next hne =>
    obtain ⟨list, hlist, h⟩ := bind_eq_ok h
    cases h
    have hmany : ctes.isEmpty = false := by simpa using hne
    have hlist : Skeleton B [] (ctes.map Prod.snd) (Token.commaSeparated list) := by
      rw [List.map_eq_flatMap]
      exact .commaSeparated_mapM _ (by rw [hlist]; rfl) fun _ _ _ => skeleton_cteTokens
    have hwith :
        Skeleton B [.with_] [] [.keyword .with_, .space] := (Skeleton.keyword rfl).after (.inert rfl)
    rw [hmany]
    exact (hwith.append hlist).after (.inert rfl)

/-- The section keywords that a query adds to the level where it stands as an operand. -/
def Nested.keywords (n : Nested) : List Keyword :=
  match n.isDelimited, n.statement with
  | false, .ok ts => Token.ownLevel ts
  | _, _ => []

theorem skeleton_operandTokens (hn : B n.keywords) (h : n.statement = .ok a)
    (hoperand : operandTokens p n.isDelimited a = .ok ts) : Skeleton B n.keywords [n] ts := by
  unfold Nested.keywords at hn ⊢
  obtain ⟨hd, rfl⟩ | ⟨hd, -, rfl⟩ := operandTokens_cases hoperand
  · rw [hd, h] at hn ⊢
    exact .bare hn h
  · rw [hd]
    exact .query h

/-- The keyword of a set operator, whether or not a dialect has it. -/
def SetOperator.sectionKeyword : SetOperator → Keyword
  | .union => .union
  | .intersect => .intersect
  | .except => .except

theorem SetOperator.keyword_eq {op : SetOperator} (h : op.keyword p = .ok k) : k = op.sectionKeyword := by
  cases op with
  | union =>
    cases h
    rfl
  | intersect | except =>
    unfold SetOperator.keyword at h
    dsimp only at h
    split at h <;> cases h
    rfl

/-- The section keywords of an arm. -/
def Arm.keywords (arm : Arm Nested) : List Keyword :=
  arm.operator.sectionKeyword :: arm.operand.keywords

theorem Arm.skeleton_tokens {arm : Arm Nested} (hn : B arm.operand.keywords) (h : arm.tokens p = .ok ts) :
    Skeleton B arm.keywords [arm.operand] ts := by
  obtain ⟨keyword, hkeyword, h⟩ := bind_eq_ok h
  obtain ⟨statement, hstatement, h⟩ := bind_eq_ok h
  obtain ⟨operand, hoperand, h⟩ := bind_eq_ok h
  obtain rfl := SetOperator.keyword_eq hkeyword
  cases h
  have hoperator :
      Skeleton B [arm.operator.sectionKeyword] [] [.space, .keyword arm.operator.sectionKeyword] :=
    .cons rfl (.keyword (by cases arm.operator <;> rfl))
  have hall : Skeleton B [] [] (if arm.all then [.space, .keyword .all] else []) := by
    cases arm.all with
    | false => exact .nil
    | true => exact .cons rfl (.inert rfl)
  simpa [Arm.keywords] using
    ((hoperator.after hall).after (.inert rfl)).append (skeleton_operandTokens hn hstatement hoperand)

namespace Sections

/-- The first operand of a set operation, as if it were nested like the others. -/
def head (t : Target) (s : Sections Nested) : Nested where
  statement := pagedTokens t s false
  isDelimited := s.isDelimited

/-- What a statement is put together from: what is nested in its SELECT, or the operands of its set
operations. -/
def parts (t : Target) (s : Sections Nested) : List Nested :=
  s.ctes.map Prod.snd ++ if s.arms.isEmpty then s.selectNested else s.head t :: s.arms.map Arm.operand

/-- The section keywords of a statement at its own level. -/
def statementKeywords (t : Target) (s : Sections Nested) (outermost : Bool) : List Keyword :=
  Keyword.with_.when (!s.ctes.isEmpty) ++
    if s.arms.isEmpty then s.pagedKeywords t.profile outermost
    else (s.head t).keywords ++ s.arms.flatMap Arm.keywords

end Sections

/-- A statement is its common table expressions and, behind them, a paged SELECT or operands. -/
theorem skeleton_sectionTokens (hB : Auxiliary B) (hs : s.Holds (Nested.IsPhrase t.profile F) F)
    {outermost : Bool} (hlevels : ∀ level ∈ s.pageLevels t.profile.paging, B level)
    (hoperands : s.arms.isEmpty = false → B (s.head t).keywords ∧ ∀ arm ∈ s.arms, B arm.operand.keywords)
    (h : sectionTokens t s outermost = .ok ts) :
    Skeleton B (s.statementKeywords t outermost) (s.parts t) ts := by
  obtain ⟨ctes, hctes, h⟩ := bind_eq_ok h
  have hctes : Skeleton B _ _ ctes := skeleton_withTokens hctes
  unfold Sections.statementKeywords Sections.parts
  cases hempty : s.arms.isEmpty with
  | true =>
    rw [hempty] at h
    obtain ⟨head, hhead, h⟩ := bind_eq_ok h
    cases h
    exact hctes.append (skeleton_pagedTokens hB hs hlevels hhead)
  | false =>
    rw [hempty] at h
    obtain ⟨paged, hpaged, h⟩ := bind_eq_ok h
    obtain ⟨head, hhead, h⟩ := bind_eq_ok h
    obtain ⟨arms, harms, h⟩ := bind_eq_ok h
    cases h
    obtain ⟨hfirst, hrest⟩ := hoperands hempty
    have hhead := skeleton_operandTokens (n := s.head t) hfirst hpaged hhead
    have harms := Skeleton.flatten (fun arm => [arm.operand]) Arm.keywords harms fun arm harm _ =>
      arm.skeleton_tokens (hrest arm harm)
    have hall := hctes.append (hhead.append harms)
    simpa [List.map_eq_flatMap] using hall

end

/-! ## Levels of statements -/

section

variable {t : Target} {s : Sections Nested} {outermost : Bool}

/-- The levels of a part of a statement: those in parentheses and its own. -/
theorem Skeleton.levels_iff {B : List Keyword → Prop} {p : Profile} {own : List Keyword} {ns : List Nested}
    (h : Skeleton B own ns ts) (hn : ∀ n ∈ ns, n.IsPhrase p F) :
    (∀ level ∈ Token.levels ts, B level) ↔ (∀ n ∈ ns, n.LevelsHold B) ∧ B own := by
  obtain ⟨closed, hlayout, hclosed⟩ := h.exists_layout hn
  rw [hlayout.levels_eq, List.forall_mem_append, List.forall_mem_singleton, hclosed]

theorem Sections.isPhrase_head (hs : s.Holds (Nested.IsPhrase t.profile F) F) :
    (s.head t).IsPhrase t.profile F :=
  fun _ h => phrase_pagedTokens hs h

theorem Sections.isPhrase_parts (hs : s.Holds (Nested.IsPhrase t.profile F) F) :
    ∀ n ∈ s.parts t, n.IsPhrase t.profile F := by
  obtain ⟨hctes, hselect, harms⟩ := forall_mem_nested.1 hs.nested
  refine List.forall_mem_append.2 ⟨List.forall_mem_map.2 hctes, ?_⟩
  split
  · exact hselect
  · exact List.forall_mem_cons.2 ⟨isPhrase_head hs, List.forall_mem_map.2 harms⟩

theorem ownLevel_pagedTokens (hs : s.Holds (Nested.IsPhrase t.profile F) F)
    (h : pagedTokens t s outermost = .ok ts) : Token.ownLevel ts = s.pagedKeywords t.profile outermost := by
  have hskeleton := skeleton_pagedTokens .any hs (fun _ _ => trivial) h
  obtain ⟨closed, hlayout, -⟩ := hskeleton.exists_layout (Sections.forall_mem_nested.1 hs.nested).2.1
  exact hlayout.ownLevel_eq

/-- The section keywords of a statement outside parentheses. -/
theorem ownLevel_sectionTokens (hs : s.Holds (Nested.IsPhrase t.profile F) F)
    (h : sectionTokens t s outermost = .ok ts) : Token.ownLevel ts = s.statementKeywords t outermost := by
  have hskeleton := skeleton_sectionTokens .any hs (fun _ _ => trivial)
      (fun _ => ⟨trivial, fun _ _ => trivial⟩) h
  obtain ⟨closed, hlayout, -⟩ := hskeleton.exists_layout (Sections.isPhrase_parts hs)
  exact hlayout.ownLevel_eq

end

end QueryCompiler
