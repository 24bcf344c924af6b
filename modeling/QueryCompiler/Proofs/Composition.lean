-- SUMMARY: A query inside a statement is emitted as on its own, with its parameters counted on; and what the outermost place adds.
import QueryCompiler.Proofs.Occurrence
import QueryCompiler.Proofs.Values
import QueryCompiler.Query.Builder

/-!
# Composition

The statement around a query has bound values before it comes to the query. All
that these change is where the numbers of its parameters begin. Whether a query is
the outermost one changes less still: only a page by row numbers repeats its order
there, and that order binds nothing. So a statement is composed of the statements in
it, and the bindings of a set operation are those of its operands, one after the
other.
-/

namespace QueryCompiler

/-! ## Numbering after other values -/

theorem Token.renumber_add {α : Type} (n m : Nat) (tokens : List (Token α)) :
    renumber (n + m) tokens = (renumber m tokens).map (Token.map (n + ·)) := by
  induction tokens generalizing m with
  | nil => rfl
  | cons t rest ih =>
    rw [renumber, renumber, List.map_cons, Nat.add_assoc, ih]
    cases t <;> rfl

namespace Context

/-- Numbering after other values is numbering from zero, with every number moved on. -/
theorem number_shift (c : Context) (depth : Nat) (tokens : List (Token Value)) :
    c.number tokens = (((⟨{}, depth⟩ : Context).number tokens).1.map (Token.map (c.bindings.size + ·)),
      { c with bindings := c.bindings.append ((⟨{}, depth⟩ : Context).number tokens).2.bindings }) := by
  have hempty : (⟨{}, depth⟩ : Context).number tokens
      = (Token.renumber 0 tokens, ⟨⟨(Token.params tokens).toArray⟩, depth⟩) := by
    simp [number, bindAll, Bindings.size]
  rw [hempty, number, ← Token.renumber_add, Nat.add_zero]
  rfl

end Context

/-! ## The outermost place -/

/-- The order on the column of row numbers. -/
def ordinalOrder {α : Type} (t : Target) : List (Token α) :=
  Token.spaced .orderBy ++ [t.profile.aliasToken t.options.rowNumberAlias]

theorem number_ordinalOrder (t : Target) (c : Context) : c.number (ordinalOrder t) = (ordinalOrder t, c) := by
  simp [Context.number, ordinalOrder]

theorem Except.map_append_nil {ε α : Type} (x : Except ε (List α)) : x.map (· ++ []) = x := by
  cases x with
  | error e => rfl
  | ok list => exact congrArg Except.ok (List.append_nil list)

section

variable (t : Target) (s : Sections Nested)

theorem pagedTokens_outermost :
    pagedTokens t s true = (pagedTokens t s false).map
      (· ++ if (Plan.ofPage t.profile.paging s.page).isRowNumber && !s.orders.isEmpty then ordinalOrder t
        else []) := by
  unfold pagedTokens
  cases Plan.ofPage t.profile.paging s.page with
  | rowNumber page =>
    unfold rowNumberPage
    cases numberedRows t s with
    | error e => rfl
    | ok inner =>
      refine congrArg Except.ok ?_
      cases s.orders.isEmpty <;> simp [ordinalOrder, Plan.isRowNumber]
  | whole | limitOffset | top | rowNum => exact (Except.map_append_nil _).symm

theorem sectionTokens_outermost :
    sectionTokens t s true = (sectionTokens t s false).map
      (· ++ if s.arms.isEmpty && (Plan.ofPage t.profile.paging s.page).isRowNumber && !s.orders.isEmpty
        then ordinalOrder t else []) := by
  dsimp only [sectionTokens]
  cases withTokens t.profile s.ctes with
  | error e => rfl
  | ok ctes =>
    cases harms : s.arms.isEmpty with
    | false => exact (Except.map_append_nil _).symm
    | true =>
      rw [pagedTokens_outermost]
      cases pagedTokens t s false with
      | error e => rfl
      | ok head => exact congrArg Except.ok (List.append_assoc ..).symm

end

namespace Query

/-- What the outermost place adds to the tokens of a query. -/
theorem tokensAt_outermost (c : Compiler) (q : Query) :
    q.tokensAt c.target true = (q.tokensAt c.target false).map
      (· ++ if c.dialect = .tsql ∧ q.hasSetOperations = false ∧ q.isOrdered = true ∧ q.offset?.isSome = true
        then ordinalOrder c.target else []) := by
  rw [tokensAt_eq, tokensAt_eq]
  cases hs : q.sections with
  | error e => rfl
  | ok s =>
    have hadds :
        (s.arms.isEmpty && (Plan.ofPage c.target.profile.paging s.page).isRowNumber && !s.orders.isEmpty)
        = decide (c.dialect = .tsql ∧ q.hasSetOperations = false ∧ q.isOrdered = true ∧
          q.offset?.isSome = true) := by
      have hoffset : q.offset? = s.page.offset := by
        rw [page_of_sections hs]
        rfl
      rw [Compiler.target, Plan.isRowNumber_ofPage, arms_of_sections hs, orders_of_sections hs, hoffset]
      grind
    refine (sectionTokens_outermost c.target (s.map (Query.nested c.target))).trans ?_
    have harms : (s.map (Query.nested c.target)).arms.isEmpty = s.arms.isEmpty := List.isEmpty_map
    rw [harms, Sections.map_page, Sections.map_orders, hadds]
    simp only [decide_eq_true_eq]
    rfl

/-! ## Set operations -/

theorem sections_setOperation {q : Query} {s : Sections Query} (h : q.sections = .ok s) (arm : Query)
    (operator : SetOperator) (all : Bool) :
    (q.push (.setOperation arm operator all)).sections
      = .ok { s with arms := s.arms ++ [⟨operator, all, arm⟩] } := by
  obtain ⟨items, hitems, rfl⟩ := map_eq_ok h
  obtain ⟨lists, hlists, rfl⟩ := map_eq_ok hitems
  have hpushed :
      Selection.ofClauses (q.push (.setOperation arm operator all)).clauses = .ok lists.flatten := by
    rw [Selection.ofClauses, push, List.mapM_append, hlists]
    refine congrArg Except.ok ?_
    simp
  rw [sections, Sections.ofClauses, hpushed]
  refine congrArg Except.ok ?_
  simp [Sections.ofItems, push, Clauses.isDistinct, Clauses.source, Clauses.orders, Clauses.page,
    Clauses.limit,
    Clauses.offset, Clause.cte?, Clause.isDistinct, Clause.source?, Clause.join?, Clause.filter?, Clause.group?,
    Clause.having?, Clause.order?, Clause.limit?, Clause.offset?, Arm.ofClause?]

/-- The values of a set operation are those of what stands before it, then those of its operand. -/
theorem values_setOperation {p : Profile} {q : Query} {s : Sections Query} (h : q.sections = .ok s)
    (arm : Query) (operator : SetOperator) (all : Bool) :
    (q.push (.setOperation arm operator all)).values p = q.values p ++ arm.values p := by
  rw [values_eq h, values_eq (sections_setOperation h arm operator all)]
  have hpaged :
      (Sections.map (Query.values p) { s with arms := s.arms ++ [⟨operator, all, arm⟩] }).pagedValues p
      = (s.map (Query.values p)).pagedValues p := rfl
  rw [Sections.values, Sections.values, hpaged]
  simp [Arm.map]

end Query

namespace Compiler

/-- A query inside a statement is emitted as it is before any value is bound and at any other depth inside:
the values that are bound already only move its numbers on and stay in front of its own. It stands so in the
statement around it. The outermost place adds at most the order on the row numbers. The bindings of a set
operation are those of its operands. -/
theorem emission_composes (c : Compiler) (q : Query) :
    (∀ b depth own, 0 < depth → 0 < own → (q.emit c.target).run ⟨b, depth⟩
      = ((q.emit c.target).run ⟨{}, own⟩).map fun (ts, after) =>
        (ts.map (Token.map (b.size + ·)), ⟨b.append after.bindings, depth⟩)) ∧
    (∀ b depth, 0 < depth → (q.emit c.target).run ⟨b, 0⟩
      = ((q.emit c.target).run ⟨b, depth⟩).map fun (ts, after) =>
        (ts ++ if c.dialect = .tsql ∧ q.hasSetOperations = false ∧ q.isOrdered = true ∧
            q.offset?.isSome = true then ordinalOrder c.target else [],
          ⟨after.bindings, 0⟩)) ∧
    (∀ b depth ts after, (q.emit c.target).run ⟨b, depth⟩ = .ok (ts, after) → ∀ inner ∈ q.inside,
      ∃ front mid back own mine rest, ts = front ++ mid ++ back ∧
        (inner.emit c.target).run ⟨b.append own, depth + 1⟩
          = .ok (mid, ⟨(b.append own).append mine, depth + 1⟩) ∧
        after = ⟨((b.append own).append mine).append rest, depth⟩) ∧
    ∀ arm operator all r head operand, c.compile (q.push (.setOperation arm operator all)) = .ok r →
      c.compile q = .ok head → c.compile arm = .ok operand →
      r.bindings = head.bindings ++ operand.bindings := by
  have hinside (depth : Nat) (h : 0 < depth) : (depth == 0) = false := by simpa using Nat.ne_of_gt h
  refine ⟨fun b depth own hdepth hown => ?shift, fun b depth hdepth => ?outermost,
    fun b depth ts after h inner hinner => Query.exists_emit_inside h hinner,
    fun arm operator all r head operand hr hhead hoperand => ?operands⟩
  case shift =>
    rw [Query.run_emit, Query.run_emit, hinside depth hdepth, hinside own hown]
    cases q.tokensAt c.target false with
    | error e => rfl
    | ok tokens => exact congrArg Except.ok (Context.number_shift ⟨b, depth⟩ own tokens)
  case outermost =>
    rw [Query.run_emit, Query.run_emit, hinside depth hdepth, beq_self_eq_true, Query.tokensAt_outermost]
    cases q.tokensAt c.target false with
    | error e => rfl
    | ok tokens =>
      refine congrArg Except.ok ?_
      rw [Context.number_append]
      split
      · rw [number_ordinalOrder]
        rfl
      · simp [Context.number]
        rfl
  case operands =>
    obtain ⟨tokens, htokens, -, -⟩ := compile_eq_ok_iff.1 hhead
    obtain ⟨s, hs, -⟩ := bind_eq_ok ((Query.tokensAt_eq c.target q true).symm.trans htokens)
    rw [bindings_compile hr, bindings_compile hhead, bindings_compile hoperand,
      Query.values_setOperation hs, List.append_toArray]

/-- The later rows of a filtered table, filtered again. -/
def laterRows : Query :=
  ⟨[.from (.subquery ⟨[.from (.table "b" none), .filter (.eq "x" (.int 1))]⟩ "s"),
    .filter (.eq "y" (.int 2)), .orderBy (.column "id") .asc, .offset 5]⟩

/-- The first row of a table. -/
def firstRow : Query :=
  ⟨[.from (.table "c" none), .limit 1]⟩

theorem emission_composes_laterRows :
    ∃ ts after, (laterRows.emit (⟨.tsql, {}⟩ : Compiler).target).run ⟨⟨#[.null]⟩, 2⟩ = .ok (ts, after) ∧
      Token.params ts = [1, 2, 3] ∧ after.bindings.values = #[.null, .int 1, .int 2, .int 6] ∧
      (∀ inner ∈ laterRows.inside, ∃ front mid back b₁ b₂, ts = front ++ mid ++ back ∧
        (inner.emit (⟨.tsql, {}⟩ : Compiler).target).run ⟨b₁, 3⟩ = .ok (mid, ⟨b₂, 3⟩)) ∧
      (laterRows.emit (⟨.tsql, {}⟩ : Compiler).target).run ⟨⟨#[.null]⟩, 0⟩
        = .ok (ts ++ ordinalOrder (⟨.tsql, {}⟩ : Compiler).target, ⟨after.bindings, 0⟩) ∧
      ∃ r, (⟨.tsql, {}⟩ : Compiler).compile (laterRows.union firstRow) = .ok r ∧
        r.bindings = #[.int 1, .int 2, .int 6, .int 1] := by
  obtain ⟨-, houtermost, hinside, hunion⟩ := emission_composes ⟨.tsql, {}⟩ laterRows
  refine ⟨_, _, rfl, rfl, rfl, fun inner hinner => ?_, houtermost ⟨#[.null]⟩ 2 (by decide), _, rfl, ?_⟩
  · obtain ⟨front, mid, back, own, mine, rest, hts, hemit, -⟩ := hinside ⟨#[.null]⟩ 2 _ _ rfl inner hinner
    exact ⟨front, mid, back, _, _, hts, hemit⟩
  · exact hunion firstRow .union false _ _ _ rfl rfl rfl

end Compiler

end QueryCompiler
