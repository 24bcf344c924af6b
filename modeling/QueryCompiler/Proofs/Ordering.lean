-- SUMMARY: Where ORDER BY stands without TOP in a statement with native counts: exactly the nested statements that are ordered and not paged.
import Mathlib.Data.List.Basic
import QueryCompiler.Proofs.Occurrence

/-!
# Orders in nested statements

A dialect that counts rows by `TOP` takes no order in parentheses without a count.
Paging sees to it: a page without an offset counts, and one with an offset moves
the order into the window of the row numbers. A nested statement that is ordered
and not paged keeps its order all the same. The main result says that these are
the only ones: every order in parentheses is counted exactly when no query inside
the statement is ordered without a page.
-/

namespace QueryCompiler

/-! ## Counted orders -/

/-- No SELECT of a level has an `ORDER BY` without `TOP`. What belongs to a SELECT follows it up to the
next one; an order in front of every SELECT is that of a window. -/
def OrdersCounted (level : List Keyword) : Prop :=
  ∀ before sections after, level = before ++ .select :: (sections ++ after) → .select ∉ sections →
    .orderBy ∈ sections → .top ∈ sections

theorem ordersCounted_of_orderBy_not_mem {level : List Keyword} (h : .orderBy ∉ level) :
    OrdersCounted level := by
  rintro before sections after rfl - horder
  exact absurd (by simp [horder]) h

theorem ordersCounted_of_select_not_mem {level : List Keyword} (h : .select ∉ level) :
    OrdersCounted level := by
  rintro before sections after rfl
  exact absurd (by simp) h

theorem auxiliary_ordersCounted : Auxiliary OrdersCounted where
  group := ordersCounted_of_orderBy_not_mem (by simp)
  window := ordersCounted_of_select_not_mem (by decide)
  constant := ordersCounted_of_orderBy_not_mem (by decide)

/-- A single SELECT with its order at the end. -/
theorem ordersCounted_iff {before sections : List Keyword} {ordered : Bool} (hbefore : .select ∉ before)
    (hselect : .select ∉ sections) (horder : .orderBy ∉ sections) :
    OrdersCounted (before ++ .select :: (sections ++ Keyword.orderBy.when ordered)) ↔
      (ordered = true → .top ∈ sections) := by
  constructor
  · rintro h rfl
    have htop := h before (sections ++ [.orderBy]) [] (by simp [Keyword.when]) (by simp [hselect]) (by simp)
    simpa using htop
  · rintro h before' sections' after heq - horder'
    have hrest : .select ∉ sections ++ Keyword.orderBy.when ordered := by
      cases ordered <;> simp [Keyword.when, hselect]
    obtain ⟨-, -, heq⟩ := (List.append_cons_inj_of_notMem hbefore hrest).1 heq
    obtain ⟨more, rfl, hmore⟩ | ⟨more, rfl, -⟩ := List.append_eq_append_iff.1 heq
    · cases ordered with
      | true => exact List.mem_append_left _ (h rfl)
      | false =>
        obtain ⟨rfl, -⟩ := List.append_eq_nil_iff.1 hmore.symm
        exact absurd (by simpa using horder') horder
    · exact absurd (List.mem_append_left _ horder') horder

/-! ## Levels of selects -/

namespace Sections

variable {σ : Type} (s : Sections σ)

theorem select_not_mem_bodyKeywords (shape : Shape) : .select ∉ s.bodyKeywords shape := by
  cases shape <;> simp [bodyKeywords, Shape.keywords]

theorem orderBy_not_mem_bodyKeywords (shape : Shape) : .orderBy ∉ s.bodyKeywords shape := by
  cases shape <;> simp [bodyKeywords, Shape.keywords]

theorem top_mem_bodyKeywords (shape : Shape) : .top ∈ s.bodyKeywords shape ↔ .top ∈ shape.keywords := by
  simp [bodyKeywords]

/-- A SELECT, perhaps behind common table expressions. -/
theorem ordersCounted_keywords (hasCtes : Bool) (shape : Shape) :
    OrdersCounted (Keyword.with_.when hasCtes ++ s.keywords shape) ↔
      ((shape.isOrdering && !s.orders.isEmpty) = true → .top ∈ shape.keywords) := by
  rw [keywords, ordersCounted_iff (by simp) (s.select_not_mem_bodyKeywords shape)
    (s.orderBy_not_mem_bodyKeywords shape), top_mem_bodyKeywords]

/-- A dialect that counts by `TOP` counts the order of a nested SELECT exactly when it is paged. -/
theorem ordersCounted_pagedKeywords {p : Profile} (hp : p.paging = .topCount) (hasCtes : Bool) :
    OrdersCounted (Keyword.with_.when hasCtes ++ s.pagedKeywords p false) ↔
      (s.orders.isEmpty = false → s.page.isPartial = true) := by
  unfold pagedKeywords
  rw [hp]
  obtain ⟨hpage, hplan⟩ | ⟨hpage, ⟨hpaging, -⟩ | ⟨-, limit, -, hplan⟩ | ⟨-, hplan⟩ | ⟨hpaging, -⟩⟩ :=
    Plan.ofPage_cases .topCount s.page
  · rw [hplan, hpage]
    simpa [Shape.isOrdering, Shape.keywords] using s.ordersCounted_keywords hasCtes .plain
  · cases hpaging
  · rw [hplan, hpage]
    have htop := (s.ordersCounted_keywords hasCtes (.top limit)).2 fun _ => List.mem_singleton_self _
    exact iff_of_true htop fun _ => rfl
  · rw [hplan, hpage]
    exact iff_of_true (ordersCounted_of_orderBy_not_mem (by simp [Keyword.when])) fun _ => rfl
  · cases hpaging

/-- What need not be delimited has no order. -/
theorem orderBy_not_mem_pagedKeywords {p : Profile} (hd : s.isDelimited = false) (outermost : Bool) :
    .orderBy ∉ s.pagedKeywords p outermost := by
  obtain ⟨horders, hpage⟩ : s.orders.isEmpty = true ∧ s.page.isPartial = false := by
    simpa [isDelimited] using hd
  have hplan : Plan.ofPage p.paging s.page = .whole := by
    simp [Plan.ofPage, hpage]
  rw [pagedKeywords, hplan]
  simp [keywords, orderBy_not_mem_bodyKeywords, horders]

theorem ordersCounted_of_mem_pageLevels {p : Profile} (hp : p.paging = .topCount) {level : List Keyword}
    (h : level ∈ s.pageLevels p.paging) : OrdersCounted level := by
  rw [hp] at h
  refine ordersCounted_of_orderBy_not_mem ?_
  obtain rfl | rfl : level = s.keywords .unordered ∨ level = s.numberedKeywords := by
    simpa [pageLevels] using h
  · simp [keywords, orderBy_not_mem_bodyKeywords, Shape.isOrdering]
  · unfold numberedKeywords
    split
    · decide
    · simp [keywords, orderBy_not_mem_bodyKeywords, Shape.isOrdering]

end Sections

/-! ## Levels of statements -/

section

variable {F : Fragment → Prop} {t : Target} {s : Sections Nested} {outermost : Bool}
  {ts : List (Token Value)}

/-- The own level of an operand that is not delimited has no order. -/
theorem Sections.orderBy_not_mem_keywords_head (hs : s.Holds (Nested.IsPhrase t.profile F) F) :
    .orderBy ∉ (s.head t).keywords := by
  unfold Nested.keywords
  split
  next hd hpaged =>
    rw [ownLevel_pagedTokens hs hpaged]
    exact s.orderBy_not_mem_pagedKeywords hd false
  next => simp

/-- The first operand of a set operation. -/
theorem levelsHold_head (hp : t.profile.paging = .topCount) (hs : s.Holds (Nested.IsPhrase t.profile F) F)
    (h : pagedTokens t s false = .ok ts) :
    (s.head t).LevelsHold OrdersCounted ↔
      (∀ n ∈ s.selectNested, n.LevelsHold OrdersCounted) ∧
        (s.orders.isEmpty = false → s.page.isPartial = true) := by
  have hskeleton := skeleton_pagedTokens auxiliary_ordersCounted hs
    (fun _ => s.ordersCounted_of_mem_pageLevels hp) h
  have hown := s.ordersCounted_pagedKeywords hp false
  rw [Nested.levelsHold_iff (n := s.head t) h,
    hskeleton.levels_iff (Sections.forall_mem_nested.1 hs.nested).2.1]
  exact and_congr_right' hown

/-- The parts of a statement, the first operand taken apart into what is nested in it. -/
theorem levelsHold_parts (hp : t.profile.paging = .topCount) (hs : s.Holds (Nested.IsPhrase t.profile F) F)
    (h : sectionTokens t s outermost = .ok ts) :
    (∀ n ∈ s.parts t, n.LevelsHold OrdersCounted) ↔
      (∀ n ∈ s.nested, n.LevelsHold OrdersCounted) ∧
        (s.arms.isEmpty = false → s.orders.isEmpty = false → s.page.isPartial = true) := by
  rw [Sections.parts, Sections.forall_mem_nested, List.forall_mem_append, List.forall_mem_map]
  obtain ⟨ctes, -, h⟩ := bind_eq_ok h
  cases hempty : s.arms.isEmpty with
  | true => simp [List.isEmpty_iff.1 hempty]
  | false =>
    rw [hempty] at h
    obtain ⟨paged, hpaged, -⟩ := bind_eq_ok h
    rw [if_neg Bool.false_ne_true, List.forall_mem_cons, List.forall_mem_map, levelsHold_head hp hs hpaged]
    tauto

/-- The levels of a statement inside another one or around others. -/
theorem skeleton_ordersCounted (hp : t.profile.paging = .topCount)
    (hs : s.Holds (Nested.IsPhrase t.profile F) F)
    (harms : ∀ arm ∈ s.arms, .orderBy ∉ arm.operand.keywords) (h : sectionTokens t s outermost = .ok ts) :
    Skeleton OrdersCounted (s.statementKeywords t outermost) (s.parts t) ts := by
  refine skeleton_sectionTokens auxiliary_ordersCounted hs (fun _ => s.ordersCounted_of_mem_pageLevels hp)
    (fun _ => ⟨?_, fun arm harm => ?_⟩) h
  · exact ordersCounted_of_orderBy_not_mem (Sections.orderBy_not_mem_keywords_head hs)
  · exact ordersCounted_of_orderBy_not_mem (harms arm harm)

/-- A statement in parentheses has all its orders counted when what is nested in it has, unless it is itself
ordered and not paged. -/
theorem ordersCounted_levels (hp : t.profile.paging = .topCount)
    (hs : s.Holds (Nested.IsPhrase t.profile F) F)
    (harms : ∀ arm ∈ s.arms, .orderBy ∉ arm.operand.keywords) (h : sectionTokens t s false = .ok ts) :
    (∀ level ∈ Token.levels ts, OrdersCounted level) ↔
      (s.orders.isEmpty = false → s.page.isPartial = true) ∧ ∀ n ∈ s.nested, n.LevelsHold OrdersCounted := by
  rw [(skeleton_ordersCounted hp hs harms h).levels_iff (Sections.isPhrase_parts hs),
    levelsHold_parts hp hs h, Sections.statementKeywords]
  cases hempty : s.arms.isEmpty with
  | true =>
    have hown := s.ordersCounted_pagedKeywords hp (!s.ctes.isEmpty)
    rw [if_pos rfl, hown]
    simp only [Bool.true_eq_false, false_implies, and_true]
    exact and_comm
  | false =>
    have hown : .orderBy ∉ Keyword.with_.when (!s.ctes.isEmpty) ++
        ((s.head t).keywords ++ s.arms.flatMap Arm.keywords) := by
      have hoperator (op : SetOperator) : Keyword.orderBy ≠ op.sectionKeyword := by cases op <;> decide
      simp only [List.mem_append, List.mem_flatMap, Arm.keywords, List.mem_cons, not_or, not_exists,
        not_and]
      exact ⟨by simp, Sections.orderBy_not_mem_keywords_head hs, fun arm harm => ⟨hoperator _, harms arm harm⟩⟩
    rw [if_neg Bool.false_ne_true, and_iff_left (ordersCounted_of_orderBy_not_mem hown)]
    simp only [true_implies]
    exact and_comm

end

/-! ## Queries -/

namespace Query

variable {t : Target} {q : Query} {ts : List (Token Value)}

/-- A query that need not be delimited adds no order to the level where it stands. -/
theorem orderBy_not_mem_keywords_nested (q : Query) : .orderBy ∉ (q.nested t).keywords := by
  obtain h | ⟨s, -, hd, h⟩ := keywords_nested_cases (t := t) q
  · simp [h]
  · have hpaged := Sections.orderBy_not_mem_pagedKeywords (s.map (Query.nested t)) (p := t.profile) hd false
    simp [h, hpaged]

theorem orderBy_not_mem_keywords_arms {s : Sections Query} :
    ∀ arm ∈ (s.map (Query.nested t)).arms, .orderBy ∉ arm.operand.keywords :=
  List.forall_mem_map.2 fun arm _ => orderBy_not_mem_keywords_nested arm.operand

theorem isPaged_of_sections {s : Sections Query} (h : q.sections = .ok s) :
    q.isPaged = s.page.isPartial := by
  rw [isPaged, Clauses.isPaged, page_of_sections h]

/-- The queries inside a query that is emitted, when the levels of each are known. -/
theorem forall_levelsHold_iff {s : Sections Query} {P : Query → Prop} {outermost : Bool}
    (hs : q.sections = .ok s) (h : q.tokensAt t outermost = .ok ts)
    (hinner : ∀ inner ∈ q.inside, ∀ ts, inner.tokensAt t false = .ok ts →
      ((∀ level ∈ Token.levels ts, OrdersCounted level) ↔ inner.AtEveryLevel P)) :
    (∀ n ∈ (s.map (Query.nested t)).nested, n.LevelsHold OrdersCounted) ↔
      ∀ inner ∈ q.inside, inner.AtEveryLevel P := by
  rw [Sections.nested_map, List.forall_mem_map, ← inside_eq hs]
  refine forall₂_congr fun inner hmem => ?_
  obtain ⟨ts', hts', -⟩ := standsIn_tokensAt h hmem
  rw [Nested.levelsHold_iff hts', hinner inner hmem ts' hts']

/-- A nested query has all its orders counted exactly when it and every query inside it is paged if it is
ordered. -/
theorem levelsHold_nested (hp : t.profile.paging = .topCount) (q : Query) {ts : List (Token Value)}
    (h : q.tokensAt t false = .ok ts) :
    (∀ level ∈ Token.levels ts, OrdersCounted level) ↔
      q.AtEveryLevel fun q => q.isOrdered = true → q.isPaged = true := by
  induction q using induction_inside generalizing ts with
  | step q ih =>
    have htokens := h
    rw [tokensAt_eq] at htokens
    obtain ⟨s, hs, htokens⟩ := bind_eq_ok htokens
    rw [ordersCounted_levels hp (holds_sections hs) orderBy_not_mem_keywords_arms htokens,
      forall_levelsHold_iff hs h fun inner hinner _ => ih inner hinner, atEveryLevel_iff, orders_of_sections hs,
      isPaged_of_sections hs]
    simp

end Query

namespace Compiler

/-- With native counts by `TOP`, an order stands in parentheses without a count exactly when a query inside
the statement is ordered without being paged, or the statement is a set operation whose first operand is. -/
theorem ordersCounted_innerLevels {c : Compiler} (hc : c.dialect = .tsql) {q : Query} {r : Compiled}
    (h : c.compile q = .ok r) :
    (∀ level ∈ Token.innerLevels r.tokens, OrdersCounted level) ↔
      (q.hasSetOperations = true → q.isOrdered = true → q.isPaged = true) ∧
        ∀ inner ∈ q.inside, inner.AtEveryLevel fun q => q.isOrdered = true → q.isPaged = true := by
  obtain ⟨tokens, htokens, -, rfl⟩ := compile_eq_ok_iff.1 h
  have hp : c.target.profile.paging = .topCount := by
    rw [target, hc]
    rfl
  have htokens : q.tokensAt c.target true = .ok tokens := htokens
  have hsections := htokens
  rw [Query.tokensAt_eq] at hsections
  obtain ⟨s, hs, hsections⟩ := bind_eq_ok hsections
  have hholds := Query.holds_sections (t := c.target) hs
  obtain ⟨closed, hlayout, hclosed⟩ := (skeleton_ordersCounted hp hholds Query.orderBy_not_mem_keywords_arms
    hsections).exists_layout (Sections.isPhrase_parts hholds)
  rw [Token.innerLevels_renumber, hlayout.innerLevels_eq, hclosed, levelsHold_parts hp hholds hsections,
    Query.forall_levelsHold_iff hs htokens fun inner _ _ => Query.levelsHold_nested hp inner,
    Query.orders_of_sections hs, Query.isPaged_of_sections hs, Query.arms_of_sections hs, and_comm]
  simp

/-- The orders of a shop, the latest first. -/
def latestOrders : Query :=
  ⟨[.from (.table "orders" none), .orderBy (.column "placed") .desc]⟩

/-- The same, without the first ten. -/
def laterOrders : Query :=
  ⟨latestOrders.clauses ++ [.offset 10]⟩

/-- These again, in the order of their numbers. -/
def numberedOrders : Query :=
  ⟨[.from (.subquery laterOrders "o"), .orderBy (.column "id") .asc]⟩

theorem ordersCounted_innerLevels_numberedOrders :
    ∃ r, ({} : Compiler).compile numberedOrders = .ok r ∧
      ∀ level ∈ Token.innerLevels r.tokens, OrdersCounted level := by
  obtain ⟨r, hr⟩ : ∃ r, ({} : Compiler).compile numberedOrders = .ok r := ⟨_, rfl⟩
  refine ⟨r, hr, (ordersCounted_innerLevels rfl hr).2 ⟨fun h => ?_, fun inner hinner => ?_⟩⟩
  · cases h
  · obtain rfl : inner = laterOrders := List.mem_singleton.1 hinner
    refine Query.atEveryLevel_iff.2 ⟨fun _ => rfl, fun inner hinner => ?_⟩
    cases hinner

/-- A derived table that is ordered and not paged keeps its order. -/
theorem not_ordersCounted_latestOrders :
    ∃ r, ({} : Compiler).compile ⟨[.from (.subquery latestOrders "o")]⟩ = .ok r ∧
      ¬∀ level ∈ Token.innerLevels r.tokens, OrdersCounted level := by
  refine ⟨_, rfl, fun h => ?_⟩
  have htop := h [.select, .from, .orderBy] (by decide) [] [.from, .orderBy] [] rfl (by decide) (by decide)
  exact absurd htop (by decide)

end Compiler

end QueryCompiler
