-- SUMMARY: Which operands of set operations are delimited: all but those that begin with common table expressions of their own.
import QueryCompiler.Proofs.Structure

/-!
# Delimited operands

An operand of a set operation is delimited when it stands in parentheses of its
own, or when it is a bare SELECT without anything that would be read as part of
the whole. Whether it gets parentheses is decided from its clauses, before it is
emitted. The decision is right about orders, pages and set operations. It does not
look at common table expressions: those of the first operand move in front of the
whole, those of every other operand stay where they are. The main result says that
an operand without parentheses and with common table expressions is the only one
that is not delimited.
-/

namespace QueryCompiler

/-! ## Delimited tokens -/

section

variable {α : Type} {p : Profile} {ts : List (Token α)}

/-- The keywords that an operand may have only in parentheses. -/
def Keyword.isDelimiting : Keyword → Bool
  | .with_ | .orderBy | .limit | .offset | .union | .intersect | .except => true
  | _ => false

/-- A SELECT that has none of these keywords at its own level. -/
structure IsBareSelect (ts : List (Token α)) : Prop where
  balanced : Token.Balanced ts
  begins : ts.head? = some (.keyword .select)
  own : ∀ k ∈ Token.ownLevel ts, k.isDelimiting = false

/-- An operand in parentheses, where the dialect has them around operands, or a bare SELECT. -/
inductive WellDelimited (p : Profile) : List (Token α) → Prop where
  | enclosed {ts : List (Token α)} (hp : p.hasOperandParens = true) (h : Token.Balanced ts) :
      WellDelimited p (Token.parenthesized ts)
  | bare {ts : List (Token α)} (h : IsBareSelect ts) : WellDelimited p ts

/-- An operand is well delimited unless it is exposed. Where the dialect has no parentheses around operands,
it does not begin with one. -/
structure IsOperand (p : Profile) (isExposed : Bool) (ts : List (Token α)) : Prop where
  wellDelimited_iff : WellDelimited p ts ↔ isExposed = false
  notEnclosed : p.hasOperandParens = false → ts.head? ≠ some (.symbol .lparen)

theorem IsOperand.of_wellDelimited (h : WellDelimited p ts) : IsOperand p false ts where
  wellDelimited_iff := iff_of_true h rfl
  notEnclosed := by
    intro hp
    cases h with
    | enclosed hparens => exact absurd (hparens.symm.trans hp) (by decide)
    | bare h => simp [h.begins]

theorem not_wellDelimited_of_with (h : ts.head? = some (.keyword .with_)) : ¬WellDelimited p ts := by
  intro hd
  cases hd with
  | enclosed => cases h
  | bare hbare => cases h.symm.trans hbare.begins

theorem IsOperand.of_with (h : ts.head? = some (.keyword .with_)) : IsOperand p true ts where
  wellDelimited_iff := iff_of_false (not_wellDelimited_of_with h) (by decide)
  notEnclosed _ := by simp [h]

/-! ## Numbered operands -/

theorem Token.head?_renumber_keyword {n : Nat} {k : Keyword} (h : ts.head? = some (.keyword k)) :
    (Token.renumber n ts).head? = some (.keyword k) := by
  cases ts with
  | nil => cases h
  | cons t rest =>
    obtain rfl : t = .keyword k := by simpa using h
    rfl

theorem WellDelimited.renumber (h : WellDelimited p ts) (n : Nat) :
    WellDelimited p (Token.renumber n ts) := by
  cases h with
  | enclosed hp h =>
    rw [Token.renumber_parenthesized]
    exact .enclosed hp (h.renumber n)
  | bare h =>
    refine .bare ⟨h.balanced.renumber n, Token.head?_renumber_keyword h.begins, ?_⟩
    rw [Token.ownLevel, Token.levels_renumber]
    exact h.own

end

/-! ## Operands of a query -/

/-- It has common table expressions of its own. -/
def Query.hasCtes (q : Query) : Bool :=
  !(q.clauses.filterMap Clause.cte?).isEmpty

/-- As an operand it begins with its common table expressions. -/
def Query.isExposed (q : Query) : Bool :=
  q.hasCtes && !q.isDelimited

/-- What stands in front of the operand of an arm. -/
def Arm.operatorTokens {σ α : Type} (arm : Arm σ) : List (Token α) :=
  [.space, .keyword arm.operator.sectionKeyword] ++ (if arm.all then [.space, .keyword .all] else []) ++ [.space]

/-- The tokens are those of the arms of a set operation, each operand behind its operator. -/
inductive IsArms {α : Type} (p : Profile) : List (Arm Query) → List (Token α) → Prop where
  | nil : IsArms p [] []
  | cons {arm : Arm Query} {arms : List (Arm Query)} {operand rest : List (Token α)}
      (h : IsOperand p arm.operand.isExposed operand) (hrest : IsArms p arms rest) :
      IsArms p (arm :: arms) (arm.operatorTokens ++ operand ++ rest)

/-- The tokens are those of the set operation of a query: its common table expressions, its first operand
and its arms. -/
inductive IsSetOperation {α : Type} (p : Profile) (s : Sections Query) : List (Token α) → Prop where
  | mk {ctes head arms : List (Token α)} (hbalanced : Token.Balanced ctes)
      (hctes : Token.ownLevel ctes = Keyword.with_.when (!s.ctes.isEmpty)) (hhead : IsOperand p false head)
      (harms : IsArms p s.arms arms) : IsSetOperation p s (ctes ++ head ++ arms)

section

variable {F : Fragment → Prop} {t : Target} {ts : List (Token Value)}

/-- A SELECT that need not be delimited has no page. -/
theorem Sections.plan_eq_whole {σ : Type} {s : Sections σ} (hd : s.isDelimited = false) (paging : Paging) :
    Plan.ofPage paging s.page = .whole := by
  have hpage : s.page.isPartial = false := (Bool.or_eq_false_iff.1 hd).2
  simp [Plan.ofPage, hpage]

theorem Sections.isDelimiting_of_mem_pagedKeywords {σ : Type} {s : Sections σ} {p : Profile} {outermost : Bool}
    (hd : s.isDelimited = false) : ∀ k ∈ s.pagedKeywords p outermost, k.isDelimiting = false := by
  have horders : s.orders.isEmpty = true := by
    simpa using (Bool.or_eq_false_iff.1 hd).1
  rw [pagedKeywords, plan_eq_whole hd]
  simp only [keywords, bodyKeywords, horders, List.forall_mem_cons, List.forall_mem_append,
    List.forall_mem_flatMap, Keyword.mem_when]
  simp [Shape.keywords, Keyword.isDelimiting]

/-- A SELECT that has neither an order nor a page is bare. -/
theorem isBareSelect_pagedTokens {s : Sections Nested} {outermost : Bool}
    (hs : s.Holds (Nested.IsPhrase t.profile F) F) (hd : s.isDelimited = false)
    (h : pagedTokens t s outermost = .ok ts) : IsBareSelect ts := by
  have hown := ownLevel_pagedTokens hs h
  refine ⟨(phrase_pagedTokens hs h).balanced, ?begins, ?own⟩
  case begins =>
    obtain ⟨rest, rfl⟩ := pagedTokens_eq_cons h
    rfl
  case own =>
    rw [hown]
    exact Sections.isDelimiting_of_mem_pagedKeywords hd

/-- What is put in parentheses, or needs none, is well delimited. -/
theorem wellDelimited_operandTokens {p : Profile} {isDelimited : Bool} {a : List (Token Value)}
    (ha : Token.Balanced a) (hbare : isDelimited = false → IsBareSelect a)
    (h : operandTokens p isDelimited a = .ok ts) : WellDelimited p ts := by
  obtain ⟨hd, rfl⟩ | ⟨-, hparens, rfl⟩ := operandTokens_cases h
  · exact .bare (hbare hd)
  · exact .enclosed hparens ha

namespace Query

variable {q : Query}

theorem ctes_of_sections {s : Sections Query} (h : q.sections = .ok s) : q.hasCtes = !s.ctes.isEmpty := by
  obtain ⟨items, -, rfl⟩ := map_eq_ok h
  rfl

theorem isPhrase_nested_any (q : Query) : (q.nested t).IsPhrase t.profile fun _ => True :=
  isPhrase_nested (everywhere_of_forall (fun _ _ _ => trivial) q)

/-- The tokens of a nested query that need not be delimited: its common table expressions and a bare
SELECT. -/
theorem exists_withTokens_append (hd : q.isDelimited = false) (h : (q.nested t).statement = .ok ts) :
    ∃ ctes head, ts = ctes ++ head ∧ IsBareSelect head ∧
      (if q.hasCtes then ctes.head? = some (.keyword .with_) else ctes = []) := by
  have htokens : q.tokensAt t false = .ok ts := h
  rw [tokensAt_eq] at htokens
  obtain ⟨s, hs, htokens⟩ := bind_eq_ok htokens
  obtain ⟨hd, harms⟩ : s.isDelimited = false ∧ s.arms.isEmpty = true := by
    simpa [isDelimited_of_sections hs] using hd
  obtain ⟨ctes, hctes, htokens⟩ := bind_eq_ok htokens
  rw [if_pos (by simpa using harms)] at htokens
  obtain ⟨head, hhead, htokens⟩ := bind_eq_ok htokens
  cases htokens
  refine ⟨ctes, head, rfl, isBareSelect_pagedTokens (holds_sections hs) hd hhead, ?_⟩
  have hempty : (s.map (Query.nested t)).ctes.isEmpty = s.ctes.isEmpty := List.isEmpty_map
  unfold withTokens at hctes
  rw [ctes_of_sections hs]
  rw [hempty] at hctes
  cases hc : s.ctes.isEmpty with
  | true =>
    rw [hc] at hctes
    cases hctes
    rfl
  | false =>
    rw [hc] at hctes
    obtain ⟨list, -, hctes⟩ := bind_eq_ok hctes
    cases hctes
    rfl

end Query

/-- The operand of an arm, wherever the numbers of its parameters begin. -/
theorem Arm.exists_operand {arm : Arm Query} (h : (arm.map (Query.nested t)).tokens t.profile = .ok ts) :
    ∃ operand, ts = arm.operatorTokens ++ operand ∧
      ∀ n, IsOperand t.profile arm.operand.isExposed (Token.renumber n operand) := by
  obtain ⟨keyword, hkeyword, h⟩ := bind_eq_ok h
  obtain ⟨statement, hstatement, h⟩ := bind_eq_ok h
  obtain ⟨operand, hoperand, h⟩ := bind_eq_ok h
  obtain rfl := SetOperator.keyword_eq hkeyword
  cases h
  refine ⟨operand, rfl, fun n => ?_⟩
  have hstatement : (arm.operand.nested t).statement = .ok statement := hstatement
  have hbalanced := (arm.operand.isPhrase_nested_any statement hstatement).balanced
  rw [Arm.map, Query.isDelimited_nested] at hoperand
  cases hd : arm.operand.isDelimited with
  | true =>
    rw [hd] at hoperand
    have hoperand := wellDelimited_operandTokens hbalanced (by simp) hoperand
    rw [Query.isExposed, hd, Bool.not_true, Bool.and_false]
    exact .of_wellDelimited (hoperand.renumber n)
  | false =>
    rw [hd] at hoperand
    cases hoperand
    obtain ⟨ctes, head, rfl, hhead, hctes⟩ := Query.exists_withTokens_append hd hstatement
    rw [Query.isExposed, hd, Bool.not_false, Bool.and_true]
    cases hc : arm.operand.hasCtes with
    | true =>
      rw [hc, if_pos rfl] at hctes
      exact .of_with (Token.head?_renumber_keyword (by simp [List.head?_append, hctes]))
    | false =>
      rw [hc, if_neg (by decide)] at hctes
      rw [hctes]
      exact .of_wellDelimited (WellDelimited.bare hhead |>.renumber n)

theorem Arm.renumber_operatorTokens {σ α : Type} (arm : Arm σ) (n : Nat) :
    Token.renumber n (arm.operatorTokens : List (Token α)) = arm.operatorTokens := by
  cases hall : arm.all <;> simp [operatorTokens, hall, Token.renumber, Token.map]

/-- The arms of a set operation, wherever the numbers of their parameters begin. -/
theorem isArms_renumber {arms : List (Arm Query)} {lists : List (List (Token Value))}
    (h : (arms.map (Arm.map (Query.nested t))).mapM (Arm.tokens t.profile) = .ok lists) (n : Nat) :
    IsArms t.profile arms (Token.renumber n lists.flatten) := by
  have hlists := List.forall₂_map_left_iff.1 (mapM_eq_ok h)
  clear h
  induction hlists generalizing n with
  | nil => exact .nil
  | @cons arm ts arms lists harm _ ih =>
    obtain ⟨operand, rfl, hoperand⟩ := Arm.exists_operand harm
    rw [List.flatten_cons, Token.renumber_append, Token.renumber_append, Arm.renumber_operatorTokens]
    exact .cons (hoperand _) (ih _)

end

/-! ## Queries -/

namespace Query

variable {t : Target} {q : Query} {ts : List (Token Value)}

/-- The tokens of a set operation, wherever the numbers of its parameters begin. -/
theorem isSetOperation_renumber {outermost : Bool} (h : q.tokensAt t outermost = .ok ts)
    (hq : q.hasSetOperations = true) (n : Nat) :
    ∃ s, q.sections = .ok s ∧ IsSetOperation t.profile s (Token.renumber n ts) := by
  rw [tokensAt_eq] at h
  obtain ⟨s, hs, h⟩ := bind_eq_ok h
  refine ⟨s, hs, ?_⟩
  have hholds := holds_sections (t := t) hs
  obtain ⟨ctes, hctes, h⟩ := bind_eq_ok h
  rw [arms_of_sections hs] at hq
  rw [if_neg (by simpa using hq)] at h
  obtain ⟨paged, hpaged, h⟩ := bind_eq_ok h
  obtain ⟨head, hhead, h⟩ := bind_eq_ok h
  obtain ⟨arms, harms, h⟩ := bind_eq_ok h
  cases h
  rw [Token.renumber_append, Token.renumber_append]
  refine .mk ?balanced ?ctes ?head (isArms_renumber harms _)
  case balanced =>
    have hzero : Phrase t.profile (fun _ => True) Keyword.any [.litInt 0] := .word .zero
    have hall := (phrase_withTokens hholds.ctes hctes hzero).balanced
    exact (hall.of_append hzero.balanced).renumber n
  case ctes =>
    obtain ⟨closed, hlayout, -⟩ := (skeleton_withTokens (B := fun _ => True) hctes).exists_layout
      (List.forall_mem_map.2 hholds.ctes)
    rw [Token.ownLevel, Token.levels_renumber, ← Token.ownLevel, hlayout.ownLevel_eq]
    simp
  case head =>
    have hbalanced := (phrase_pagedTokens hholds hpaged).balanced
    have hhead := wellDelimited_operandTokens hbalanced (fun hd => isBareSelect_pagedTokens hholds hd hpaged) hhead
    exact .of_wellDelimited (hhead.renumber _)

end Query

namespace Compiler

/-- In every set operation of a compiled statement, at any depth, the first operand is delimited, and every
other one exactly when it is in parentheses or has no common table expressions. SQLite puts no operand
in parentheses. Orders and pages are found alike in the sections of a first operand and in the clauses of
the others. -/
theorem isSetOperation_compile {c : Compiler} {q : Query} {r : Compiled} (h : c.compile q = .ok r) :
    (q.AtEveryLevel fun level => level.hasSetOperations = true →
      ∃ s context part after, level.sections = .ok s ∧
        (level.emit c.target).run context = .ok (part, after) ∧ part <:+: r.tokens ∧
        IsSetOperation c.dialect.profile s part) ∧
    (c.dialect.profile.hasOperandParens = false ↔ c.dialect = .sqlite) ∧
    ∀ (level : Query) (s : Sections Query), level.sections = .ok s →
      s.isDelimited = (level.isOrdered || level.isPaged) := by
  refine ⟨?operands, ?parens, fun level s hs => ?test⟩
  case operands =>
    refine (Query.atEveryLevel_emitted (run_emit_of_compile h)).mono fun level hemitted hlevel => ?_
    obtain ⟨context, part, after, hemit, hinfix⟩ := hemitted
    obtain ⟨tokens, htokens, rfl⟩ := Query.exists_tokensAt hemit
    obtain ⟨s, hs, hoperation⟩ := Query.isSetOperation_renumber htokens hlevel context.bindings.size
    exact ⟨s, context, _, after, hs, hemit, hinfix, hoperation⟩
  case parens => cases c.dialect <;> decide
  case test =>
    rw [Sections.isDelimited, Query.orders_of_sections hs, Query.page_of_sections hs]
    rfl

/-- The rows of a table as a common table expression. -/
def sharedRows : Query :=
  ⟨[.cte "x" ⟨[.from (.table "b" none)]⟩, .from (.table "x" none)]⟩

/-- The last rows of a table and these, in parentheses and with common table expressions on both sides. -/
def mergedRows : Query :=
  ⟨[.cte "y" ⟨[.from (.table "a" none)]⟩, .from (.table "y" none), .orderBy (.column "id") .desc, .limit 5,
    .setOperation ⟨sharedRows.clauses ++ [.limit 3]⟩ .union true]⟩

theorem isSetOperation_compile_mergedRows :
    ∃ r, ({ dialect := .postgres } : Compiler).compile mergedRows = .ok r ∧
      ∃ s context part after, mergedRows.sections = .ok s ∧
        (mergedRows.emit ({ dialect := .postgres } : Compiler).target).run context = .ok (part, after) ∧
        part <:+: r.tokens ∧ IsSetOperation Dialect.postgres.profile s part := by
  obtain ⟨r, hr⟩ : ∃ r, ({ dialect := .postgres } : Compiler).compile mergedRows = .ok r := ⟨_, rfl⟩
  obtain ⟨hoperands, -, -⟩ := isSetOperation_compile hr
  exact ⟨r, hr, (Query.atEveryLevel_iff.1 hoperands).1 rfl⟩

/-- An operand that is neither ordered nor paged keeps its common table expressions without parentheses. -/
theorem not_wellDelimited_sharedRows :
    ∃ r before operand, ({ dialect := .postgres } : Compiler).compile
        ⟨[.from (.table "a" none), .setOperation sharedRows .union false]⟩ = .ok r ∧
      r.tokens = before ++ [.space, .keyword .union, .space] ++ operand ∧
      Token.ownLevel operand = [.with_, .select, .from] ∧
      ¬WellDelimited Dialect.postgres.profile operand := by
  refine ⟨_, [.keyword .select, .space, .symbol .star, .space, .keyword .from, .space, .ident "a"], _, rfl, rfl,
    by decide, not_wellDelimited_of_with rfl⟩

end Compiler

end QueryCompiler
