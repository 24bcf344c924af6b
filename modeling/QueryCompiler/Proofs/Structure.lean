-- SUMMARY: Parentheses match, and at every level the sections of each SELECT stand in their fixed order.
import QueryCompiler.Proofs.Occurrence

/-!
# Statement structure

A statement is put together from parts that many emitters make, and paging wraps
it up to three levels deep. Two things come out right whatever the combination:
parentheses match, and the set operators cut every level into pieces that are
each a single SELECT with its sections in their fixed order, or one of the few
things that stand where a SELECT does not.
-/

namespace QueryCompiler

/-! ## Parentheses -/

namespace Token

variable {α : Type}

def isOpening : Token α → Bool
  | .symbol .lparen => true
  | _ => false

def isClosing : Token α → Bool
  | .symbol .rparen => true
  | _ => false

/-- The number of opening parentheses. -/
def openings (ts : List (Token α)) : Nat :=
  ts.countP isOpening

/-- The number of closing parentheses. -/
def closings (ts : List (Token α)) : Nat :=
  ts.countP isClosing

/-- The parentheses match: no beginning of the text closes more than it opens, and the whole text closes
all that it opens. -/
structure Balanced (ts : List (Token α)) : Prop where
  beginning (k : Nat) : closings (ts.take k) ≤ openings (ts.take k)
  total : closings ts = openings ts

@[simp] theorem openings_nil : openings ([] : List (Token α)) = 0 := rfl

@[simp] theorem closings_nil : closings ([] : List (Token α)) = 0 := rfl

@[simp] theorem openings_cons (t : Token α) (ts : List (Token α)) :
    openings (t :: ts) = openings ts + if t.isOpening then 1 else 0 :=
  List.countP_cons

@[simp] theorem closings_cons (t : Token α) (ts : List (Token α)) :
    closings (t :: ts) = closings ts + if t.isClosing then 1 else 0 :=
  List.countP_cons

@[simp] theorem openings_append (a b : List (Token α)) : openings (a ++ b) = openings a + openings b :=
  List.countP_append

@[simp] theorem closings_append (a b : List (Token α)) : closings (a ++ b) = closings a + closings b :=
  List.countP_append

namespace Balanced

variable {a b ts : List (Token α)}

/-- Tokens without parentheses. -/
theorem flat (h : ∀ t ∈ ts, t.isOpening = false ∧ t.isClosing = false) : Balanced ts := by
  have hnone : ∀ part : List (Token α), part.Sublist ts → closings part = 0 ∧ openings part = 0 := by
    intro part hpart
    refine ⟨List.countP_eq_zero.2 fun t ht => ?_, List.countP_eq_zero.2 fun t ht => ?_⟩
    · simp [(h t (hpart.mem ht)).2]
    · simp [(h t (hpart.mem ht)).1]
  constructor
  case beginning =>
    intro k
    rw [(hnone _ (List.take_sublist k ts)).1]
    exact Nat.zero_le _
  case total =>
    rw [(hnone ts (List.Sublist.refl ts)).1, (hnone ts (List.Sublist.refl ts)).2]

theorem append (ha : Balanced a) (hb : Balanced b) : Balanced (a ++ b) where
  beginning k := by
    rw [List.take_append, closings_append, openings_append]
    exact Nat.add_le_add (ha.beginning k) (hb.beginning (k - a.length))
  total := by rw [closings_append, openings_append, ha.total, hb.total]

/-- What stands in front of balanced tokens in a balanced text is balanced too. -/
theorem of_append (h : Balanced (a ++ b)) (hb : Balanced b) : Balanced a where
  beginning k := by
    have hk := h.beginning (min k a.length)
    rwa [List.take_append_of_le_length (Nat.min_le_right _ _), ← List.take_eq_take_min] at hk
  total := by
    have htotal := h.total
    rw [closings_append, openings_append, hb.total] at htotal
    exact Nat.add_right_cancel htotal

theorem parenthesized (h : Balanced ts) : Balanced (Token.parenthesized ts) where
  beginning k := by
    cases k with
    | zero => exact Nat.le_refl 0
    | succ k =>
      -- What is closed in the end is opened in front.
      have hend : closings ([.symbol .rparen].take (k - ts.length) : List (Token α)) ≤ 1 :=
        (List.take_sublist _ _).countP_le
      have hinner := h.beginning k
      simp only [Token.parenthesized, List.cons_append, List.take_succ_cons, List.take_append, openings_cons,
        closings_cons, openings_append, closings_append, isOpening, isClosing, if_true, Bool.false_eq_true,
        if_false]
      omega
  total := by simp [Token.parenthesized, isOpening, isClosing, h.total]

end Balanced

theorem take_renumber (k n : Nat) (ts : List (Token α)) :
    (renumber n ts).take k = renumber n (ts.take k) := by
  induction ts generalizing k n with
  | nil => simp [renumber]
  | cons t rest ih =>
    cases k with
    | zero => rfl
    | succ k => simp [renumber, ih]

theorem isOpening_map {β : Type} (f : α → β) (t : Token α) : (t.map f).isOpening = t.isOpening := by
  cases t with
  | symbol s => cases s <;> rfl
  | _ => rfl

theorem isClosing_map {β : Type} (f : α → β) (t : Token α) : (t.map f).isClosing = t.isClosing := by
  cases t with
  | symbol s => cases s <;> rfl
  | _ => rfl

theorem openings_renumber (n : Nat) (ts : List (Token α)) : openings (renumber n ts) = openings ts := by
  induction ts generalizing n with
  | nil => rfl
  | cons t rest ih => rw [renumber, openings_cons, openings_cons, ih, isOpening_map]

theorem closings_renumber (n : Nat) (ts : List (Token α)) : closings (renumber n ts) = closings ts := by
  induction ts generalizing n with
  | nil => rfl
  | cons t rest ih => rw [renumber, closings_cons, closings_cons, ih, isClosing_map]

/-- Whether parentheses match does not depend on the parameters. -/
theorem Balanced.renumber {ts : List (Token α)} (h : Balanced ts) (n : Nat) :
    Balanced (renumber n ts) where
  beginning k := by
    rw [take_renumber, closings_renumber, openings_renumber]
    exact h.beginning k
  total := by rw [closings_renumber, openings_renumber, h.total]

end Token

variable {p : Profile} {F : Fragment → Prop} {K : Keyword → Bool} {ts : List (Token Value)}

/-- In every phrase parentheses match. -/
theorem Phrase.balanced (h : Phrase p F K ts) : Token.Balanced ts := by
  have hplain {ts : List (Token Value)} (h : ∀ t ∈ ts, t.isPlain = true) : Token.Balanced ts :=
    .flat fun t ht => by
      have ht := h t ht
      cases t with
      | symbol s => cases s <;> first | exact ⟨rfl, rfl⟩ | cases ht
      | _ => exact ⟨rfl, rfl⟩
  have hspace : Token.Balanced [(.space : Token Value)] := .flat (by decide)
  have hdot : Token.Balanced [(.symbol .dot : Token Value)] := .flat (by decide)
  have hcomma : Token.Balanced [(.symbol .comma : Token Value), .space] := .flat (by decide)
  have hname (f : String) : Token.Balanced [(.function f : Token Value)] :=
    .flat (List.forall_mem_singleton.2 ⟨rfl, rfl⟩)
  induction h with
  | word h => exact hplain (List.forall_mem_singleton.2 h.isPlain)
  | keyword _ => exact .flat (List.forall_mem_singleton.2 ⟨rfl, rfl⟩)
  | fragment _ h => exact hplain (Fragment.isPlain_of_mem_tokens h)
  | spaced _ _ iha ihb => exact iha.append (hspace.append ihb)
  | dotted _ _ iha ihb => exact iha.append (hdot.append ihb)
  | listed _ _ iha ihb => exact iha.append (hcomma.append ihb)
  | enclosed _ ih => exact ih.parenthesized
  | @call _ f _ => exact (hname f).append (Token.Balanced.parenthesized (.flat (by simp)))
  | @applied _ _ f _ _ _ ih => exact (hname f).append ih.parenthesized

/-! ## Pieces of a level -/

/-- The operators between statements. -/
def Keyword.isSetOperator : Keyword → Bool
  | .union | .intersect | .except => true
  | _ => false

/-- Which of its optional sections a SELECT has. -/
structure Outline where
  ctes : Bool := false
  distinct : Bool := false
  top : Bool := false
  /-- It has a column of row numbers. -/
  numbered : Bool := false
  joins : Nat := 0
  filtered : Bool := false
  grouped : Bool := false
  having : Bool := false
  ordered : Bool := false
  limited : Bool := false
  skipped : Bool := false
  /-- Rows are never numbered in the SELECT that removes duplicates. -/
  apart : distinct = true → numbered = false := by simp

/-- The section keywords of a SELECT in their fixed order. -/
def Outline.keywords (o : Outline) : List Keyword :=
  Keyword.with_.when o.ctes ++ .select :: (Keyword.distinct.when o.distinct ++ Keyword.top.when o.top
    ++ Keyword.over.when o.numbered ++ [.from] ++ List.replicate o.joins .join
    ++ Keyword.where_.when o.filtered ++ Keyword.groupBy.when o.grouped ++ Keyword.having.when o.having
    ++ Keyword.orderBy.when o.ordered ++ Keyword.limit.when o.limited ++ Keyword.offset.when o.skipped)

/-- The section keywords of a level between two set operators. -/
inductive IsPiece : List Keyword → Prop where
  /-- An operand in parentheses, or a level that is no statement. -/
  | empty : IsPiece []
  /-- The order of a window. -/
  | window : IsPiece [.orderBy]
  /-- The constant that a window without an order is ordered by. -/
  | constant : IsPiece [.select]
  /-- Common table expressions in front of an operand in parentheses. -/
  | ctes : IsPiece [.with_]
  | select (o : Outline) : IsPiece o.keywords

theorem IsPiece.notMem_isSetOperator {piece : List Keyword} (h : IsPiece piece) :
    ∀ k ∈ piece, k.isSetOperator = false := by
  cases h with
  | select o =>
    simp only [Outline.keywords, List.forall_mem_append, List.forall_mem_cons, Keyword.mem_when,
      List.mem_replicate]
    simp [Keyword.isSetOperator]
  | _ => decide

/-- Cut at its set operators, a level has only such pieces. -/
def SectionsInOrder (level : List Keyword) : Prop :=
  ∀ piece ∈ level.splitOnP Keyword.isSetOperator, IsPiece piece

theorem IsPiece.sectionsInOrder {level : List Keyword} (h : IsPiece level) : SectionsInOrder level := by
  intro piece hpiece
  rw [List.splitOnP_eq_singleton h.notMem_isSetOperator, List.mem_singleton] at hpiece
  rwa [hpiece]

theorem auxiliary_sectionsInOrder : Auxiliary SectionsInOrder where
  group := IsPiece.empty.sectionsInOrder
  window := IsPiece.window.sectionsInOrder
  constant := IsPiece.constant.sectionsInOrder

/-! ## Selects -/

namespace Sections

variable {σ : Type} (s : Sections σ)

/-- A SELECT, perhaps behind common table expressions and in front of a page. -/
theorem isPiece_keywords {shape : Shape} (h : s.distinct = true → shape ≠ .numbered)
    (ctes limited skipped : Bool) :
    IsPiece (Keyword.with_.when ctes ++ (s.keywords shape ++ (Keyword.limit.when limited
      ++ Keyword.offset.when skipped))) := by
  let o : Outline := {
    ctes, limited, skipped
    distinct := s.distinct
    top := shape.keywords.contains .top
    numbered := shape.keywords.contains .over
    joins := s.joins.length
    filtered := !Condition.allVacuous s.filters
    grouped := !s.groups.isEmpty
    having := !Condition.allVacuous s.havings
    ordered := shape.isOrdering && !s.orders.isEmpty
    apart := by cases shape <;> simp_all [Shape.keywords] }
  have hshape : shape.keywords = Keyword.top.when o.top ++ Keyword.over.when o.numbered := by
    cases shape <;> rfl
  have hjoins : (s.joins.flatMap fun _ => [Keyword.join]) = List.replicate o.joins .join := by
    rw [← List.map_eq_flatMap, List.map_const']
  have ho : o.keywords = Keyword.with_.when ctes ++ (s.keywords shape ++ (Keyword.limit.when limited
      ++ Keyword.offset.when skipped)) := by
    rw [Outline.keywords, keywords, bodyKeywords, hshape, hjoins]
    simp only [List.append_assoc, List.cons_append]
    rfl
  exact ho ▸ .select o

variable {p : Profile} {level : List Keyword}

/-- A paged SELECT, perhaps behind common table expressions. -/
theorem isPiece_pagedKeywords (p : Profile) (ctes outermost : Bool) :
    IsPiece (Keyword.with_.when ctes ++ s.pagedKeywords p outermost) := by
  have hwrapper (ordered : Bool) :
      IsPiece (Keyword.with_.when ctes ++ ([.select, .from, .where_] ++ Keyword.orderBy.when ordered)) := by
    have h := IsPiece.select { ctes, ordered, filtered := true }
    simpa [Outline.keywords, Keyword.when] using h
  have hwhole (shape : Shape) (h : shape ≠ .numbered) :
      IsPiece (Keyword.with_.when ctes ++ s.keywords shape) := by
    simpa [Keyword.when] using s.isPiece_keywords (fun _ => h) ctes false false
  unfold pagedKeywords
  cases Plan.ofPage p.paging s.page with
  | whole => exact hwhole .plain (by decide)
  | limitOffset page => exact s.isPiece_keywords (fun _ => by decide) ctes _ _
  | top rows => exact hwhole (.top rows) (by simp)
  | rowNumber page => exact hwrapper _
  | rowNum page => simpa [Keyword.when] using hwrapper false

theorem sectionsInOrder_of_mem_pageLevels (h : level ∈ s.pageLevels p.paging) : SectionsInOrder level := by
  have hselect (shape : Shape) (h : s.distinct = true → shape ≠ .numbered) : IsPiece (s.keywords shape) := by
    simpa [Keyword.when] using s.isPiece_keywords h false false false
  have hnumbered : IsPiece s.numberedKeywords := by
    unfold numberedKeywords
    split
    next => exact .select { numbered := true }
    next hd => exact hselect .numbered fun h => absurd h hd
  have hwrapper : IsPiece [.select, .from] := .select {}
  refine IsPiece.sectionsInOrder ?_
  cases hpaging : p.paging <;> simp only [hpaging, pageLevels, List.not_mem_nil, List.mem_cons, or_false] at h
  case topCount | rowNumber =>
    obtain rfl | rfl := h
    · exact hselect .unordered fun _ => by decide
    · exact hnumbered
  case rowNum =>
    obtain rfl | rfl := h
    · exact hselect .plain fun _ => by decide
    · exact hwrapper

end Sections

/-! ## Statements -/

section

variable {t : Target} {s : Sections Nested} {outermost : Bool}

/-- Behind a piece each set operator begins a new one. -/
theorem sectionsInOrder_arms {head : List Keyword} (hhead : IsPiece head) {arms : List (Arm Nested)}
    (harms : ∀ arm ∈ arms, IsPiece arm.operand.keywords) :
    SectionsInOrder (head ++ arms.flatMap Arm.keywords) := by
  induction arms generalizing head with
  | nil => simpa using hhead.sectionsInOrder
  | cons arm rest ih =>
    rw [List.forall_mem_cons] at harms
    have hoperator : arm.operator.sectionKeyword.isSetOperator = true := by cases arm.operator <;> rfl
    rw [SectionsInOrder, List.flatMap_cons, Arm.keywords, List.cons_append,
      List.splitOnP_append_cons_of_forall_mem hhead.notMem_isSetOperator _ hoperator]
    exact List.forall_mem_cons.2 ⟨hhead, ih harms.1 harms.2⟩

/-- The first operand of a set operation, perhaps behind common table expressions. -/
theorem Sections.isPiece_keywords_head (hs : s.Holds (Nested.IsPhrase t.profile F) F) (ctes : Bool) :
    IsPiece (Keyword.with_.when ctes ++ (s.head t).keywords) := by
  unfold Nested.keywords
  split
  next hpaged =>
    rw [ownLevel_pagedTokens hs hpaged]
    exact s.isPiece_pagedKeywords t.profile ctes false
  next =>
    cases ctes with
    | true => exact .ctes
    | false => exact .empty

theorem Sections.sectionsInOrder_statementKeywords (hs : s.Holds (Nested.IsPhrase t.profile F) F)
    (harms : ∀ arm ∈ s.arms, IsPiece arm.operand.keywords) :
    SectionsInOrder (s.statementKeywords t outermost) := by
  unfold statementKeywords
  split
  · exact (s.isPiece_pagedKeywords t.profile _ outermost).sectionsInOrder
  · rw [← List.append_assoc]
    exact sectionsInOrder_arms (isPiece_keywords_head hs _) harms

/-- The levels of a statement inside another one or around others. -/
theorem skeleton_sectionsInOrder (hs : s.Holds (Nested.IsPhrase t.profile F) F)
    (harms : ∀ arm ∈ s.arms, IsPiece arm.operand.keywords) (h : sectionTokens t s outermost = .ok ts) :
    Skeleton SectionsInOrder (s.statementKeywords t outermost) (s.parts t) ts := by
  refine skeleton_sectionTokens auxiliary_sectionsInOrder hs
    (fun _ => s.sectionsInOrder_of_mem_pageLevels) (fun _ => ⟨?_, fun arm harm => ?_⟩) h
  · exact (Sections.isPiece_keywords_head hs false).sectionsInOrder
  · exact (harms arm harm).sectionsInOrder

/-- All levels of a statement are in order as soon as those of what is nested in it are. -/
theorem sectionsInOrder_levels (hs : s.Holds (Nested.IsPhrase t.profile F) F)
    (harms : ∀ arm ∈ s.arms, IsPiece arm.operand.keywords) (h : sectionTokens t s outermost = .ok ts)
    (hnested : ∀ n ∈ s.nested, n.LevelsHold SectionsInOrder) :
    ∀ level ∈ Token.levels ts, SectionsInOrder level := by
  obtain ⟨hctes, hselect, hoperands⟩ := Sections.forall_mem_nested.1 hnested
  rw [(skeleton_sectionsInOrder hs harms h).levels_iff (Sections.isPhrase_parts hs)]
  refine ⟨?_, Sections.sectionsInOrder_statementKeywords hs harms⟩
  rw [Sections.parts, List.forall_mem_append, List.forall_mem_map]
  refine ⟨hctes, ?_⟩
  obtain ⟨ctes, -, h⟩ := bind_eq_ok h
  cases hempty : s.arms.isEmpty with
  | true => exact hselect
  | false =>
    rw [hempty] at h
    obtain ⟨paged, hpaged, -⟩ := bind_eq_ok h
    rw [if_neg Bool.false_ne_true, List.forall_mem_cons, List.forall_mem_map]
    refine ⟨⟨paged, hpaged, ?_⟩, hoperands⟩
    have hskeleton := skeleton_pagedTokens auxiliary_sectionsInOrder hs
      (fun _ => s.sectionsInOrder_of_mem_pageLevels) hpaged
    refine (hskeleton.levels_iff (Sections.forall_mem_nested.1 hs.nested).2.1).2 ⟨hselect, ?_⟩
    exact (s.isPiece_pagedKeywords t.profile false false).sectionsInOrder

end

/-! ## Queries -/

namespace Query

variable {t : Target} {q : Query}

/-- What a query adds to the level where it stands as an operand is one piece. -/
theorem isPiece_keywords_nested (q : Query) : IsPiece (q.nested t).keywords := by
  obtain h | ⟨s, -, -, h⟩ := keywords_nested_cases (t := t) q
  · exact h ▸ .empty
  · exact h ▸ Sections.isPiece_pagedKeywords _ _ _ _

theorem sectionsInOrder_tokensAt {outermost : Bool} (h : q.tokensAt t outermost = .ok ts) :
    ∀ level ∈ Token.levels ts, SectionsInOrder level := by
  induction q using induction_inside generalizing ts outermost with
  | step q ih =>
    have htokens := h
    rw [tokensAt_eq] at htokens
    obtain ⟨s, hs, htokens⟩ := bind_eq_ok htokens
    refine sectionsInOrder_levels (holds_sections hs)
      (List.forall_mem_map.2 fun arm _ => isPiece_keywords_nested arm.operand) htokens ?_
    rw [Sections.nested_map, List.forall_mem_map, ← inside_eq hs]
    intro inner hinner
    obtain ⟨tokens, htokens, -⟩ := standsIn_tokensAt h hinner
    have hinside : inner.tokensAt t false = .ok tokens := htokens
    exact ⟨tokens, htokens, ih inner hinner hinside⟩

end Query

namespace Compiler

/-- In a compiled statement parentheses match, and at every level the set operators cut the sections into
pieces that are each a single SELECT in its fixed order, or one of the few things without a SELECT. -/
theorem structure_compile {c : Compiler} {q : Query} {r : Compiled} (h : c.compile q = .ok r) :
    Token.Balanced r.tokens ∧ ∀ level ∈ Token.levels r.tokens, SectionsInOrder level := by
  obtain ⟨tokens, htokens, -, rfl⟩ := compile_eq_ok_iff.1 h
  constructor
  · have hphrase := Query.phrase_tokens (F := fun _ => True)
      (Query.everywhere_of_forall (fun _ _ _ => trivial) q) htokens
    exact hphrase.balanced.renumber 0
  · rw [Token.levels_renumber]
    have htokens : q.tokensAt c.target true = .ok tokens := htokens
    exact Query.sectionsInOrder_tokensAt htokens

/-- The distinct cities of all customers but the first ten. -/
def laterCities : Query :=
  ⟨[.from (.table "customers" none), .column ⟨none, "city", none⟩, .distinct, .orderBy (.column "city") .asc,
    .offset 10]⟩

/-- These cities without those that have a shop. -/
def openCities : Query :=
  ⟨[.cte "shops" ⟨[.from (.table "places" none)]⟩] ++ laterCities.clauses
    ++ [.setOperation ⟨[.from (.table "shops" none)]⟩ .except false]⟩

theorem structure_compile_openCities :
    ∃ r, ({} : Compiler).compile openCities = .ok r ∧ Token.Balanced r.tokens ∧
      ∀ level ∈ Token.levels r.tokens, SectionsInOrder level := by
  obtain ⟨r, hr⟩ : ∃ r, ({} : Compiler).compile openCities = .ok r := ⟨_, rfl⟩
  exact ⟨r, hr, structure_compile hr⟩

end Compiler

end QueryCompiler
