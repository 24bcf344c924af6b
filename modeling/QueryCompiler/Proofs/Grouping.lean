-- SUMMARY: How engines group the operands of a set operation, and when two of them group those of one query alike.
import QueryCompiler.Proofs.Delimiting
import QueryCompiler.Proofs.Reading

/-!
# Grouping of set operations

The arms of a set operation are emitted one after the other, and the engine that
reads them says what is combined with what. On some engines all operators bind
alike and the operands are combined from left to right. On others INTERSECT binds
tighter, as a product does among sums. This module reads a statement in both ways.
The main result is that the trees are the same exactly when no INTERSECT stands
behind another operator.
-/

namespace QueryCompiler

variable {α : Type}

/-! ## Trees -/

/-- Operands with operators between them, as they stand in a text. -/
structure Chain (α : Type) where
  first : α
  arms : List (Arm α)

/-- What is combined with what. -/
inductive Grouping (α : Type) where
  | operand (a : α)
  | combined (operator : SetOperator) (all : Bool) (left right : Grouping α)
deriving DecidableEq, Repr

namespace Grouping

/-- A tree combined with the operand behind it. -/
def extend (tree : Grouping α) (arm : Arm α) : Grouping α :=
  .combined arm.operator arm.all tree (.operand arm.operand)

/-- Whether single operands only are combined with what stands in front of them. -/
def isLeftToRight : Grouping α → Bool
  | .operand _ => true
  | .combined _ _ left (.operand _) => left.isLeftToRight
  | .combined _ _ _ (.combined ..) => false

/-- A tree with an operator behind it, whose right side is still to come. -/
structure Pending (α : Type) where
  operator : SetOperator
  all : Bool
  left : Grouping α

/-- The tree when the right side has come. -/
def complete : Option (Pending α) → Grouping α → Grouping α
  | none, right => right
  | some pending, right => .combined pending.operator pending.all pending.left right

/-- Combines the operands of each run of INTERSECTs before the runs, when `run` has been read of the
present run behind `before`. -/
def groupRuns (before : Option (Pending α)) (run : Grouping α) : List (Arm α) → Grouping α
  | [] => complete before run
  | arm :: rest =>
    if arm.operator = .intersect then groupRuns before (run.extend arm) rest
    else groupRuns (some ⟨arm.operator, arm.all, complete before run⟩) (.operand arm.operand) rest

end Grouping

namespace Chain

/-- All operators bind alike, to the left. -/
def leftToRight (c : Chain α) : Grouping α :=
  c.arms.foldl Grouping.extend (.operand c.first)

/-- INTERSECT binds tighter than the other operators. -/
def intersectFirst (c : Chain α) : Grouping α :=
  Grouping.groupRuns none (.operand c.first) c.arms

/-- Numbers operands in their order. -/
def numberFrom (n : Nat) : List (Arm α) → List (Arm Nat)
  | [] => []
  | arm :: rest => ⟨arm.operator, arm.all, n⟩ :: numberFrom (n + 1) rest

/-- The places of the operands instead of the operands. -/
def places (c : Chain α) : Chain Nat :=
  ⟨0, numberFrom 1 c.arms⟩

end Chain

/-- Every INTERSECT stands in front of all other operators. -/
def IntersectsLead (arms : List (Arm α)) : Prop :=
  arms.Pairwise fun arm later => later.operator = .intersect → arm.operator = .intersect

instance (arms : List (Arm α)) : Decidable (IntersectsLead arms) :=
  inferInstanceAs (Decidable (List.Pairwise _ _))

/-! ## The two readings -/

namespace Grouping

variable {before : Option (Pending α)} {run tree : Grouping α} {arms : List (Arm α)}

/-- Without INTERSECTs there is nothing to combine first. -/
theorem groupRuns_of_none (h : ∀ arm ∈ arms, arm.operator ≠ .intersect) :
    groupRuns before run arms = arms.foldl extend (complete before run) := by
  induction arms generalizing before run with
  | nil => rfl
  | cons arm rest ih =>
    rw [List.forall_mem_cons] at h
    rw [groupRuns, if_neg h.1, ih h.2]
    rfl

theorem groupRuns_of_intersectsLead (h : IntersectsLead arms) :
    groupRuns none run arms = arms.foldl extend run := by
  induction arms generalizing run with
  | nil => rfl
  | cons arm rest ih =>
    obtain ⟨hfirst, hrest⟩ := List.pairwise_cons.1 h
    rw [groupRuns]
    split
    · exact ih hrest
    next hother =>
      -- Behind the first other operator no INTERSECT is left.
      apply groupRuns_of_none
      intro later hlater hintersect
      exact hother (hfirst later hlater hintersect)

theorem isLeftToRight_foldl : (arms.foldl extend run).isLeftToRight = run.isLeftToRight := by
  induction arms generalizing run with
  | nil => rfl
  | cons arm rest ih => exact ih

/-- Nothing that is read later mends a tree. -/
theorem isLeftToRight_complete (h : (groupRuns before run arms).isLeftToRight = true) :
    (complete before run).isLeftToRight = true := by
  induction arms generalizing before run with
  | nil => exact h
  | cons arm rest ih =>
    rw [groupRuns] at h
    split at h
    · have hrun := ih h
      cases before with
      | none => exact hrun
      | some pending => cases hrun
    · have hpending := ih h
      exact hpending

/-- Behind another operator an INTERSECT makes a tree on the right side. -/
theorem ne_intersect_of_isLeftToRight {pending : Pending α}
    (h : (groupRuns (some pending) run arms).isLeftToRight = true) : ∀ arm ∈ arms, arm.operator ≠ .intersect := by
  induction arms generalizing pending run with
  | nil => simp
  | cons arm rest ih =>
    rw [groupRuns] at h
    split at h
    · cases isLeftToRight_complete h
    next hother => exact List.forall_mem_cons.2 ⟨hother, ih h⟩

theorem intersectsLead_of_isLeftToRight (h : (groupRuns none run arms).isLeftToRight = true) :
    IntersectsLead arms := by
  induction arms generalizing run with
  | nil => exact .nil
  | cons arm rest ih =>
    rw [groupRuns] at h
    split at h
    next hintersect => exact .cons (fun _ _ _ => hintersect) (ih h)
    next =>
      have hrest := ne_intersect_of_isLeftToRight h
      refine .cons (fun later hlater hl => absurd hl (hrest later hlater)) ?_
      exact List.pairwise_of_forall_mem_list fun _ _ later hlater hl => absurd hl (hrest later hlater)

end Grouping

/-- INTERSECT binds tighter without any effect exactly when it stands in front. -/
theorem Chain.intersectFirst_eq_leftToRight_iff (c : Chain α) :
    c.intersectFirst = c.leftToRight ↔ IntersectsLead c.arms := by
  constructor
  case mpr => exact Grouping.groupRuns_of_intersectsLead
  case mp =>
    intro h
    have hleft : c.leftToRight.isLeftToRight = true := Grouping.isLeftToRight_foldl
    rw [← h] at hleft
    exact Grouping.intersectsLead_of_isLeftToRight hleft

/-! ## Reading operands -/

namespace Token

/-- The set operator that a token is for a reader this deep in parentheses. -/
def operatorAt? (depth : Nat) (t : Token α) : Option SetOperator :=
  if depth = 0 then
    match t with
    | .keyword .union => some .union
    | .keyword .intersect => some .intersect
    | .keyword .except => some .except
    | _ => none
  else none

/-- How deep in parentheses a reader stands behind a token. -/
def depthBehind (depth : Nat) : Token α → Nat
  | .symbol .lparen => depth + 1
  | .symbol .rparen => depth - 1
  | _ => depth

/-- The words in front of the first operator outside parentheses, and the operators, each with the words
behind it. -/
def cutAtOperators (depth : Nat) : List (Token α) → List (Token α) × List (SetOperator × List (Token α))
  | [] => ([], [])
  | t :: rest =>
    let (operand, more) := cutAtOperators (t.depthBehind depth) rest
    match t.operatorAt? depth with
    | some operator => ([], (operator, operand) :: more)
    | none => (t :: operand, more)

/-- An operator and the words behind it, of which the first may be `ALL`. -/
def readArm : SetOperator × List (Token α) → Arm (List (Token α))
  | (operator, .keyword .all :: operand) => ⟨operator, true, operand⟩
  | (operator, operand) => ⟨operator, false, operand⟩

/-- The operands of a statement and the operators between them. Common table expressions are read as a
part of the operand that they stand in front of. -/
def chain (ts : List (Token α)) : Chain (List (Token α)) :=
  let (first, arms) := cutAtOperators 0 (words ts)
  ⟨first, arms.map readArm⟩

theorem cutAtOperators_cons {depth : Nat} {t : Token α} (h : t.operatorAt? depth = none) (rest : List (Token α)) :
    cutAtOperators depth (t :: rest) = (t :: (cutAtOperators (t.depthBehind depth) rest).1,
      (cutAtOperators (t.depthBehind depth) rest).2) := by
  rw [cutAtOperators, h]

/-- Words that are not cut, whatever stands behind them. -/
def IsWhole (depth : Nat) (ws : List (Token α)) : Prop :=
  ∀ rest, cutAtOperators depth (ws ++ rest)
    = (ws ++ (cutAtOperators depth rest).1, (cutAtOperators depth rest).2)

namespace IsWhole

variable {depth : Nat} {a b : List (Token α)} {t : Token α}

theorem nil : IsWhole depth ([] : List (Token α)) :=
  fun _ => rfl

theorem append (ha : IsWhole depth a) (hb : IsWhole depth b) : IsWhole depth (a ++ b) := by
  intro rest
  rw [List.append_assoc, ha, hb, List.append_assoc]

/-- A token that is neither an operator nor a parenthesis. -/
theorem token (hdepth : t.depthBehind depth = depth) (ht : t.operatorAt? depth = none) : IsWhole depth [t] := by
  intro rest
  rw [List.singleton_append, cutAtOperators_cons ht, hdepth]
  rfl

theorem plain (h : t.isPlain = true) : IsWhole depth [t] := by
  refine token ?_ ?_
  · cases t with
    | symbol s => cases s <;> first | rfl | cases h
    | _ => rfl
  · unfold operatorAt?
    split
    · cases t with
      | keyword k => cases h
      | _ => rfl
    · rfl

theorem keyword {k : Keyword} (h : k.isSetOperator = true → depth ≠ 0) : IsWhole depth [(.keyword k : Token α)] := by
  refine token rfl ?_
  unfold operatorAt?
  split
  next hdepth => cases k <;> first | rfl | exact absurd hdepth (h rfl)
  next => rfl

theorem parenthesized (h : IsWhole (depth + 1) a) : IsWhole depth (Token.parenthesized a) := by
  intro rest
  have hparen {d : Nat} {s : Symbol} : operatorAt? d (.symbol s : Token α) = none := by
    unfold operatorAt?
    split <;> rfl
  have hopening : depthBehind depth (.symbol .lparen : Token α) = depth + 1 := rfl
  have hclosing : depthBehind (depth + 1) (.symbol .rparen : Token α) = depth := rfl
  rw [Token.parenthesized, List.append_assoc, List.cons_append, cutAtOperators_cons hparen, hopening, h,
    List.singleton_append, cutAtOperators_cons hparen, hclosing]
  simp

end IsWhole

/-- The words of tokens are not cut, wherever the numbers of their parameters begin. -/
def StaysWhole (depth : Nat) (ts : List (Token Value)) : Prop :=
  ∀ n, IsWhole depth (words (renumber n ts))

end Token

section

variable {p : Profile} {F : Fragment → Prop} {K : Keyword → Bool} {depth : Nat} {a b ts : List (Token Value)}

namespace Token.StaysWhole

theorem append (ha : StaysWhole depth a) (hb : StaysWhole depth b) : StaysWhole depth (a ++ b) := by
  intro n
  rw [renumber_append, words_append]
  exact (ha n).append (hb _)

theorem plain (h : ∀ t ∈ ts, t.isPlain = true) : StaysWhole depth ts := by
  induction ts with
  | nil => exact fun _ => .nil
  | cons t rest ih =>
    rw [List.forall_mem_cons] at h
    refine append (a := [t]) (fun n => ?_) (ih h.2)
    cases t with
    | space => exact .nil
    | keyword k => cases h.1
    | symbol s => cases s <;> first | exact .plain rfl | cases h.1
    | _ => exact .plain rfl

theorem parenthesized (h : StaysWhole (depth + 1) a) : StaysWhole depth (Token.parenthesized a) := by
  intro n
  rw [renumber_parenthesized, words_parenthesized]
  exact (h n).parenthesized

end Token.StaysWhole

/-- A phrase is not cut inside parentheses, nor where it has no set operators outside its own. -/
theorem Phrase.staysWhole (h : Phrase p F K ts)
    (hK : ∀ k, K k = true → k.isSetOperator = true → depth ≠ 0) : Token.StaysWhole depth ts := by
  -- The depth is general in the induction, since parentheses raise it, and inside them any keyword is allowed.
  have hinside {J : Keyword → Bool} {d : Nat} : ∀ k, J k = true → k.isSetOperator = true → d + 1 ≠ 0 :=
    fun _ _ _ => Nat.succ_ne_zero d
  have hplain {t : Token Value} (ht : t.isPlain = true) {d : Nat} : Token.StaysWhole d [t] :=
    .plain (List.forall_mem_singleton.2 ht)
  induction h generalizing depth with
  | word h => exact hplain h.isPlain
  | keyword h => exact fun _ => .keyword (hK _ h)
  | fragment _ h => exact .plain (Fragment.isPlain_of_mem_tokens h)
  | spaced _ _ iha ihb | dotted _ _ iha ihb => exact (iha hK).append ((hplain rfl).append (ihb hK))
  | listed _ _ iha ihb => exact (iha hK).append ((hplain rfl).append ((hplain rfl).append (ihb hK)))
  | enclosed _ ih => exact (ih hinside).parenthesized
  | call _ => exact (hplain rfl).append (Token.StaysWhole.parenthesized fun _ => .nil)
  | applied _ _ ih => exact (hplain rfl).append (ih hinside).parenthesized

/-- A phrase whose own level has no set operators is made without them. -/
theorem Phrase.of_ownLevel (h : Phrase p F K ts) (hown : ∀ k ∈ Token.ownLevel ts, k.isSetOperator = false) :
    Phrase p F (fun k => !k.isSetOperator) ts := by
  have hinert {t : Token Value} (ht : t.isInert = true) : Layout [] [] [t] := .inert ht
  have hparts {a b between : List (Token Value)} (ha : ∃ own closed, Layout own closed a)
      (hb : ∃ own closed, Layout own closed b) (hbetween : Layout [] [] between)
      (h : ∀ k ∈ Token.ownLevel (a ++ (between ++ b)), k.isSetOperator = false) :
      (∀ k ∈ Token.ownLevel a, k.isSetOperator = false) ∧ ∀ k ∈ Token.ownLevel b, k.isSetOperator = false := by
    obtain ⟨own, closed, ha⟩ := ha
    obtain ⟨own', closed', hb⟩ := hb
    rw [(ha.append (hbetween.append hb)).ownLevel_eq, List.nil_append, List.forall_mem_append] at h
    rwa [ha.ownLevel_eq, hb.ownLevel_eq]
  induction h with
  | word h => exact .word h
  | @keyword K k h =>
    refine .keyword ?_
    cases hk : k.isSetOperator with
    | false => rfl
    | true =>
      have hsection : k.isSection = true := by cases k <;> first | rfl | cases hk
      have hlevel := hown k (by simp [(Layout.keyword hsection).ownLevel_eq])
      exact absurd (hk.symm.trans hlevel) (by decide)
  | fragment hf h => exact .fragment hf h
  | spaced ha hb iha ihb =>
    obtain ⟨hleft, hright⟩ := hparts ha.exists_layout hb.exists_layout (hinert rfl) hown
    exact .spaced (iha hleft) (ihb hright)
  | dotted ha hb iha ihb =>
    obtain ⟨hleft, hright⟩ := hparts ha.exists_layout hb.exists_layout (hinert rfl) hown
    exact .dotted (iha hleft) (ihb hright)
  | listed ha hb iha ihb =>
    obtain ⟨hleft, hright⟩ := hparts ha.exists_layout hb.exists_layout ((hinert rfl).append (hinert rfl)) hown
    exact .listed (iha hleft) (ihb hright)
  | enclosed ha => exact .enclosed ha
  | call hf => exact .call hf
  | applied hf ha => exact .applied hf ha

theorem Phrase.staysWhole_of_ownLevel (h : Phrase p F K ts)
    (hown : ∀ k ∈ Token.ownLevel ts, k.isSetOperator = false) : Token.StaysWhole depth ts := by
  refine (h.of_ownLevel hown).staysWhole fun k hk hoperator => ?_
  rw [hoperator] at hk
  cases hk

end

/-! ## Emitted operands -/

/-- Emits a query as an operand behind the first one. -/
def Query.emitOperand (t : Target) (q : Query) : Emitter (List (Token Nat)) := do
  let statement ← (q.subquery t).emit
  operandTokens t.profile q.isDelimited statement

/-- Emits what a query has in front of its arms: its common table expressions and its first operand. -/
def Query.emitHead (t : Target) (q : Query) : Emitter (List (Token Nat)) := do
  let sections ← q.sections
  let s := sections.map (Query.subquery t)
  let ctes ← emitWith t.profile s.ctes
  let paged ← emitPaged t s false
  let head ← operandTokens t.profile s.isDelimited paged
  return ctes ++ head

/-- The tokens of a query as an operand behind the first one. -/
def Query.asOperand (t : Target) (q : Query) : Emission := do
  let statement ← (q.nested t).statement
  operandTokens t.profile q.isDelimited statement

/-- The tokens of a query in front of its arms: its common table expressions and its first operand. -/
def Query.headTokens (t : Target) (q : Query) : Emission := do
  let sections ← q.sections
  let s := sections.map (Query.nested t)
  let ctes ← withTokens t.profile s.ctes
  let paged ← pagedTokens t s false
  let head ← operandTokens t.profile s.isDelimited paged
  return ctes ++ head

theorem Query.writes_operand (t : Target) (q : Query) : (q.emitOperand t).Writes (q.asOperand t) := by
  intro c hc
  have hstatement := (Query.writes t q).emit
  cases hdelimited : q.isDelimited <;> cases hparens : t.profile.hasOperandParens <;>
    simp [emitOperand, asOperand, operandTokens, hdelimited, hparens, hstatement, hc, Context.number]

theorem Query.writes_head (t : Target) (q : Query) : (q.emitHead t).Writes (q.headTokens t) := by
  intro c hc
  unfold emitHead headTokens
  cases q.sections with
  | error e => rfl
  | ok s =>
    have hctes := writes_with (p := t.profile) fun cte (_ : cte ∈ s.ctes) => Query.writes t cte.2
    have hpaged := writes_paged (t := t) (s := s) false fun q _ => Query.writes t q
    have hmapped : (s.map (subquery t)).isDelimited = s.isDelimited ∧ (s.map (nested t)).isDelimited = s.isDelimited :=
      ⟨rfl, rfl⟩
    cases hdelimited : s.isDelimited <;> cases hparens : t.profile.hasOperandParens <;>
      simp [hctes, hpaged, hmapped.1, hmapped.2, hdelimited, hparens, operandTokens, ok_bind, hc, Context.number]

/-- The arms of a query. -/
def Query.arms (q : Query) : List (Arm Query) :=
  q.clauses.filterMap Arm.ofClause?

theorem Query.arms_eq {q : Query} {s : Sections Query} (h : q.sections = .ok s) : s.arms = q.arms := by
  obtain ⟨items, -, rfl⟩ := map_eq_ok h
  rfl

/-- What is read of an arm: its operator, which the dialect has, and the words of its operand. -/
structure Target.ReadsArm (t : Target) (arm : Arm Query) (read : Arm (List (Token Nat))) : Prop where
  supported : Succeeds (arm.operator.keyword t.profile)
  operator : read.operator = arm.operator
  all : read.all = arm.all
  operand : ∃ ts n, (arm.operand.emitOperand t).Writes (.ok ts) ∧ read.operand = Token.words (Token.renumber n ts)

/-- The operands of a query are read in their order. -/
structure Target.Reads (t : Target) (q : Query) (read : Chain (List (Token Nat))) : Prop where
  /-- The first one stands in front of the arms, if there are any. -/
  first : q.arms ≠ [] → ∃ ts n, (q.emitHead t).Writes (.ok ts) ∧ read.first = Token.words (Token.renumber n ts)
  arms : List.Forall₂ t.ReadsArm q.arms read.arms

section

variable {t : Target} {q : Query} {ts : List (Token Value)}

/-- An operand is a statement, in parentheses or without need of any. -/
theorem Query.asOperand_cases (h : q.asOperand t = .ok ts) :
    (q.isDelimited = false ∧ (q.nested t).statement = .ok ts) ∨
      ∃ statement, (q.nested t).statement = .ok statement ∧ ts = Token.parenthesized statement := by
  obtain ⟨statement, hstatement, h⟩ := bind_eq_ok h
  obtain ⟨hd, rfl⟩ | ⟨-, -, rfl⟩ := operandTokens_cases h
  · exact .inl ⟨hd, hstatement⟩
  · exact .inr ⟨statement, hstatement, rfl⟩

theorem Query.staysWhole_asOperand (h : q.asOperand t = .ok ts) : Token.StaysWhole 0 ts := by
  rcases asOperand_cases h with ⟨hd, hstatement⟩ | ⟨statement, hstatement, rfl⟩
  · apply (q.isPhrase_nested_any ts hstatement).staysWhole_of_ownLevel
    have hpiece := isPiece_keywords_nested (t := t) q
    rw [Nested.keywords, isDelimited_nested, hd, hstatement] at hpiece
    exact hpiece.notMem_isSetOperator
  · apply Token.StaysWhole.parenthesized
    exact (q.isPhrase_nested_any statement hstatement).staysWhole fun _ _ _ => Nat.one_ne_zero

/-- An operand does not begin with a word that could belong to its operator. -/
theorem Query.head?_asOperand (h : q.asOperand t = .ok ts) :
    ts.head? = some (.symbol .lparen) ∨ ts.head? = some (.keyword .with_) ∨ ts.head? = some (.keyword .select) := by
  rcases asOperand_cases h with ⟨hd, hstatement⟩ | ⟨statement, -, rfl⟩
  · obtain ⟨ctes, head, rfl, hhead, hctes⟩ := exists_withTokens_append hd hstatement
    right
    split at hctes
    · exact .inl (by rw [List.head?_append, hctes, Option.some_or])
    · exact .inr (by rw [hctes, List.nil_append, hhead.begins])
  · exact .inl rfl

theorem Query.readArm_asOperand (h : q.asOperand t = .ok ts) (operator : SetOperator) (n : Nat) :
    Token.readArm (operator, Token.words (Token.renumber n ts))
      = ⟨operator, false, Token.words (Token.renumber n ts)⟩ := by
  obtain ⟨first, hfirst, hread⟩ : ∃ first, ts.head? = some first ∧ ∀ rest : List (Token Nat),
      Token.readArm (operator, Token.words (first.map (fun _ => n) :: rest))
        = ⟨operator, false, Token.words (first.map (fun _ => n) :: rest)⟩ := by
    rcases head?_asOperand h with hhead | hhead | hhead <;> exact ⟨_, hhead, fun _ => rfl⟩
  obtain ⟨rest, rfl⟩ := List.head?_eq_some_iff.1 hfirst
  exact hread _

theorem Arm.exists_asOperand {arm : Arm Query} (h : (arm.map (Query.nested t)).tokens t.profile = .ok ts) :
    Succeeds (arm.operator.keyword t.profile) ∧
      ∃ operand, ts = arm.operatorTokens ++ operand ∧ arm.operand.asOperand t = .ok operand := by
  obtain ⟨keyword, hkeyword, h⟩ := bind_eq_ok h
  obtain ⟨statement, hstatement, h⟩ := bind_eq_ok h
  obtain ⟨operand, hoperand, h⟩ := bind_eq_ok h
  obtain rfl := SetOperator.keyword_eq hkeyword
  cases h
  refine ⟨⟨_, hkeyword⟩, operand, rfl, ?_⟩
  have hstatement : (arm.operand.nested t).statement = .ok statement := hstatement
  rw [Arm.map, Query.isDelimited_nested] at hoperand
  rw [Query.asOperand, hstatement]
  exact hoperand

/-- An operator and the words up to the next one. -/
theorem Token.cutAtOperators_operator (operator : SetOperator) {ws rest : List (Token α)}
    {more : List (SetOperator × List (Token α))} (hws : IsWhole 0 ws) (hrest : cutAtOperators 0 rest = ([], more)) :
    cutAtOperators 0 (.keyword operator.sectionKeyword :: (ws ++ rest)) = ([], (operator, ws) :: more) := by
  have hoperator : operatorAt? 0 (.keyword operator.sectionKeyword : Token α) = some operator := by
    cases operator <;> rfl
  have hdepth : depthBehind 0 (.keyword operator.sectionKeyword : Token α) = 0 := rfl
  rw [cutAtOperators, hoperator, hdepth, hws, hrest]
  simp

/-- An operator with its mark, and an operand behind them, are read as the arm. -/
theorem Arm.exists_words {arm : Arm Query} {operand : List (Token Value)} (h : arm.operand.asOperand t = .ok operand)
    (n : Nat) :
    ∃ mark, (Token.words arm.operatorTokens : List (Token Nat)) = .keyword arm.operator.sectionKeyword :: mark ∧
      Token.IsWhole 0 mark ∧ Token.readArm (arm.operator, mark ++ Token.words (Token.renumber n operand))
        = ⟨arm.operator, arm.all, Token.words (Token.renumber n operand)⟩ := by
  cases hall : arm.all with
  | false =>
    refine ⟨[], ?_, .nil, Query.readArm_asOperand h arm.operator n⟩
    simp [operatorTokens, hall]
  | true =>
    have hmark : Token.IsWhole 0 [(.keyword .all : Token Nat)] := .keyword fun hkeyword => by cases hkeyword
    refine ⟨[.keyword .all], ?_, hmark, rfl⟩
    simp [operatorTokens, hall]

/-- The arms are read one by one, wherever the numbers of their parameters begin. -/
theorem cutAtOperators_arms {arms : List (Arm Query)} {lists : List (List (Token Value))}
    (h : (arms.map (Arm.map (Query.nested t))).mapM (Arm.tokens t.profile) = .ok lists) (n : Nat) :
    ∃ parts, Token.cutAtOperators 0 (Token.words (Token.renumber n lists.flatten)) = ([], parts) ∧
      List.Forall₂ t.ReadsArm arms (parts.map Token.readArm) := by
  have hlists := List.forall₂_map_left_iff.1 (mapM_eq_ok h)
  clear h
  induction hlists generalizing n with
  | nil => exact ⟨[], rfl, .nil⟩
  | @cons arm ts arms lists harm _ ih =>
    obtain ⟨hsupported, operand, rfl, hoperand⟩ := Arm.exists_asOperand harm
    rw [List.flatten_cons, Token.renumber_append, Token.renumber_append, Arm.renumber_operatorTokens,
      Token.words_append, Token.words_append]
    -- Where the numbers of the parameters begin is of no interest for the cuts.
    generalize n + (Token.params (arm.operatorTokens : List (Token Value))).length = m
    generalize n + (Token.params (arm.operatorTokens ++ operand)).length = k
    obtain ⟨parts, hparts, hread⟩ := ih k
    obtain ⟨mark, hmark, hmarkWhole, hreadArm⟩ := Arm.exists_words hoperand m
    have hwhole := hmarkWhole.append (Query.staysWhole_asOperand hoperand m)
    refine ⟨(arm.operator, mark ++ Token.words (Token.renumber m operand)) :: parts, ?cut, ?read⟩
    case cut =>
      rw [hmark, List.cons_append]
      exact Token.cutAtOperators_operator arm.operator hwhole hparts
    case read =>
      rw [List.map_cons, hreadArm]
      have hwrites := (Emitter.Writes.ok_iff (arm.operand.writes_operand t)).2 hoperand
      exact .cons ⟨hsupported, rfl, rfl, operand, m, hwrites, rfl⟩ hread

/-- Common table expressions in front of an operand stay with it. -/
theorem staysWhole_withTokens {ctes : List (String × Nested)} {a : List (Token Value)} {p : Profile}
    {F : Fragment → Prop} (hctes : ∀ cte ∈ ctes, cte.2.IsPhrase p F) (h : withTokens p ctes = .ok ts)
    (ha : Phrase p F Keyword.any a) (hown : ∀ k ∈ Token.ownLevel a, k.isSetOperator = false) :
    Token.StaysWhole 0 (ts ++ a) := by
  apply (phrase_withTokens hctes h ha).staysWhole_of_ownLevel
  obtain ⟨closed, hlayout, -⟩ := (skeleton_withTokens (B := fun _ => True) h).exists_layout
    (List.forall_mem_map.2 hctes)
  obtain ⟨own, closed', hlayout'⟩ := ha.exists_layout
  rw [hlayout'.ownLevel_eq] at hown
  rw [(hlayout.append hlayout').ownLevel_eq, List.forall_mem_append]
  refine ⟨fun k hk => ?_, hown⟩
  rw [(Keyword.mem_when.1 hk).2]
  rfl

theorem Query.reads_chain {outermost : Bool} (h : q.tokensAt t outermost = .ok ts) (n : Nat) :
    t.Reads q (Token.chain (Token.renumber n ts)) := by
  rw [tokensAt_eq] at h
  obtain ⟨s, hs, h⟩ := bind_eq_ok h
  have hholds := holds_sections (t := t) hs
  have hpagedOwn {paged : List (Token Value)} {outermost : Bool}
      (h : pagedTokens t (s.map (Query.nested t)) outermost = .ok paged) :
      ∀ k ∈ Token.ownLevel paged, k.isSetOperator = false := by
    rw [ownLevel_pagedTokens hholds h]
    exact (Sections.isPiece_pagedKeywords _ t.profile false outermost).notMem_isSetOperator
  obtain ⟨ctes, hctes, h⟩ := bind_eq_ok h
  split at h
  next harms =>
    -- One SELECT, which is not cut at all.
    obtain ⟨paged, hpaged, h⟩ := bind_eq_ok h
    cases h
    have hwhole := staysWhole_withTokens hholds.ctes hctes (phrase_pagedTokens hholds hpaged) (hpagedOwn hpaged) n []
    rw [List.append_nil] at hwhole
    have hnone : q.arms = [] := by simpa [Sections.map, arms_eq hs] using harms
    refine ⟨fun hne => absurd hnone hne, ?_⟩
    rw [Token.chain, hwhole, hnone]
    exact .nil
  next =>
    obtain ⟨paged, hpaged, h⟩ := bind_eq_ok h
    obtain ⟨head, hhead, h⟩ := bind_eq_ok h
    obtain ⟨arms, harms, h⟩ := bind_eq_ok h
    cases h
    have hphrase := phrase_pagedTokens hholds hpaged
    have hown : ∀ k ∈ Token.ownLevel head, k.isSetOperator = false := by
      obtain ⟨-, rfl⟩ | ⟨-, -, rfl⟩ := operandTokens_cases hhead
      · exact hpagedOwn hpaged
      · obtain ⟨own, closed, hlayout⟩ := hphrase.exists_layout
        rw [hlayout.parenthesized.ownLevel_eq]
        exact List.forall_mem_nil _
    have hwhole := staysWhole_withTokens hholds.ctes hctes (phrase_operandTokens hphrase hhead) hown n
    have harms : (s.arms.map (Arm.map (Query.nested t))).mapM (Arm.tokens t.profile) = .ok arms := harms
    rw [arms_eq hs] at harms
    obtain ⟨parts, hparts, hread⟩ := cutAtOperators_arms harms (n + (Token.params (ctes ++ head)).length)
    have htokens : q.headTokens t = .ok (ctes ++ head) := by
      simp only [headTokens, hs, hctes, hpaged, hhead, bind, Except.bind, pure, Except.pure]
    rw [Token.chain, Token.renumber_append, Token.words_append, hwhole, hparts]
    have hwrites := (Emitter.Writes.ok_iff (q.writes_head t)).2 htokens
    exact ⟨fun _ => ⟨_, n, hwrites, List.append_nil _⟩, hread⟩

end

/-! ## Engines -/

/-- The engines on which INTERSECT binds tighter than the other operators. -/
def Dialect.intersectsFirst : Dialect → Bool
  | .tsql | .postgres => true
  | .mysql | .sqlite | .oracle => false

/-- How an engine groups the operands of a statement, which are told by their places. -/
def Dialect.grouping (d : Dialect) (ts : List (Token α)) : Grouping Nat :=
  if d.intersectsFirst then (Token.chain ts).places.intersectFirst else (Token.chain ts).places.leftToRight

/-- The arms of a query combined with its first operand from left to right. -/
def Query.grouping (q : Query) : Grouping Nat :=
  (⟨q, q.arms⟩ : Chain Query).places.leftToRight

section

variable {β : Type} {arms : List (Arm α)} {reads : List (Arm β)}

theorem Chain.numberFrom_congr (h : List.Forall₂ (fun arm read => read.operator = arm.operator ∧ read.all = arm.all)
    arms reads) (n : Nat) : numberFrom n reads = numberFrom n arms := by
  induction h generalizing n with
  | nil => rfl
  | cons harm _ ih => rw [numberFrom, numberFrom, harm.1, harm.2, ih]

theorem Chain.operators_numberFrom (n : Nat) (arms : List (Arm α)) :
    (numberFrom n arms).map Arm.operator = arms.map Arm.operator := by
  induction arms generalizing n with
  | nil => rfl
  | cons arm rest ih => rw [numberFrom, List.map_cons, List.map_cons, ih]

theorem intersectsLead_congr (h : reads.map Arm.operator = arms.map Arm.operator) :
    IntersectsLead reads ↔ IntersectsLead arms := by
  have hmap {γ : Type} {list : List (Arm γ)} : IntersectsLead list ↔ (list.map Arm.operator).Pairwise
      fun operator later => later = .intersect → operator = .intersect := by
    rw [IntersectsLead, List.pairwise_map]
  rw [hmap, hmap, h]

end

/-- What an engine reads of the set operation of a query. -/
structure Query.ReadBy (q : Query) (c : Compiler) (ts : List (Token Nat)) : Prop where
  operands : c.target.Reads q (Token.chain ts)
  unions : c.dialect = .mysql → ∀ arm ∈ q.arms, arm.operator = .union
  leftToRight_iff : c.dialect.grouping ts = q.grouping ↔ (c.dialect.intersectsFirst = true → IntersectsLead q.arms)

/-- What two engines read of it, and when it is the same. -/
structure Query.Readings (q : Query) (c c' : Compiler) (ts ts' : List (Token Nat)) : Prop where
  left : q.ReadBy c ts
  right : q.ReadBy c' ts'
  same_iff : c.dialect.grouping ts = c'.dialect.grouping ts' ↔
    c.dialect.intersectsFirst = c'.dialect.intersectsFirst ∨ IntersectsLead q.arms

namespace Query

variable {q : Query} {c c' : Compiler} {t : Target} {ts ts' : List (Token Nat)}

/-- The places of what is read are those of the arms. -/
theorem places_chain (h : t.Reads q (Token.chain ts)) :
    (Token.chain ts).places = (⟨q, q.arms⟩ : Chain Query).places := by
  have hnumbers := Chain.numberFrom_congr (h.arms.imp fun _ _ harm => ⟨harm.operator, harm.all⟩) 1
  rw [Chain.places, Chain.places, hnumbers]

theorem intersectFirst_places_iff :
    (⟨q, q.arms⟩ : Chain Query).places.intersectFirst = q.grouping ↔ IntersectsLead q.arms :=
  (Chain.intersectFirst_eq_leftToRight_iff _).trans (intersectsLead_congr (Chain.operators_numberFrom 1 q.arms))

theorem operator_eq_union (h : c.target.Reads q (Token.chain ts)) (hc : c.dialect = .mysql) :
    ∀ arm ∈ q.arms, arm.operator = .union := by
  have hsupported : ∀ arm ∈ q.arms, Succeeds (arm.operator.keyword c.target.profile) := by
    have harms := h.arms.imp fun arm read harm => (⟨harm.supported, trivial⟩ : _ ∧ True)
    exact ((List.forall₂_and_left _ _).1 harms).1
  intro arm harm
  obtain ⟨keyword, hkeyword⟩ := hsupported arm harm
  rw [Compiler.target, hc] at hkeyword
  cases hoperator : arm.operator with
  | union => rfl
  | intersect | except =>
    rw [hoperator] at hkeyword
    cases hkeyword

theorem ReadBy.of_reads (h : c.target.Reads q (Token.chain ts)) : q.ReadBy c ts where
  operands := h
  unions := operator_eq_union h
  leftToRight_iff := by
    rw [Dialect.grouping, places_chain h]
    split
    next hfirst => exact intersectFirst_places_iff.trans ⟨fun h _ => h, fun h => h hfirst⟩
    next hfirst => exact iff_of_true rfl fun h => absurd h hfirst

theorem Readings.of_reads (h : c.target.Reads q (Token.chain ts)) (h' : c'.target.Reads q (Token.chain ts')) :
    q.Readings c c' ts ts' where
  left := .of_reads h
  right := .of_reads h'
  same_iff := by
    rw [Dialect.grouping, Dialect.grouping, places_chain h, places_chain h']
    -- Engines of one kind read one tree, and a mixed pair compares the two ways to read.
    have hiff := intersectFirst_places_iff (q := q)
    rw [Query.grouping] at hiff
    cases c.dialect.intersectsFirst <;> cases c'.dialect.intersectsFirst
    case true.false => simpa using hiff
    case false.true => simpa [eq_comm] using hiff
    case false.false | true.true => exact iff_of_true rfl (.inl rfl)

theorem reads_of_run {context after : Context} {ts : List (Token Nat)}
    (h : (q.emit t).run context = .ok (ts, after)) : t.Reads q (Token.chain ts) := by
  obtain ⟨tokens, htokens, rfl⟩ := exists_tokensAt h
  exact reads_chain htokens _

theorem AtEveryLevel.and {P Q : Query → Prop} (hP : q.AtEveryLevel P) (hQ : q.AtEveryLevel Q) :
    q.AtEveryLevel fun level => P level ∧ Q level := by
  induction hP with
  | mk hhere _ ih =>
    obtain ⟨hhere', hbelow'⟩ := hQ
    exact .mk ⟨hhere, hhere'⟩ fun inner hinner => ih inner hinner (hbelow' inner hinner)

end Query

namespace Compiler

/-- Two engines read the operands of a query in the same order. One that binds all operators alike combines
them from left to right, and one that binds INTERSECT tighter does so exactly when every INTERSECT stands in
front of the other operators. So their trees differ exactly when one engine binds INTERSECT tighter, the
other does not, and an INTERSECT stands behind another operator. It is so at every level. -/
theorem readings_compile {c c' : Compiler} {q : Query} {r r' : Compiled} (h : c.compile q = .ok r)
    (h' : c'.compile q = .ok r') :
    q.Readings c c' r.tokens r'.tokens ∧
      q.AtEveryLevel fun level => ∃ context part after context' part' after',
        (level.emit c.target).run context = .ok (part, after) ∧ part <:+: r.tokens ∧
        (level.emit c'.target).run context' = .ok (part', after') ∧ part' <:+: r'.tokens ∧
        level.Readings c c' part part' := by
  have hrun := run_emit_of_compile h
  have hrun' := run_emit_of_compile h'
  refine ⟨.of_reads (Query.reads_of_run hrun) (Query.reads_of_run hrun'), ?_⟩
  refine ((Query.atEveryLevel_emitted hrun).and (Query.atEveryLevel_emitted hrun')).mono fun level hlevel => ?_
  obtain ⟨⟨context, part, after, hemit, hpart⟩, context', part', after', hemit', hpart'⟩ := hlevel
  exact ⟨context, part, after, context', part', after', hemit, hpart, hemit', hpart',
    .of_reads (Query.reads_of_run hemit) (Query.reads_of_run hemit')⟩

/-- The customers of two years who are in a third list, and all of a fourth one but the first of them. -/
def keptCustomers : Query :=
  ⟨[.from (.table "old" none), .setOperation ⟨[.from (.table "new" none)]⟩ .intersect false,
    .setOperation ⟨[.from (.table "invited" none), .orderBy (.column "id") .asc, .limit 3]⟩ .union true,
    .setOperation ⟨[.from (.table "gone" none)]⟩ .except false]⟩

theorem readings_compile_keptCustomers :
    ∃ r r', ({ dialect := .postgres } : Compiler).compile keptCustomers = .ok r ∧
      ({ dialect := .oracle } : Compiler).compile keptCustomers = .ok r' ∧
      Dialect.postgres.grouping r.tokens = keptCustomers.grouping ∧
      Dialect.oracle.grouping r'.tokens = keptCustomers.grouping := by
  obtain ⟨r, hr⟩ : ∃ r, ({ dialect := .postgres } : Compiler).compile keptCustomers = .ok r := ⟨_, rfl⟩
  obtain ⟨r', hr'⟩ : ∃ r, ({ dialect := .oracle } : Compiler).compile keptCustomers = .ok r := ⟨_, rfl⟩
  have hreadings := (readings_compile hr hr').1
  exact ⟨r, r', hr, hr', hreadings.left.leftToRight_iff.2 fun _ => by decide, hreadings.right.leftToRight_iff.2 fun _ => by decide⟩

/-- An INTERSECT behind a UNION. -/
def lateIntersect : Query :=
  ⟨[.from (.table "a" none), .setOperation ⟨[.from (.table "b" none)]⟩ .union false,
    .setOperation ⟨[.from (.table "c" none)]⟩ .intersect false]⟩

/-- It is combined first on one engine and last on another. -/
theorem not_same_grouping_lateIntersect :
    ¬∀ (c c' : Compiler) (q : Query) (r r' : Compiled), c.compile q = .ok r → c'.compile q = .ok r' →
      c.dialect.grouping r.tokens = q.grouping ∧ c'.dialect.grouping r'.tokens = q.grouping := by
  intro h
  have hboth := h { dialect := .postgres } { dialect := .sqlite } lateIntersect _ _ rfl rfl
  revert hboth
  decide

end Compiler

end QueryCompiler
