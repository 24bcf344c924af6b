-- SUMMARY: Every nested query of a statement is emitted, and its tokens stand in those of the statement without a gap.
import Mathlib.Data.List.Infix
import QueryCompiler.Proofs.Binding
import QueryCompiler.Proofs.Skeleton

/-!
# Occurrence

No part of a statement leaves out a query that is nested in it, and none changes
what the query is emitted as: the tokens of the query stand in those of the part,
one after the other. So a statement is emitted only when all that is nested in it
is.
-/

namespace QueryCompiler

variable {F : Fragment → Prop} {B : List Keyword → Prop} {n : Nested} {own : List Keyword}
  {ns : List Nested} {a b ts : List (Token Value)}

/-- The nested query is emitted, and its tokens stand among these. -/
def Nested.StandsIn (n : Nested) (ts : List (Token Value)) : Prop :=
  ∃ inner, n.statement = .ok inner ∧ inner <:+: ts

theorem Nested.StandsIn.mono (h : n.StandsIn a) (hab : a <:+: b) : n.StandsIn b := by
  obtain ⟨inner, hinner, hinfix⟩ := h
  exact ⟨inner, hinner, hinfix.trans hab⟩

theorem isInfix_parenthesized (ts : List (Token Value)) : ts <:+: Token.parenthesized ts :=
  ⟨[.symbol .lparen], [.symbol .rparen], rfl⟩

/-- Every nested query is emitted, and its tokens stand in those of the whole without a gap. -/
theorem Skeleton.standsIn (h : Skeleton B own ns ts) : ∀ n ∈ ns, n.StandsIn ts := by
  induction h with
  | nil | inert | keyword => exact fun _ hn => nomatch hn
  | @query n ts h => exact List.forall_mem_singleton.2 ⟨ts, h, isInfix_parenthesized ts⟩
  | @bare n ts hB h => exact List.forall_mem_singleton.2 ⟨ts, h, List.infix_refl ts⟩
  | parenthesized _ _ ih => exact fun n hn => (ih n hn).mono (isInfix_parenthesized _)
  | append _ _ iha ihb =>
    exact List.forall_mem_append.2 ⟨fun n hn => (iha n hn).mono (List.prefix_append _ _).isInfix,
      fun n hn => (ihb n hn).mono (List.suffix_append _ _).isInfix⟩

theorem standsIn_sectionTokens {t : Target} {s : Sections Nested}
    (hs : s.Holds (Nested.IsPhrase t.profile F) F)
    {outermost : Bool} (h : sectionTokens t s outermost = .ok ts) : ∀ n ∈ s.nested, n.StandsIn ts := by
  have hparts := (skeleton_sectionTokens .any hs (fun _ _ => trivial)
    (fun _ => ⟨trivial, fun _ _ => trivial⟩) h).standsIn
  rw [Sections.parts, List.forall_mem_append, List.forall_mem_map] at hparts
  obtain ⟨hctes, hparts⟩ := hparts
  cases hempty : s.arms.isEmpty with
  | true =>
    rw [hempty, if_pos rfl] at hparts
    exact Sections.forall_mem_nested.2 ⟨hctes, hparts, by simp [List.isEmpty_iff.1 hempty]⟩
  | false =>
    rw [hempty, if_neg Bool.false_ne_true, List.forall_mem_cons, List.forall_mem_map] at hparts
    obtain ⟨⟨paged, hpaged, hinfix⟩, harms⟩ := hparts
    refine Sections.forall_mem_nested.2 ⟨hctes, fun n hn => ?_, harms⟩
    exact ((skeleton_pagedTokens .any hs (fun _ _ => trivial) hpaged).standsIn n hn).mono hinfix

namespace Query

variable {t : Target} {q inner : Query}

/-- The sections of a query, with what is nested in them emitted, hold phrases. -/
theorem holds_sections {s : Sections Query} (h : q.sections = .ok s) :
    (s.map (Query.nested t)).Holds (Nested.IsPhrase t.profile fun _ => True) fun _ => True := by
  have hmap := sections_map q (Query.nested t)
  rw [h] at hmap
  refine Sections.holds_ofClauses (fun clause hclause => ?_) hmap
  obtain ⟨inner, -, rfl⟩ := List.mem_map.1 hclause
  refine Clause.holds_map (fun _ _ => trivial) fun q _ => isPhrase_nested ?_
  exact everywhere_of_forall (fun _ _ _ => trivial) q

/-- The queries inside a query stand in its tokens, wherever the query itself is. -/
theorem standsIn_tokensAt {outermost : Bool} (h : q.tokensAt t outermost = .ok ts)
    (hinner : inner ∈ q.inside) :
    (inner.nested t).StandsIn ts := by
  rw [tokensAt_eq] at h
  obtain ⟨s, hs, h⟩ := bind_eq_ok h
  rw [inside_eq hs] at hinner
  refine standsIn_sectionTokens (holds_sections hs) h _ ?_
  rw [Sections.nested_map]
  exact List.mem_map_of_mem hinner

/-- A query that is emitted has tokens, and they are numbered after the values in front of it. -/
theorem exists_tokensAt {c after : Context} {ts : List (Token Nat)} (h : (q.emit t).run c = .ok (ts, after)) :
    ∃ tokens, q.tokensAt t (c.depth == 0) = .ok tokens ∧ ts = Token.renumber c.bindings.size tokens := by
  rw [run_emit] at h
  obtain ⟨tokens, htokens, hnumber⟩ := map_eq_ok h
  exact ⟨tokens, htokens, (congrArg Prod.fst hnumber).symm⟩

/-- A query inside another one is emitted one step deeper and after the values in front of it, and what it
is emitted as stands in the whole. -/
theorem exists_emit_inside {c after : Context} {ts : List (Token Nat)}
    (h : (q.emit t).run c = .ok (ts, after)) (hinner : inner ∈ q.inside) :
    ∃ front mid back own mine rest, ts = front ++ mid ++ back ∧
      (inner.emit t).run ⟨c.bindings.append own, c.depth + 1⟩
        = .ok (mid, ⟨(c.bindings.append own).append mine, c.depth + 1⟩) ∧
      after = ⟨((c.bindings.append own).append mine).append rest, c.depth⟩ := by
  rw [run_emit] at h
  obtain ⟨tokens, htokens, hnumber⟩ := map_eq_ok h
  obtain ⟨statement, hstatement, front, back, rfl⟩ := standsIn_tokensAt htokens hinner
  have hstatement : inner.tokensAt t false = .ok statement := hstatement
  rw [Context.number_append, Context.number_append, Prod.mk.injEq] at hnumber
  obtain ⟨rfl, rfl⟩ := hnumber
  refine ⟨_, _, _, ⟨(Token.params front).toArray⟩, ⟨(Token.params statement).toArray⟩,
    ⟨(Token.params back).toArray⟩, rfl, ?_, rfl⟩
  have hdepth : (c.depth + 1 == 0) = false := rfl
  rw [run_emit, hdepth, hstatement]
  rfl

/-- The queries inside a query are emitted, at every level, and what they are emitted as stands in the whole. -/
theorem inside_emitted {c after : Context} {ts whole : List (Token Nat)}
    (h : (q.emit t).run c = .ok (ts, after)) (hts : ts <:+: whole) :
    ∀ used ∈ q.inside, used.AtEveryLevel fun inner =>
      ∃ c part after, 0 < c.depth ∧ (inner.emit t).run c = .ok (part, after) ∧ part <:+: whole := by
  induction q using induction_inside generalizing c after ts with
  | step q ih =>
    intro used hused
    obtain ⟨front, mid, back, own, mine, rest, hsplit, hemit, -⟩ := exists_emit_inside h hused
    have hinfix : mid <:+: whole := List.IsInfix.trans ⟨front, back, hsplit.symm⟩ hts
    exact .mk ⟨_, mid, _, Nat.succ_pos _, hemit, hinfix⟩ (ih used hused hemit hinfix)

/-- So it is with the query itself and those inside it. -/
theorem atEveryLevel_emitted {c after : Context} {ts : List (Token Nat)}
    (h : (q.emit t).run c = .ok (ts, after)) :
    q.AtEveryLevel fun inner => ∃ c part after, (inner.emit t).run c = .ok (part, after) ∧ part <:+: ts := by
  refine .mk ⟨c, ts, after, h, List.infix_refl _⟩ fun used hused => ?_
  exact (inside_emitted h (List.infix_refl ts) used hused).mono fun _ ⟨c, part, after, _, hemitted⟩ =>
    ⟨c, part, after, hemitted⟩

/-- What a query adds to the level where it stands as an operand: nothing in parentheses, otherwise the
sections of its SELECT, which has neither an order nor a page. -/
theorem keywords_nested_cases (q : Query) :
    (q.nested t).keywords = [] ∨ ∃ s, q.sections = .ok s ∧ s.isDelimited = false ∧
      (q.nested t).keywords = Keyword.with_.when (!s.ctes.isEmpty) ++
        (s.map (Query.nested t)).pagedKeywords t.profile false := by
  unfold Nested.keywords
  split
  next hd htokens =>
    rw [isDelimited_nested] at hd
    have htokens : q.tokensAt t false = .ok _ := htokens
    rw [tokensAt_eq] at htokens
    obtain ⟨s, hs, htokens⟩ := bind_eq_ok htokens
    obtain ⟨hd, harms⟩ : s.isDelimited = false ∧ s.arms.isEmpty = true := by
      simpa [isDelimited_of_sections hs] using hd
    refine .inr ⟨s, hs, hd, ?_⟩
    rw [ownLevel_sectionTokens (holds_sections hs) htokens, Sections.statementKeywords,
      if_pos (by simpa using harms)]
    simp
  next => exact .inl rfl

end Query

end QueryCompiler
